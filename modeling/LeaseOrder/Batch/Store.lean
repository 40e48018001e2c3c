/-
Reading and writing batches.

A batch is read from a file or from the standard input.  It is written in three steps:
the directory of the file is created, the whole batch goes to a temporary file beside it,
and that file then takes the place of the old one.  Nobody takes the temporary file away
when something fails after it has been created.
-/
import LeaseOrder.Batch.Lines

namespace LeaseOrder.Batch

open Files FileSystem

/-- Where a batch is. -/
inductive Source where
  | input
  | file (path : Path)
deriving DecidableEq, Repr

namespace Source

/-- A path; a single dash stands for the standard input. -/
def ofString (s : String) : Source :=
  if s = "-" then .input else .file (.ofString s)

/-- How messages name the source. -/
def text : Source → String
  | .input => "<stdin>"
  | .file p => p.text

/-- The file, if the source is one. -/
def path? : Source → Option Path
  | .input => none
  | .file p => some p

end Source

/-- Why a batch was not read or written. -/
inductive StoreError where
  | cannotOpen (path : Path) (e : FileError)
  /-- The source is shown where it is a file. -/
  | cannotRead (source : Source) (e : ReadFault)
  /-- The standard input cannot be written to. -/
  | notWritable
  | cannotCreateDirectory (path : Path) (e : FileError)
  | cannotCreateTemporary (path : Path) (e : FileError)
  | cannotLockInput (e : FileError)
  | cannotLockTemporary (e : FileError)
  /-- A record has no text, in the words of what should write it. -/
  | cannotEncode (reason : String)
  | cannotWriteRecord (e : FileError)
  | cannotFlush (e : FileError)
  | cannotRename (temporary path : Path) (e : FileError)
deriving DecidableEq, Repr

/-- The wording of the reasons. -/
def StoreError.message : StoreError → String
  | .cannotOpen p e => "Failed to open batch: " ++ p.text ++ ": " ++ e.message
  | .cannotRead .input e => e.message
  | .cannotRead (.file p) e => "Failed to read batch: " ++ p.text ++ ": " ++ e.message
  | .notWritable => "Cannot write a batch to stdin"
  | .cannotCreateDirectory p e => "Failed to create directory: " ++ p.text ++ ": " ++ e.message
  | .cannotCreateTemporary p e => "Failed to create temp file: " ++ p.text ++ ": " ++ e.message
  | .cannotLockInput e => "Failed to acquire read lock on batch: " ++ e.message
  | .cannotLockTemporary e => "Failed to acquire write lock on batch: " ++ e.message
  | .cannotEncode reason => "Failed to serialize record: " ++ reason
  | .cannotWriteRecord e => "Failed to write record: " ++ e.message
  | .cannotFlush e => "Failed to flush batch: " ++ e.message
  | .cannotRename t p e => "Failed to rename " ++ t.text ++ " to " ++ p.text ++ ": " ++ e.message

/-- The temporary file for a destination. -/
def temporary (p : Path) : Path :=
  p.withExtension "jsonl.tmp"

/-- The directory that has to be there for a destination, if it is named. -/
def directory? (p : Path) : Option Path :=
  p.parent?.filter fun q => !q.isEmpty

variable {m : Type → Type} [Monad m] [FileSystem m] {α : Type}

/-- Reads all records of a source. -/
def read [Record α] (s : Source) : m (Except StoreError (List α)) := do
  match s with
  | .input => return (parseContents (← readInput)).mapError (.cannotRead s)
  | .file p =>
    match ← openRead p with
    | .error e => return .error (.cannotOpen p e)
    | .ok file =>
      match ← lockShared file with
      | .error e => return .error (.cannotLockInput e)
      | .ok () => return (parseContents (← readAll file)).mapError (.cannotRead s)

/-! ### Writing -/

section

/- How a record is written. -/
variable (line : α → Except String String)

/-- Puts the lines of a batch into a file. -/
def fill (file : Writer m) : List α → m (Except StoreError Unit)
  | [] => return (← flush file).mapError .cannotFlush
  | x :: batch => do
    match line x with
    | .error reason => return .error (.cannotEncode reason)
    | .ok text =>
      match ← append file (text ++ "\n") with
      | .error e => return .error (.cannotWriteRecord e)
      | .ok () => fill file batch

/-- Writes a batch to the temporary file for a destination. -/
def writeTemporary (p : Path) (batch : List α) : m (Except StoreError Unit) := do
  match ← create (temporary p) with
  | .error e => return .error (.cannotCreateTemporary (temporary p) e)
  | .ok file =>
    match ← lockExclusive file with
    | .error e => return .error (.cannotLockTemporary e)
    | .ok () =>
      match ← fill line file batch with
      | .ok () => return .ok ()
      | .error e =>
        abandon file
        return .error e

/-- Writes the contents of a destination to its temporary file and renames that file. -/
def replaceFile (p : Path) (batch : List α) : m (Except StoreError Unit) := do
  match ← writeTemporary line p batch with
  | .error e => return .error e
  | .ok () => return (← rename (temporary p) p).mapError (.cannotRename (temporary p) p)

/-- Writes a batch, in the place of what was there. -/
def writeWith (s : Source) (batch : List α) : m (Except StoreError Unit) := do
  match s with
  | .input => return .error .notWritable
  | .file p =>
    match directory? p with
    | none => replaceFile line p batch
    | some dir =>
      match ← createDirs dir with
      | .error e => return .error (.cannotCreateDirectory dir e)
      | .ok () => replaceFile line p batch

end

/-- The text of a record, which every record has. -/
def recordLine [Record α] (x : α) : Except String String :=
  .ok (Record.text x)

/-- Writes a batch of records. -/
def write [Record α] (s : Source) (batch : List α) : m (Except StoreError Unit) :=
  writeWith recordLine s batch

end LeaseOrder.Batch
