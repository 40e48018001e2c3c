/-
What the program asks of a file system.

`FileSystem` lists the operations that batches and configurations need, in any monad, and
`FileError` the reasons for which they fail.  A file is opened, locked, and read or filled in
steps of their own, since each of them may be the one that fails.  `createDirs` is built from
single steps as well.
-/
import LeaseOrder.Files.Path
import LeaseOrder.Text.Utf8

namespace LeaseOrder.Files

/-- Why an operation on a file failed. -/
inductive FileError where
  | notFound
  | notDirectory
  | isDirectory
  | alreadyExists
  | nameTooLong
  | busy
  /-- The path has a character NUL. -/
  | badName
  /-- The contents are no UTF-8. -/
  | badText
  /-- Another reason, in the system's words. -/
  | other (message : String)
deriving DecidableEq, Repr

/-- The wording of the reasons. -/
def FileError.message : FileError → String
  | .notFound => "No such file or directory (os error 2)"
  | .notDirectory => "Not a directory (os error 20)"
  | .isDirectory => "Is a directory (os error 21)"
  | .alreadyExists => "File exists (os error 17)"
  | .nameTooLong => "File name too long (os error 36)"
  | .busy => "Device or resource busy (os error 16)"
  | .badName => "file name contained an unexpected NUL byte"
  | .badText => "stream did not contain valid UTF-8"
  | .other message => message

/-- What came of reading to the end: what could be read, and why it is not all there is. -/
structure Contents where
  bytes : Text.Bytes
  stopped : Option FileError
deriving DecidableEq, Repr

/-- All that was read, unless it is not all there is. -/
def Contents.whole (c : Contents) : Except FileError Text.Bytes :=
  match c.stopped with
  | none => .ok c.bytes
  | some e => .error e

/-- The operations on files, and the standard input. -/
class FileSystem (m : Type → Type) where
  /-- A file that is open for reading. -/
  Reader : Type
  /-- A file that is open for writing. -/
  Writer : Type
  /-- Opens a file for reading. -/
  openRead : Path → m (Except FileError Reader)
  /-- Locks a file against those who want to write to it. -/
  lockShared : Reader → m (Except FileError Unit)
  /-- Reads a file to its end. -/
  readAll : Reader → m Contents
  /-- Creates a file, or empties it, and opens it for writing. -/
  create : Path → m (Except FileError Writer)
  /-- Locks a file against everybody else. -/
  lockExclusive : Writer → m (Except FileError Unit)
  /-- Hands over a text that is to stand at the end of a file. -/
  append : Writer → String → m (Except FileError Unit)
  /-- Sees to it that everything that was handed over is in the file. -/
  flush : Writer → m (Except FileError Unit)
  /-- Lets go of a file; what was handed over and not flushed may be lost. -/
  abandon : Writer → m Unit
  /-- Creates a directory, whose parent has to be there. -/
  makeDir : Path → m (Except FileError Unit)
  /-- Gives a file another name, in the place of a file that has the name already. -/
  rename : Path → Path → m (Except FileError Unit)
  /-- The path leads to something. -/
  pathExists : Path → m Bool
  /-- The path leads to a directory. -/
  isDir : Path → m Bool
  /-- All that comes from the standard input. -/
  readInput : m Contents

open FileSystem

variable {m : Type → Type} [Monad m] [FileSystem m]

/-- Creates a directory, unless it is there. -/
def ensureDir (p : Path) : m (Except FileError Unit) := do
  match ← makeDir p with
  | .ok () => return .ok ()
  | .error e => if ← isDir p then return .ok () else return .error e

/-- Creates a directory with all directories above it that are missing. -/
def createDirs (p : Path) : m (Except FileError Unit) := do
  if p.isEmpty then return .ok ()
  match ← makeDir p with
  | .ok () => return .ok ()
  | .error .notFound =>
    match _h : p.parent? with
    | none => return .error (.other "failed to create whole tree")
    | some q =>
      match ← createDirs q with
      | .ok () => ensureDir p
      | .error e => return .error e
  | .error e => if ← isDir p then return .ok () else return .error e
termination_by p.segments.length
decreasing_by exact Path.parent?_segments_lt _h

end LeaseOrder.Files
