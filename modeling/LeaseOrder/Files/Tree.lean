/-
A file system in memory: plain files and directories, no links, nobody else at work.

Entries are kept under the names that lead to them from the root.  A path is walked name
by name, and every name but the last has to be a directory.  Each operation fails for the
reasons, and in the order of reasons, that the file system of Linux has.

Beside what the tree decides, the system may refuse a request: a lock that cannot be had, a
disk that is full.  `Faults` tells which requests are refused, and how much of a file gets
through that is read or written when one is.  What is refused may depend on all that happened
before.  The reliable system is the one without faults.
-/
import LeaseOrder.Files.System

namespace LeaseOrder.Files

/-- A place in the tree: the names that lead to it. -/
abbrev Place : Type := List (List Char)

/-- What can be opened for reading. -/
inductive Opened where
  | file (contents : Text.Bytes)
  | directory
deriving DecidableEq, Repr

/-- What can be read from it: nothing, if it is a directory. -/
def Opened.read : Opened → Contents
  | .file contents => ⟨contents, none⟩
  | .directory => ⟨[], some .isDirectory⟩

/-- What is at a place. -/
inductive Entry where
  | file (contents : Text.Bytes)
  | directory
deriving DecidableEq, Repr

/-- A tree of files, and the directory that relative paths start from. -/
structure Tree where
  entries : List (Place × Entry)
  current : Place
deriving DecidableEq

namespace Tree

/-- The entry at a place. The root is always there. -/
def entry? (t : Tree) (place : Place) : Option Entry :=
  if place = [] then some .directory
  else (t.entries.find? fun e => e.1 == place).map (·.2)

/-- The tree with an entry at a place. -/
def put (t : Tree) (place : Place) (e : Entry) : Tree :=
  { t with entries := t.entries.filter (fun x => x.1 ≠ place) ++ [(place, e)] }

/-- The tree with nothing at a place. -/
def remove (t : Tree) (place : Place) : Tree :=
  { t with entries := t.entries.filter fun x => x.1 ≠ place }

/-- The greatest number of bytes of a name. -/
def maxName : Nat := 255

/-- The greatest number of bytes of a path. -/
def maxPath : Nat := 4095

/-- The number of bytes of a name. -/
def size (name : List Char) : Nat :=
  name.foldr (fun c n => c.utf8Size + n) 0

/-- Walks from a directory through names that are all directories. -/
def walk (t : Tree) (place : Place) : List (List Char) → Except FileError Place
  | [] => .ok place
  | name :: names =>
    if name = ['.'] then walk t place names
    else if name = ['.', '.'] then walk t place.dropLast names
    else if maxName < size name then .error .nameTooLong
    else match t.entry? (place ++ [name]) with
      | none => .error .notFound
      | some (.file _) => .error .notDirectory
      | some .directory => walk t (place ++ [name]) names

/-- Where a path leads. -/
inductive Target where
  /-- A directory, named by dots or as the root. -/
  | directory (place : Place)
  /-- A name in a directory. -/
  | name (dir : Place) (name : List Char)
deriving DecidableEq, Repr

/-- Finds the directory that a path leads into. -/
def locate (t : Tree) (p : Path) : Except FileError Target :=
  if p.text.toList.contains '\x00' then .error .badName
  else if p.isEmpty then .error .notFound
  else if maxPath < size p.text.toList then .error .nameTooLong
  else do
    let start := if p.rooted then [] else t.current
    let dir ← t.walk start p.steps.dropLast
    match p.steps.getLast? with
    | none => return .directory start
    | some last =>
      if last = ['.'] then return .directory dir
      else if last = ['.', '.'] then return .directory dir.dropLast
      else if maxName < size last then .error .nameTooLong
      else return .name dir last

/-- The entry that a path leads to. -/
def find (t : Tree) (p : Path) : Except FileError Entry := do
  match ← t.locate p with
  | .directory _ => return .directory
  | .name dir name =>
    match t.entry? (dir ++ [name]) with
    | none => .error .notFound
    | some .directory => return .directory
    | some (.file contents) => if p.endsInSlash then .error .notDirectory else return .file contents

/-- Opens a file or a directory for reading. Reading fails for a directory. -/
def openRead (t : Tree) (p : Path) : Except FileError Opened :=
  (t.find p).map fun
    | .file contents => .file contents
    | .directory => .directory

/-- Creates a file, or empties an old one, and tells its place. -/
def createFile (t : Tree) (p : Path) : Except FileError (Place × Tree) := do
  match ← t.locate p with
  | .directory _ => .error .isDirectory
  | .name dir name =>
    if p.endsInSlash then .error .isDirectory
    else match t.entry? (dir ++ [name]) with
      | some .directory => .error .isDirectory
      | _ => return (dir ++ [name], t.put (dir ++ [name]) (.file []))

/-- Changes what is in the file at a place, if there is one. -/
def rewrite (t : Tree) (place : Place) (f : Text.Bytes → Text.Bytes) : Tree :=
  match t.entry? place with
  | some (.file contents) => t.put place (.file (f contents))
  | _ => t

/-- Creates a directory. -/
def makeDir (t : Tree) (p : Path) : Except FileError Tree := do
  match ← t.locate p with
  | .directory _ => .error .alreadyExists
  | .name dir name =>
    match t.entry? (dir ++ [name]) with
    | some _ => .error .alreadyExists
    | none => return t.put (dir ++ [name]) .directory

/-- Gives a file another name. -/
def rename (t : Tree) (p q : Path) : Except FileError Tree := do
  match ← t.locate p, ← t.locate q with
  | .name dir name, .name dir' name' =>
    match t.entry? (dir ++ [name]) with
    | none => .error .notFound
    | some .directory => .error .isDirectory
    | some (.file contents) =>
      if p.endsInSlash || q.endsInSlash then .error .notDirectory
      else if t.entry? (dir' ++ [name']) = some .directory then .error .isDirectory
      else return (t.remove (dir ++ [name])).put (dir' ++ [name']) (.file contents)
  | _, _ => .error .busy

end Tree

/-- A tree of files with what comes from the standard input. -/
structure World where
  tree : Tree
  input : Text.Bytes
deriving DecidableEq

/-! ### Faults -/

/-- What the system may refuse to do. -/
inductive Request where
  | openRead (p : Path)
  | lockShared (file : Opened)
  | read (contents : Contents)
  | create (p : Path)
  | lockExclusive (place : Place)
  | append (place : Place) (text : String)
  | flush (place : Place)
  | makeDir (p : Path)
  | rename (p q : Path)
  | inspect (p : Path)
deriving DecidableEq, Repr

/-- What goes wrong beside what the tree decides.  The system has a state of its own, so what it
    refuses once it may do another time. -/
structure Faults where
  /-- The state of the system, of which a program sees the world. -/
  State : Type
  world : State → World
  setTree : State → Tree → State
  /-- The reason for which a request is refused, if it is, and the state after it. -/
  ask : State → Request → Option FileError × State
  /-- What gets through of what was being read or written. -/
  kept : State → Text.Bytes → Text.Bytes
  world_setTree : ∀ s t, world (setTree s t) = { world s with tree := t }
  world_ask : ∀ s r, world (ask s r).2 = world s
  kept_prefix : ∀ s bytes, kept s bytes <+: bytes

/-- Nothing goes wrong. -/
@[reducible]
def Faults.none : Faults where
  State := World
  world w := w
  setTree w t := { w with tree := t }
  ask w _ := (Option.none, w)
  kept _ bytes := bytes
  world_setTree _ _ := rfl
  world_ask _ _ := rfl
  kept_prefix _ _ := List.prefix_rfl

/-- What is done in a world with faults. -/
def Faulty (faults : Faults) (α : Type) : Type :=
  StateM faults.State α

namespace Faulty

variable {faults : Faults}

instance : Monad (Faulty faults) := inferInstanceAs (Monad (StateM faults.State))

/-- The result, and the state after it. -/
def run {α : Type} (x : Faulty faults α) (s : faults.State) : α × faults.State :=
  StateT.run x s

/-- Answers a request from the world, or with the reason for which it is refused. -/
def answer {α : Type} (r : Request) (refused : FileError → α) (f : World → α) : Faulty faults α :=
  fun s =>
    match faults.ask s r with
    | (some e, s') => (refused e, s')
    | (none, s') => (f (faults.world s'), s')

/-- Carries out an operation that may change the tree, unless it is refused. -/
def change {α : Type} (r : Request) (f : Tree → Except FileError (α × Tree)) :
    Faulty faults (Except FileError α) := fun s =>
  match faults.ask s r with
  | (some e, s') => (.error e, s')
  | (none, s') =>
    match f (faults.world s').tree with
    | .ok (a, t) => (.ok a, faults.setTree s' t)
    | .error e => (.error e, s')

/-- Reads what there is, or as much as gets through. -/
def readContents (c : Contents) : Faulty faults Contents := fun s =>
  match faults.ask s (.read c) with
  | (some e, s') => (⟨faults.kept s' c.bytes, some e⟩, s')
  | (none, s') => (c, s')

/-- Adds a text to the file at a place, or as much as gets through. -/
def append (place : Place) (text : String) : Faulty faults (Except FileError Unit) := fun s =>
  let bytes := Text.encode text
  match faults.ask s (.append place text) with
  | (some e, s') =>
    (.error e, faults.setTree s' ((faults.world s').tree.rewrite place
      (· ++ faults.kept s' bytes)))
  | (none, s') => (.ok (), faults.setTree s' ((faults.world s').tree.rewrite place (· ++ bytes)))

/-- Tests what a path leads to; nothing can be told where the system does not say. -/
def inspect (p : Path) (test : Except FileError Entry → Bool) : Faulty faults Bool :=
  answer (.inspect p) (fun _ => false) fun w => test (w.tree.find p)

instance : FileSystem (Faulty faults) where
  Reader := Opened
  Writer := Place
  openRead p := answer (.openRead p) .error fun w => w.tree.openRead p
  lockShared file := answer (.lockShared file) .error fun _ => .ok ()
  readAll file := readContents file.read
  create p := change (.create p) (·.createFile p)
  lockExclusive place := answer (.lockExclusive place) .error fun _ => .ok ()
  append := append
  flush place := answer (.flush place) .error fun _ => .ok ()
  abandon place := fun s =>
    ((), faults.setTree s ((faults.world s).tree.rewrite place (faults.kept s)))
  makeDir p := change (.makeDir p) fun t => (t.makeDir p).map (Prod.mk ())
  rename p q := change (.rename p q) fun t => (t.rename p q).map (Prod.mk ())
  pathExists p := inspect p fun found => found.toBool
  isDir p := inspect p fun found => found matches .ok .directory
  readInput := fun s => (readContents ⟨(faults.world s).input, none⟩ : Faulty faults Contents) s

end Faulty

/-- The reliable system. -/
instance : FileSystem (StateM World) := inferInstanceAs (FileSystem (Faulty .none))

end LeaseOrder.Files
