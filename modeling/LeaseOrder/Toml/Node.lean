/-
TOML documents as trees.

A table knows how it came about, since that decides who may still add to it.  `place`
finds a table by a path, creates the tables that are missing on the way, and puts a
changed table back.  A document is the result of its statements, one after the other.
-/

namespace LeaseOrder.Toml

/-- How a table came about. -/
inductive Standing where
  /-- It was written between braces, and nothing can be added. -/
  | sealed
  /-- It has a header of its own. -/
  | defined
  /-- It is part of the path of a header. -/
  | implied
  /-- It is part of a dotted key. -/
  | dotted
deriving DecidableEq, Repr

/-- A value or a table. Nothing here depends on the value of a float or of a date. -/
inductive Node where
  | string (s : String)
  | integer (n : Int64)
  | float
  | boolean (b : Bool)
  | datetime
  | array (items : List Node)
  | table (standing : Standing) (fields : List (String × Node))
  /-- An array of tables, the latest first. -/
  | tables (latest : List (String × Node)) (earlier : List (List (String × Node)))
deriving Inhabited

/-- The fields of a table. -/
abbrev Fields : Type := List (String × Node)

namespace Fields

/-- The node under a key. -/
def get? (fields : Fields) (key : String) : Option Node :=
  (fields.find? fun f => f.1 == key).map (·.2)

/-- The fields with another node under a key. -/
def set (fields : Fields) (key : String) (n : Node) : Fields :=
  match fields with
  | [] => [(key, n)]
  | f :: fs => if f.1 == key then (key, n) :: fs else f :: set fs key n

/-- Changes the table at the end of a path. Missing tables get the standing `created`; a table
    between braces is never entered, and `mayEnter` says which others are. The change is told the
    standing of its table, or none at the end of an empty path and in an array of tables. -/
def place (created : Standing) (mayEnter : Standing → Bool)
    (change : Option Standing → Fields → Option Fields) :
    List String → Option Standing → Fields → Option Fields
  | [], standing, fields => change standing fields
  | key :: path, _, fields => do
    match fields.get? key with
    | none =>
      let inner ← place created mayEnter change path (some created) []
      return fields.set key (.table created inner)
    | some (.table standing inner) =>
      if standing = .sealed || !mayEnter standing then none
      let inner ← place created mayEnter change path (some standing) inner
      return fields.set key (.table standing inner)
    | some (.tables latest earlier) =>
      let latest ← place created mayEnter change path none latest
      return fields.set key (.tables latest earlier)
    | some _ => none

/-- A field that must not be there yet. -/
def add (key : String) (n : Node) (fields : Fields) : Option Fields :=
  match fields.get? key with
  | none => some (fields ++ [(key, n)])
  | some _ => none

end Fields

/-- A value under a dotted key: the path, the last part of the key, and the value. -/
structure Entry where
  path : List String
  key : String
  value : Node

namespace Entry

/-- Adds the value. The tables on the path have to be without headers of their own, and the last
    one has to be the work of dotted keys. -/
def addTo (e : Entry) (fields : Fields) : Option Fields :=
  Fields.place .dotted (fun s => s = .implied || s = .dotted)
    (fun standing inner =>
      if e.path.isEmpty || standing = some .dotted then Fields.add e.key e.value inner else none)
    e.path none fields

/-- Adds many values. -/
def addAll (entries : List Entry) (fields : Fields) : Option Fields :=
  entries.foldlM (fun fs e => e.addTo fs) fields

end Entry

/-- A header with the entries below it. -/
inductive Section where
  | table (path : List String) (key : String) (entries : List Entry)
  /-- Another table for the array of tables at this path. -/
  | tables (path : List String) (key : String) (entries : List Entry)

namespace Section

/-- Changes the table that holds the last part of a header. Any table may be on the path, and those
    that are missing are created. -/
def place (change : Fields → Option Fields) (path : List String) (fields : Fields) : Option Fields :=
  Fields.place .implied (fun _ => true) (fun _ inner => change inner) path none fields

/-- Adds a section: a table that has no header yet, or the next table of an array of tables. -/
def addTo (fields : Fields) : Section → Option Fields
  | .table path key entries =>
    place (fun inner => do
      match inner.get? key with
      | none => return inner.set key (.table .defined (← Entry.addAll entries []))
      | some (.table .implied old) =>
        return inner.set key (.table .defined (← Entry.addAll entries old))
      | some _ => none) path fields
  | .tables path key entries =>
    place (fun inner => do
      match inner.get? key with
      | none => return inner.set key (.tables (← Entry.addAll entries []) [])
      | some (.tables latest earlier) =>
        return inner.set key (.tables (← Entry.addAll entries []) (latest :: earlier))
      | some _ => none) path fields

end Section

/-- A document: the entries in front of the first header, and the sections. -/
structure Document where
  entries : List Entry
  sections : List Section

/-- The table that a document describes, if it describes one. -/
def Document.fields? (d : Document) : Option Fields := do
  d.sections.foldlM Section.addTo (← Entry.addAll d.entries [])

end LeaseOrder.Toml
