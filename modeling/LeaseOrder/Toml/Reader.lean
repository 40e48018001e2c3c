/-
Reading TOML documents.

Arrays and tables between braces nest to a depth of `maxNesting`, and dotted keys have as
many parts at most.  The lists in a text, of items, of entries and of sections, are never
longer than the text, which bounds the loops that read them.
-/
import LeaseOrder.Toml.Datetime
import LeaseOrder.Toml.Number
import LeaseOrder.Toml.Text

namespace LeaseOrder.Toml

/-- The greatest depth of arrays and tables inside each other. -/
def maxNesting : Nat := 79

/-! ### Keys -/

/-- A character of a key without quotes. -/
def isBareKey (c : Char) : Bool :=
  c.isAlphanum || c = '_' || c = '-'

/-- One part of a key. -/
def readKeyPart (cs : List Char) : Option (String × List Char) :=
  match cs with
  | '"' :: r => (readBasic r).map fun p => (.ofList p.1, p.2)
  | '\'' :: r => (readLiteral r).map fun p => (.ofList p.1, p.2)
  | _ =>
    let word := cs.takeWhile isBareKey
    if word.isEmpty then none else some (.ofList word, cs.dropWhile isBareKey)

/-- A key of at most so many parts, with blanks around each: all parts but the last, and the
    last one. -/
def readKey : Nat → List Char → Option ((List String × String) × List Char)
  | 0, _ => none
  | parts + 1, cs => do
    let (word, cs) ← readKeyPart (skipBlanks cs)
    match skipBlanks cs with
    | '.' :: r =>
      let ((path, last), rest) ← readKey parts r
      return ((word :: path, last), rest)
    | rest => return (([], word), rest)

/-! ### Values -/

/-- An entry, whose value is read by `value`, with the blanks around it. -/
def readEntry (value : List Char → Option (Node × List Char)) (cs : List Char) :
    Option (Entry × List Char) := do
  let ((path, key), cs) ← readKey maxNesting cs
  let (v, cs) ← value (skipBlanks (← readMark '=' cs))
  return (⟨path, key, v⟩, skipBlanks cs)

/-- The items of an array, after its bracket; at most `fuel`. -/
def readItems (value : List Char → Option (Node × List Char)) :
    Nat → List Char → Option (List Node × List Char)
  | 0, _ => none
  | fuel + 1, cs => do
    let cs ← skipGaps false cs
    match cs with
    | ']' :: r => return ([], r)
    | _ =>
      let (v, cs) ← value cs
      match ← skipGaps false cs with
      | ',' :: r =>
        let (vs, rest) ← readItems value fuel r
        return (v :: vs, rest)
      | ']' :: r => return ([v], r)
      | _ => none

/-- The entries of a table between braces, after the brace or a comma; at most `fuel`. -/
def readEntries (value : List Char → Option (Node × List Char)) :
    Nat → List Char → Option (List Entry × List Char)
  | 0, _ => none
  | fuel + 1, cs => do
    let (e, cs) ← readEntry value cs
    match cs with
    | ',' :: r =>
      let (es, rest) ← readEntries value fuel r
      return (e :: es, rest)
    | '\x7d' :: r => return ([e], r)
    | _ => none

/-- A table between braces, after the brace. -/
def readInline (value : List Char → Option (Node × List Char)) (cs : List Char) :
    Option (Node × List Char) :=
  match skipBlanks cs with
  | '\x7d' :: r => some (.table .sealed [], r)
  | _ => do
    let (es, rest) ← readEntries value (cs.length + 1) cs
    return (.table .sealed (← Entry.addAll es []), rest)

/-- A value that is no array and no table. -/
def readScalar : List Char → Option (Node × List Char)
  | 't' :: 'r' :: 'u' :: 'e' :: r => some (.boolean true, r)
  | 'f' :: 'a' :: 'l' :: 's' :: 'e' :: r => some (.boolean false, r)
  | '"' :: r => (readString ('"' :: r)).map fun p => (.string p.1, p.2)
  | '\'' :: r => (readString ('\'' :: r)).map fun p => (.string p.1, p.2)
  | cs =>
    match readDatetime cs with
    | some rest => some (.datetime, rest)
    | none => readNumber cs

/-- A value with so many levels of arrays and tables at most. -/
def readValue : Nat → List Char → Option (Node × List Char)
  | 0, cs => readScalar cs
  | depth + 1, cs =>
    match cs with
    | '[' :: r => (readItems (readValue depth) (r.length + 1) r).map fun p => (.array p.1, p.2)
    | '\x7b' :: r => readInline (readValue depth) r
    | _ => readScalar cs

/-! ### Documents -/

/-- A line of a document. -/
inductive Line where
  | blank
  | entry (e : Entry)
  | table (path : List String) (key : String)
  | tables (path : List String) (key : String)

/-- The header of a table, after its first bracket. -/
def readHeader (cs : List Char) : Option (Line × List Char) :=
  match cs with
  | '[' :: r => do
    let ((path, key), cs) ← readKey maxNesting r
    return (.tables path key, ← readMark ']' (← readMark ']' cs))
  | _ => do
    let ((path, key), cs) ← readKey maxNesting cs
    return (.table path key, ← readMark ']' cs)

/-- A line, or several where a value runs over them. -/
def readLine (cs : List Char) : Option (Line × List Char) := do
  match skipBlanks cs with
  | '[' :: r =>
    let (line, cs) ← readHeader r
    return (line, ← readLineEnd cs)
  | '#' :: r => return (.blank, ← readLineEnd ('#' :: r))
  | '\n' :: r => return (.blank, r)
  | '\r' :: r => return (.blank, ← readLineEnd ('\r' :: r))
  | [] => return (.blank, [])
  | cs =>
    let (e, cs) ← readEntry (readValue maxNesting) cs
    return (.entry e, ← readLineEnd cs)

/-- The lines of a text; at most `fuel`. -/
def readLines : Nat → List Char → Option (List Line)
  | _, [] => some []
  | 0, _ => none
  | fuel + 1, cs => do
    let (line, rest) ← readLine cs
    return line :: (← readLines fuel rest)

/-- The sections of the lines, and the entries in front of them. -/
def group : List Line → List Entry × List Section
  | [] => ([], [])
  | .blank :: lines => group lines
  | .entry e :: lines => (e :: (group lines).1, (group lines).2)
  | .table path key :: lines => ([], .table path key (group lines).1 :: (group lines).2)
  | .tables path key :: lines => ([], .tables path key (group lines).1 :: (group lines).2)

/-- The text without a byte order mark. -/
def dropMark : List Char → List Char
  | '\ufeff' :: r => r
  | cs => cs

/-- The document that a text holds. -/
def Document.ofString? (s : String) : Option Document := do
  let cs := dropMark s.toList
  let lines ← readLines (cs.length + 1) cs
  return ⟨(group lines).1, (group lines).2⟩

end LeaseOrder.Toml
