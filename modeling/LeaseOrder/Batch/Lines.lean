/-
Batches as text: one record per line.

A line ends at a line feed, and a carriage return in front of it belongs to the end.
Blank lines hold no record but are counted.  The first line that is no text, or holds no
record, makes the whole batch unreadable, whatever comes after it.
-/
import LeaseOrder.Files.System
import LeaseOrder.Record.Basic
import LeaseOrder.Text.Utf8

namespace LeaseOrder.Batch

open Files

/-- Why a line cannot be read. -/
inductive LineFault where
  /-- There are no characters to be had. -/
  | unreadable (e : FileError)
  /-- The characters are no record. -/
  | badRecord (e : Json.Failure)
deriving DecidableEq, Repr

/-- Why a batch cannot be read: the number of a line, from 1 on, and what is wrong with it. -/
structure ReadFault where
  line : Nat
  fault : LineFault
deriving DecidableEq, Repr

/-- The wording of the reasons. -/
def ReadFault.message (e : ReadFault) : String :=
  match e.fault with
  | .unreadable f => "Failed to read line " ++ Text.decimal e.line ++ ": " ++ f.message
  | .badRecord f => "Failed to parse record at line " ++ Text.decimal e.line ++ ": " ++ f.message

/-- The lines of a file. After the last line end there is another line only if it is not empty. -/
def lines : List (Option Char) → List (List (Option Char))
  | [] => []
  | c :: cs =>
    if c = some '\n' then [] :: lines cs
    else if c = some '\r' && cs.head? = some (some '\n') then lines cs
    else match lines cs with
      | [] => [[c]]
      | l :: ls => (c :: l) :: ls

variable {α : Type} [Record α]

/-- The record of a line; a blank line has none. -/
def readLine (line : List (Option Char)) : Except LineFault (Option α) :=
  match Text.assemble? line with
  | none => .error (.unreadable .badText)
  | some s =>
    if Text.isAllBlank s then .ok none
    else match Record.ofText s with
      | .ok x => .ok (some x)
      | .error e => .error (.badRecord e)

/-- The records of lines, of which the first one has this number. -/
def readLines (number : Nat) : List (List (Option Char)) → Except ReadFault (List α)
  | [] => .ok []
  | l :: ls => do
    let x ← (readLine l).mapError (⟨number, ·⟩)
    let xs ← readLines (number + 1) ls
    return x.toList ++ xs

/-- The records of a file. -/
def parse (contents : Text.Bytes) : Except ReadFault (List α) :=
  readLines 1 (lines (Text.decode contents))

/-- The contents up to the end of the last line that has one. -/
def ended (contents : Text.Bytes) : Text.Bytes :=
  (contents.reverse.dropWhile (· ≠ 10)).reverse

/-- The records of what could be read of a file. Where reading stopped, the lines before are
    looked at first, and the line in which it stopped cannot be read. -/
def parseContents (contents : Contents) : Except ReadFault (List α) :=
  match contents.stopped with
  | none => parse contents.bytes
  | some e => do
    let before := lines (Text.decode (ended contents.bytes))
    let _ ← readLines (α := α) 1 before
    .error ⟨before.length + 1, .unreadable e⟩

/-- The text of a batch. -/
def print (batch : List α) : String :=
  String.join (batch.map fun x => Record.text x ++ "\n")

end LeaseOrder.Batch
