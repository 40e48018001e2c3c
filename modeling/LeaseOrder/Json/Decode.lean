/-
Decoding of records.

A `Decoder` reads a draft and finds faults in the order in which the draft was read, so
that a wrong value is reported even where the text after it is no JSON.  A record is
described by a `Shape`: its fields in their order, each with the way in which it is read
into the record.  A record may be written as an object or as an array of its fields.
-/
import LeaseOrder.Json.Failure
import LeaseOrder.Json.Value

namespace LeaseOrder.Json

/-- Where a draft was taken from. -/
inductive Origin where
  /-- A text that is still being read. -/
  | text
  /-- A value that was read as a whole. -/
  | value
deriving DecidableEq, Repr

/-- A way to read a draft. -/
abbrev Decoder (α : Type) : Type := Origin → Draft → Except Failure α

/-- What a draft is, if it stands for something. -/
def Draft.found? : Draft → Option Found
  | .broken => none
  | .null => some .null
  | .bool b => some (.bool b)
  | .number n => n.map .number
  | .string (.text s) => some (.string s)
  | .string .unpaired => none
  | .array .. => some .sequence
  | .object .. => some .map

/-- The failure of a draft that is not of the wanted kind. -/
def wrongType (d : Draft) (wanted : String) : Failure :=
  match d.found? with
  | some found => .data (.wrongType found wanted)
  | none => .malformed

namespace Decoder

/-- A string. -/
def string : Decoder String
  | _, .string (.text s) => .ok s
  | _, d => .error (wrongType d "a string")

/-- A truth value. -/
def bool : Decoder Bool
  | _, .bool b => .ok b
  | _, d => .error (wrongType d "a boolean")

/-- An unsigned word. -/
def unsigned : Decoder UInt64
  | _, .number (some (.unsigned n)) => .ok n
  | _, .number (some (.negative n)) => .error (.data (.wrongValue (.number (.negative n)) "u64"))
  | _, d => .error (wrongType d "u64")

/-- A signed word. -/
def signed : Decoder Int64
  | _, .number (some (.unsigned n)) =>
    if n.toNat < Text.signedBound then .ok n.toInt64
    else .error (.data (.wrongValue (.number (.unsigned n)) "i64"))
  | _, .number (some (.negative n)) => .ok n
  | _, d => .error (wrongType d "i64")

/-- Nothing but a null. -/
def unit : Decoder Unit
  | _, .null => .ok ()
  | _, d => .error (wrongType d "unit")

/-- A value, or a null where there is none. -/
def nullable {α : Type} (dec : Decoder α) : Decoder (Option α)
  | _, .null => .ok none
  | o, d => (dec o d).map some

/-- An array of values. -/
def list {α : Type} (dec : Decoder α) : Decoder (List α)
  | o, .array items closed => do
    let xs ← items.mapM (dec o)
    if closed then .ok xs else .error .malformed
  | _, d => .error (wrongType d "a sequence")

/-- A string that has to stand for something. -/
def checked {α ε : Type} (read : String → Except ε α) (fault : ε → Mismatch) : Decoder α :=
  fun o d => do
    let s ← string o d
    (read s).mapError fun e => .data (fault e)

/-- The variant with a name. -/
def variant {α : Type} (known : List (String × α)) (name : String) : Except Failure α :=
  match known.find? fun v => v.1 == name with
  | some v => .ok v.2
  | none => .error (.data (.unknownVariant name (known.map (·.1))))

/-- One of the named variants: its name, or an object with a null under its name. -/
def choice {α : Type} (known : List (String × α)) : Decoder α
  | _, .string (.text s) => variant known s
  | .text, .object ((.text name, value) :: more) closed => do
    let v ← variant known name
    unit .text value
    if more.isEmpty && closed then .ok v else .error .malformed
  | .value, .object [(.text name, value)] _ => do
    let v ← variant known name
    unit .value value
    return v
  | .value, .object .. => .error (.data (.wrongValue .map "map with a single key"))
  | .text, _ => .error .malformed
  | .value, d => .error (wrongType d "string or map")

end Decoder

/-! ### Records -/

/-- A field of a record that is being read. -/
structure Field (ρ : Type) where
  name : String
  /-- The field has been read. -/
  isSet : ρ → Bool
  /-- Reads the field into the record. -/
  read : Decoder (ρ → ρ)

/-- The field with this name, kept by `put` and looked up by `get`. -/
def Field.of {ρ α : Type} (name : String) (get : ρ → Option α) (put : α → ρ → ρ) (dec : Decoder α) :
    Field ρ :=
  ⟨name, fun r => (get r).isSome, fun o d => (dec o d).map put⟩

/-- How a record is written. -/
structure Shape (ρ : Type) where
  /-- What messages call the record. -/
  name : String
  /-- The fields in the order that they have in an array. -/
  fields : List (Field ρ)
  /-- An array has to have the first field. -/
  needsFirst : Bool
  /-- The record before anything is read. -/
  unread : ρ

namespace Shape

variable {ρ : Type}

/-- Reads the fields of an object into a record. A field that is not known has to be whole. -/
def readFields (s : Shape ρ) (o : Origin) (r : ρ) : List (Unescaped × Draft) → Except Failure ρ
  | [] => .ok r
  | (.text key, d) :: rest =>
    match s.fields.find? fun f => f.name == key with
    | some f =>
      if f.isSet r then .error (.data (.duplicateField key))
      else do
        let put ← f.read o d
        readFields s o (put r) rest
    | none => if d.isWhole then readFields s o r rest else .error .malformed
  | (.unpaired, _) :: _ => .error .malformed

/-- Reads the items of an array into a record; items beyond the last field are handed back. -/
def readItems (o : Origin) (r : ρ) : List (Field ρ) → List Draft → Except Failure (ρ × List Draft)
  | f :: fs, d :: ds => do
    let put ← f.read o d
    readItems o (put r) fs ds
  | [], ds => .ok (r, ds)
  | _ :: _, [] => .ok (r, [])

/-- Reads a record in either form. -/
def decode (s : Shape ρ) : Decoder ρ
  | o, .object fields closed => do
    let r ← s.readFields o s.unread fields
    if closed then .ok r else .error .malformed
  | o, .array items closed => do
    let (r, extra) ← readItems o s.unread s.fields items
    if items.isEmpty && closed && s.needsFirst then
      throw (.data (.wrongLength 0
        (s.name ++ " with " ++ Text.decimal s.fields.length ++ " elements")))
    match o with
    | .text => if extra.isEmpty && closed then .ok r else .error .malformed
    | .value =>
      if extra.isEmpty then .ok r
      else .error (.data (.wrongLength items.length "fewer elements in array"))
  | _, d => .error (wrongType d s.name)

end Shape

/-- Decodes a text, which has to hold one value and nothing else. -/
def decodeText {α : Type} (dec : Decoder α) (s : String) : Except Failure α := do
  let r := Reading.ofString s
  let x ← dec .text r.draft
  if r.complete then .ok x else .error .malformed

/-- Decodes a value. -/
def decodeValue {α : Type} (dec : Decoder α) (v : Value) : Except Failure α :=
  dec .value v.draft

end LeaseOrder.Json
