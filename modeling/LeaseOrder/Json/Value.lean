/-
JSON values and their compact text.

The fields of an object have an order, which the text shows.  Reading a text puts them
in ascending order of their keys and keeps the last of the fields of one key.
-/
import LeaseOrder.Json.Draft

namespace LeaseOrder.Json

/-- A JSON value. -/
inductive Value where
  | null
  | bool (b : Bool)
  | number (n : Number)
  | string (s : String)
  | array (items : List Value)
  | object (fields : List (String × Value))
deriving Inhabited

/-- The number of a word. -/
def Value.word (n : UInt64) : Value :=
  .number (.unsigned n)

/-- The number of a signed word. -/
def Value.int (n : Int64) : Value :=
  .number (if n < 0 then .negative n else .unsigned n.toUInt64)

/-- The number of a count. -/
def Value.count (n : Nat) : Value :=
  .word (UInt64.ofNat n)

/-- A field that is left out where there is no value. -/
def optionalField (name : String) (v : Option Value) : List (String × Value) :=
  match v with
  | some v => [(name, v)]
  | none => []

/-! ### Text -/

/-- A character inside a string: the quote, the backslash and the first 32 characters are escaped. -/
def escapeChar (c : Char) : List Char :=
  if c = '"' || c = '\\' then ['\\', c]
  else if c = '\x08' then ['\\', 'b']
  else if c = '\t' then ['\\', 't']
  else if c = '\n' then ['\\', 'n']
  else if c = '\x0c' then ['\\', 'f']
  else if c = '\r' then ['\\', 'r']
  else if c.val < 0x20 then
    ['\\', 'u', '0', '0', Text.hexChar (c.toNat / 16), Text.hexChar (c.toNat % 16)]
  else [c]

/-- A string between its quotes. -/
def stringChars (s : String) : List Char :=
  '"' :: s.toList.flatMap escapeChar ++ ['"']

namespace Value

mutual

/-- The characters of a value, without blanks. -/
def chars : Value → List Char
  | .null => ['n', 'u', 'l', 'l']
  | .bool true => ['t', 'r', 'u', 'e']
  | .bool false => ['f', 'a', 'l', 's', 'e']
  | .number n => n.text.toList
  | .string s => stringChars s
  | .array items => '[' :: itemChars items ++ [']']
  | .object fields => '\x7b' :: fieldChars fields ++ ['\x7d']

/-- The items of an array with commas between them. -/
def itemChars : List Value → List Char
  | [] => []
  | [v] => chars v
  | v :: vs => chars v ++ ',' :: itemChars vs

/-- The fields of an object with commas between them. -/
def fieldChars : List (String × Value) → List Char
  | [] => []
  | [(k, v)] => stringChars k ++ ':' :: chars v
  | (k, v) :: fs => stringChars k ++ ':' :: chars v ++ ',' :: fieldChars fs

end

/-- The compact text of a value. -/
def text (v : Value) : String :=
  String.ofList (chars v)

/-! ### Reading -/

mutual

/-- A value as it is read. -/
def draft : Value → Draft
  | .null => .null
  | .bool b => .bool b
  | .number n => .number (some n)
  | .string s => .string (.text s)
  | .array items => .array (drafts items) true
  | .object fields => .object (fieldDrafts fields) true

/-- The items of an array as they are read. -/
def drafts : List Value → List Draft
  | [] => []
  | v :: vs => draft v :: drafts vs

/-- The fields of an object as they are read. -/
def fieldDrafts : List (String × Value) → List (Unescaped × Draft)
  | [] => []
  | (k, v) :: fs => (.text k, draft v) :: fieldDrafts fs

end

/-- The ascending list of fields with one more, in the place of the one of the same key. -/
def insertField (k : String) (v : Value) : List (String × Value) → List (String × Value)
  | [] => [(k, v)]
  | (k', v') :: fs =>
    if k < k' then (k, v) :: (k', v') :: fs
    else if k' < k then (k', v') :: insertField k v fs
    else (k, v) :: fs

end Value

namespace Draft

mutual

/-- The value of a draft, if it is whole. -/
def value? : Draft → Option Value
  | .broken => none
  | .null => some .null
  | .bool b => some (.bool b)
  | .number n => n.map .number
  | .string (.text s) => some (.string s)
  | .string .unpaired => none
  | .array items closed => if closed then (values? items).map .array else none
  | .object fields closed => if closed then (fields? fields []).map .object else none

/-- The values of the items of an array. -/
def values? : List Draft → Option (List Value)
  | [] => some []
  | d :: ds => do
    let v ← value? d
    return v :: (← values? ds)

/-- The fields of an object, put in order. -/
def fields? : List (Unescaped × Draft) → List (String × Value) → Option (List (String × Value))
  | [], sorted => some sorted
  | (.text k, d) :: fs, sorted => do
    let v ← value? d
    fields? fs (Value.insertField k v sorted)
  | (.unpaired, _) :: _, _ => none

end

end Draft

namespace Value

/-- The value that a text stands for. -/
def parse? (s : String) : Option Value :=
  let r := Reading.ofString s
  if r.complete then r.draft.value? else none

/-- The value of a field. -/
def field? (v : Value) (key : String) : Option Value :=
  match v with
  | .object fields => (fields.find? fun f => f.1 == key).map (·.2)
  | _ => none

end Value

end LeaseOrder.Json
