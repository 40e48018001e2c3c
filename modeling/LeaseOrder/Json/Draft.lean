/-
JSON texts read as far as they go.

A text may turn out to be no JSON long after the part that matters.  A `Draft` is what
has been read up to there: arrays and objects say whether they were closed, and `broken`
stands where a value was due and none was found.  `Reading.ofTokens` reads any list of
tokens, one token at a time; `Reading.complete` tells whether the tokens were one value
and nothing else.
-/
import LeaseOrder.Json.Token

namespace LeaseOrder.Json

/-- A value, or the beginning of one. -/
inductive Draft where
  /-- A value was due here. -/
  | broken
  | null
  | bool (b : Bool)
  /-- A number; one that is too great for any type has no value. -/
  | number (n : Option Number)
  | string (s : Unescaped)
  | array (items : List Draft) (closed : Bool)
  /-- Keys with their values. -/
  | object (fields : List (Unescaped × Draft)) (closed : Bool)
deriving Inhabited

/-- An open array or object: what stands in front of the value that is due, latest first. -/
inductive Bracket where
  | array (items : List Draft)
  | object (fields : List (Unescaped × Draft)) (key : Unescaped)

/-- What is due next, within the open brackets, the innermost first. -/
inductive Expecting where
  /-- A value. -/
  | value (outer : List Bracket)
  /-- The first item of an array, or its end. -/
  | firstItem (outer : List Bracket)
  /-- A comma, or the end of the array. -/
  | itemEnd (items : List Draft) (outer : List Bracket)
  /-- The first key of an object, or its end. -/
  | firstKey (outer : List Bracket)
  /-- The next key of an object. -/
  | key (fields : List (Unescaped × Draft)) (outer : List Bracket)
  /-- The colon after a key. -/
  | colon (fields : List (Unescaped × Draft)) (key : Unescaped) (outer : List Bracket)
  /-- A comma, or the end of the object. -/
  | fieldEnd (fields : List (Unescaped × Draft)) (outer : List Bracket)
  /-- Nothing: the value is there. -/
  | nothing (d : Draft)
  /-- Nothing: the tokens are not JSON. -/
  | failed (d : Draft)

namespace Expecting

/-- Puts a value in its place. -/
def filled (d : Draft) : List Bracket → Expecting
  | [] => .nothing d
  | .array items :: outer => .itemEnd (d :: items) outer
  | .object fields k :: outer => .fieldEnd ((k, d) :: fields) outer

/-- The whole draft when reading ends inside its brackets. -/
def abandoned (d : Draft) : List Bracket → Draft
  | [] => d
  | .array items :: outer => abandoned (.array (d :: items).reverse false) outer
  | .object fields k :: outer => abandoned (.object ((k, d) :: fields).reverse false) outer

/-- The draft so far. -/
def draft : Expecting → Draft
  | .value outer => abandoned .broken outer
  | .firstItem outer => abandoned (.array [] false) outer
  | .itemEnd items outer => abandoned (.array items.reverse false) outer
  | .firstKey outer => abandoned (.object [] false) outer
  | .key fields outer => abandoned (.object fields.reverse false) outer
  | .colon fields k outer => abandoned (.object ((k, .broken) :: fields).reverse false) outer
  | .fieldEnd fields outer => abandoned (.object fields.reverse false) outer
  | .nothing d => d
  | .failed d => d

/-- A value starts here. -/
def startValue (outer : List Bracket) : Token → Expecting
  | .null => filled .null outer
  | .bool b => filled (.bool b) outer
  | .number n => filled (.number n) outer
  | .string s => filled (.string s) outer
  | .openArray => .firstItem outer
  | .openObject => .firstKey outer
  | _ => .failed (draft (.value outer))

/-- Reads one token. -/
def step : Expecting → Token → Expecting
  | .value outer, t => startValue outer t
  | .firstItem outer, .closeArray => filled (.array [] true) outer
  | .firstItem outer, t => startValue (.array [] :: outer) t
  | .itemEnd items outer, .comma => .value (.array items :: outer)
  | .itemEnd items outer, .closeArray => filled (.array items.reverse true) outer
  | .firstKey outer, .closeObject => filled (.object [] true) outer
  | .firstKey outer, .string k => .colon [] k outer
  | .key fields outer, .string k => .colon fields k outer
  | .colon fields k outer, .colon => .value (.object fields k :: outer)
  | .fieldEnd fields outer, .comma => .key fields outer
  | .fieldEnd fields outer, .closeObject => filled (.object fields.reverse true) outer
  | .nothing d, _ => .failed d
  | .failed d, _ => .failed d
  | e, _ => .failed e.draft

end Expecting

/-- What reading a text has come to. -/
structure Reading where
  draft : Draft
  /-- The text is one value and nothing else. -/
  complete : Bool

/-- Reads a list of tokens. -/
def Reading.ofTokens (ts : List Token) : Reading :=
  let e := ts.foldl Expecting.step (.value [])
  ⟨e.draft, match e with
    | .nothing _ => true
    | _ => false⟩

/-- Reads a text. -/
def Reading.ofString (s : String) : Reading :=
  .ofTokens (tokens s.toList)

namespace Draft

mutual

/-- The draft is a whole value, whatever its strings and numbers stand for. -/
def isWhole : Draft → Bool
  | .broken => false
  | .array items closed => closed && areWhole items
  | .object fields closed => closed && areWholeFields fields
  | _ => true

/-- All items are whole. -/
def areWhole : List Draft → Bool
  | [] => true
  | d :: ds => isWhole d && areWhole ds

/-- The values of all fields are whole. -/
def areWholeFields : List (Unescaped × Draft) → Bool
  | [] => true
  | (_, d) :: fs => isWhole d && areWholeFields fs

end

end Draft

end LeaseOrder.Json
