/-
Why a JSON text or value is not the record that is wanted.
-/
import LeaseOrder.Json.Draft
import LeaseOrder.Shard.Checkpoint
import LeaseOrder.Shard.Id

namespace LeaseOrder.Json

/-- A value that was found in the place of another. -/
inductive Found where
  | null
  | bool (b : Bool)
  | number (n : Number)
  | string (s : String)
  | sequence
  | map
deriving DecidableEq, Repr

/-- How a value is named in a message. -/
def Found.text : Found → String
  | .null => "null"
  | .bool b => "boolean `" ++ (if b then "true" else "false") ++ "`"
  | .number (.float minus x) => "floating point `" ++ (Number.float minus x).text ++ "`"
  | .number n => "integer `" ++ n.text ++ "`"
  | .string s => "string " ++ Text.quoted s
  | .sequence => "sequence"
  | .map => "map"

/-- What is wrong with the data. -/
inductive Mismatch where
  /-- A value of another kind. -/
  | wrongType (found : Found) (wanted : String)
  /-- A value of the right kind that is not allowed. -/
  | wrongValue (found : Found) (wanted : String)
  /-- Too few or too many items. -/
  | wrongLength (length : Nat) (wanted : String)
  | missingField (name : String)
  | duplicateField (name : String)
  | unknownVariant (name : String) (known : List String)
  | badId (e : IdError)
  | badCheckpoint (e : CheckpointError)
deriving DecidableEq, Repr

/-- Names between backquotes, as a choice. -/
def alternatives : List String → String
  | [a, b] => "`" ++ a ++ "` or `" ++ b ++ "`"
  | names => "one of " ++ ", ".intercalate (names.map fun a => "`" ++ a ++ "`")

/-- The wording of what is wrong. -/
def Mismatch.message : Mismatch → String
  | .wrongType found wanted => "invalid type: " ++ found.text ++ ", expected " ++ wanted
  | .wrongValue found wanted => "invalid value: " ++ found.text ++ ", expected " ++ wanted
  | .wrongLength n wanted => "invalid length " ++ Text.decimal n ++ ", expected " ++ wanted
  | .missingField name => "missing field `" ++ name ++ "`"
  | .duplicateField name => "duplicate field `" ++ name ++ "`"
  | .unknownVariant name known =>
    "unknown variant `" ++ name ++ "`, expected " ++ alternatives known
  | .badId e => e.message
  | .badCheckpoint e => e.message

/-- Why nothing could be decoded. -/
inductive Failure where
  /-- The text is not JSON. -/
  | malformed
  /-- The text is JSON up to a place where something else is wanted. -/
  | data (m : Mismatch)
deriving DecidableEq, Repr

/-- The wording of the reasons. -/
def Failure.message : Failure → String
  | .malformed => "malformed JSON"
  | .data m => m.message

end LeaseOrder.Json
