/-
Checkpoints: how far a shard has been processed.

A checkpoint is one of four sentinels or a position in the stream, a sequence number
with a sub-sequence number for records that were packed together.  `atSequence` and
`parse` check the sequence number, the type does not, so a position can be put together
from any text.  In the text form a sub-sequence number of zero is left out.  `parse`
trims the text first and looks at the part after the first colon before the part in
front of it.
-/
import LeaseOrder.Text.Basic

namespace LeaseOrder

/-- A sequence number. One that has passed the check is made of decimal digits, leading zeros
    included. -/
structure SequenceNumber where
  digits : String
deriving DecidableEq

/-- What the check of a sequence number asks for. -/
structure SequenceNumber.Valid (n : SequenceNumber) : Prop where
  nonempty : n.digits.toList ≠ []
  isDigit : ∀ d ∈ n.digits.toList, d.isDigit

/-- A position up to which a shard has been processed. -/
inductive Checkpoint where
  /-- The oldest record that the stream still keeps. -/
  | trimHorizon
  /-- The tip of the shard. -/
  | latest
  /-- A position found from a time stamp. -/
  | atTimestamp
  /-- The shard is closed and every record of it has been processed. -/
  | shardEnd
  /-- A record, and a part of it where records were packed together. -/
  | sequence (number : SequenceNumber) (sub : UInt64)
deriving DecidableEq

/-- Why a text is no checkpoint. -/
inductive CheckpointError where
  | invalidSequence (text : String)
  | invalidSubSequence (text : String)
deriving DecidableEq, Repr

/-- The wording of the reasons. -/
def CheckpointError.message : CheckpointError → String
  | .invalidSequence s =>
    "Invalid checkpoint '" ++ s ++ "': expected a sentinel or a decimal sequence number"
  | .invalidSubSequence s => "Invalid sub-sequence number in checkpoint '" ++ s ++ "'"

namespace Checkpoint

instance : Inhabited Checkpoint := ⟨.trimHorizon⟩

/-- The sentinels, and the positions with a sequence number that passes the check. -/
def Valid : Checkpoint → Prop
  | .sequence n _ => n.Valid
  | _ => True

/-- The position at a sequence number and a sub-sequence number. -/
def atSequence (s : String) (sub : UInt64) : Except CheckpointError Checkpoint :=
  if Text.isNumeral s.toList then .ok (.sequence ⟨s⟩ sub) else .error (.invalidSequence s)

/-- The shard has been processed to its end. -/
def isShardEnd : Checkpoint → Bool
  | .shardEnd => true
  | _ => false

/-- The text form. -/
def text : Checkpoint → String
  | .trimHorizon => "TRIM_HORIZON"
  | .latest => "LATEST"
  | .atTimestamp => "AT_TIMESTAMP"
  | .shardEnd => "SHARD_END"
  | .sequence n sub => if sub = 0 then n.digits else n.digits ++ ":" ++ Text.decimal sub.toNat

/-- The parts before and after the first colon. -/
def splitColon (cs : List Char) : Option (List Char × List Char) :=
  match cs.dropWhile (· != ':') with
  | [] => none
  | _ :: r => some (cs.takeWhile (· != ':'), r)

/-- The checkpoint that a trimmed text stands for. -/
def parseTrimmed (s : String) : Except CheckpointError Checkpoint :=
  if s = "TRIM_HORIZON" then .ok .trimHorizon
  else if s = "LATEST" then .ok .latest
  else if s = "AT_TIMESTAMP" then .ok .atTimestamp
  else if s = "SHARD_END" then .ok .shardEnd
  else match splitColon s.toList with
    | none => atSequence s 0
    | some (number, sub) =>
      match Text.readUnsigned sub with
      | none => .error (.invalidSubSequence s)
      | some n => atSequence (String.ofList number) n

/-- The checkpoint that a text stands for, blanks at both ends left out. -/
def parse (s : String) : Except CheckpointError Checkpoint :=
  parseTrimmed (Text.trim s)

end Checkpoint

end LeaseOrder
