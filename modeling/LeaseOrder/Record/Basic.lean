/-
Records: what a batch file or a request is made of.

A record can be ordered, and it has a JSON form.  The parts that several kinds of
records share, IDs, checkpoints and sets of parents, have their JSON forms here.
-/
import LeaseOrder.Json.Decode
import LeaseOrder.Order.Basic
import LeaseOrder.Shard.ParentSet

namespace LeaseOrder

/-- Records with a JSON form. -/
class Record (α : Type) extends Prioritizable α where
  decoder : Json.Decoder α
  encode : α → Json.Value

namespace Record

/-- An ID, with nothing trimmed. -/
def idDecoder : Json.Decoder ShardId :=
  .checked ShardId.ofString .badId

/-- A checkpoint in its text form. -/
def checkpointDecoder : Json.Decoder Checkpoint :=
  .checked Checkpoint.parse .badCheckpoint

/-- A set of IDs, in any order, repeats allowed. -/
def parentsDecoder : Json.Decoder ParentSet :=
  fun o d => (Json.Decoder.list idDecoder o d).map ParentSet.ofList

/-- The set as an array in ascending order. -/
def encodeParents (s : ParentSet) : Json.Value :=
  .array (s.texts.map .string)

variable {α : Type} [Record α]

/-- The record that a text stands for. -/
def ofText (s : String) : Except Json.Failure α :=
  Json.decodeText decoder s

/-- The record that a value stands for. -/
def ofValue (v : Json.Value) : Except Json.Failure α :=
  Json.decodeValue decoder v

/-- The compact text of a record. -/
def text (x : α) : String :=
  (encode x).text

end Record

end LeaseOrder
