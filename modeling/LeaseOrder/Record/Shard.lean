/-
The JSON form of shard descriptions.
-/
import LeaseOrder.Record.Basic
import LeaseOrder.Shard.Info

namespace LeaseOrder

/-- A shard of which some fields have been read. -/
structure ShardInfo.Draft where
  shardId : Option ShardId
  concurrencyToken : Option (Option String)
  parents : Option ParentSet
  checkpoint : Option Checkpoint

namespace ShardInfo

/-- A shard of which nothing has been read. -/
def Draft.unread : Draft := ⟨none, none, none, none⟩

/-- The shard, if its ID has been read; the other fields have defaults. -/
def Draft.finish (d : Draft) : Except Json.Failure ShardInfo :=
  match d.shardId with
  | none => .error (.data (.missingField "shard_id"))
  | some shardId => .ok
    { shardId
      concurrencyToken := d.concurrencyToken.join
      parents := d.parents.getD ∅
      checkpoint := d.checkpoint.getD .trimHorizon }

/-- How shards are written. -/
def shape : Json.Shape Draft where
  name := "struct ShardInfo"
  fields := [
    .of "shard_id" Draft.shardId (fun x d => { d with shardId := some x }) Record.idDecoder,
    .of "concurrency_token" Draft.concurrencyToken
      (fun x d => { d with concurrencyToken := some x }) (.nullable .string),
    .of "parent_shard_ids" Draft.parents (fun x d => { d with parents := some x })
      Record.parentsDecoder,
    .of "checkpoint" Draft.checkpoint (fun x d => { d with checkpoint := some x })
      Record.checkpointDecoder]
  needsFirst := true
  unread := .unread

/-- Reads a shard. -/
def decoder : Json.Decoder ShardInfo :=
  fun o d => shape.decode o d >>= Draft.finish

/-- The shard as an object; there is no field for a token that is not there. -/
def encode (s : ShardInfo) : Json.Value :=
  .object (
    [("shard_id", .string s.shardId.text)] ++
    Json.optionalField "concurrency_token" (s.concurrencyToken.map .string) ++
    [("parent_shard_ids", Record.encodeParents s.parents),
      ("checkpoint", .string s.checkpoint.text)])

instance : Record ShardInfo where
  decoder := decoder
  encode := encode

end ShardInfo

end LeaseOrder
