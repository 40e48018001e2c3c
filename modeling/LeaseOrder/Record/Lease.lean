/-
The JSON form of lease rows.
-/
import LeaseOrder.Record.Basic
import LeaseOrder.Shard.Lease

namespace LeaseOrder

/-- A lease of which some fields have been read. -/
structure Lease.Draft where
  key : Option ShardId
  owner : Option (Option String)
  counter : Option UInt64
  checkpoint : Option Checkpoint
  pendingCheckpoint : Option (Option Checkpoint)
  ownerSwitches : Option UInt64
  parents : Option ParentSet

namespace Lease

/-- A lease of which nothing has been read. -/
def Draft.unread : Draft := ⟨none, none, none, none, none, none, none⟩

/-- The lease, if its key has been read; the other fields have defaults. -/
def Draft.finish (d : Draft) : Except Json.Failure Lease :=
  match d.key with
  | none => .error (.data (.missingField "lease_key"))
  | some key => .ok
    { key
      owner := d.owner.join
      counter := d.counter.getD 0
      checkpoint := d.checkpoint.getD .trimHorizon
      pendingCheckpoint := d.pendingCheckpoint.join
      ownerSwitches := d.ownerSwitches.getD 0
      parents := d.parents.getD ∅ }

/-- How leases are written. -/
def shape : Json.Shape Draft where
  name := "struct Lease"
  fields := [
    .of "lease_key" Draft.key (fun x d => { d with key := some x }) Record.idDecoder,
    .of "lease_owner" Draft.owner (fun x d => { d with owner := some x })
      (.nullable .string),
    .of "lease_counter" Draft.counter (fun x d => { d with counter := some x }) .unsigned,
    .of "checkpoint" Draft.checkpoint (fun x d => { d with checkpoint := some x })
      Record.checkpointDecoder,
    .of "pending_checkpoint" Draft.pendingCheckpoint
      (fun x d => { d with pendingCheckpoint := some x }) (.nullable Record.checkpointDecoder),
    .of "owner_switches_since_checkpoint" Draft.ownerSwitches
      (fun x d => { d with ownerSwitches := some x }) .unsigned,
    .of "parent_shard_ids" Draft.parents (fun x d => { d with parents := some x })
      Record.parentsDecoder]
  needsFirst := true
  unread := .unread

/-- Reads a lease. -/
def decoder : Json.Decoder Lease :=
  fun o d => shape.decode o d >>= Draft.finish

/-- The lease as an object; there is no field for an owner or a checkpoint that is not there. -/
def encode (l : Lease) : Json.Value :=
  .object (
    [("lease_key", .string l.key.text)] ++
    Json.optionalField "lease_owner" (l.owner.map .string) ++
    [("lease_counter", .word l.counter), ("checkpoint", .string l.checkpoint.text)] ++
    Json.optionalField "pending_checkpoint" (l.pendingCheckpoint.map fun c => .string c.text) ++
    [("owner_switches_since_checkpoint", .word l.ownerSwitches),
      ("parent_shard_ids", Record.encodeParents l.parents)])

instance : Record Lease where
  decoder := decoder
  encode := encode

end Lease

end LeaseOrder
