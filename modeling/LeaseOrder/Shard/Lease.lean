/-
Rows of the lease table.

A lease gives one worker the right to process one shard.  Beside the bookkeeping of
ownership it carries the checkpoint and the parents of its shard, which is all that
ordering needs.
-/
import LeaseOrder.Order.Basic
import LeaseOrder.Shard.Checkpoint
import LeaseOrder.Shard.ParentSet

namespace LeaseOrder

/-- A row of the lease table. -/
structure Lease where
  /-- The shard that the lease covers. -/
  key : ShardId
  /-- The worker that holds the lease. -/
  owner : Option String
  /-- Grows with every renewal. -/
  counter : UInt64
  checkpoint : Checkpoint
  /-- A checkpoint that the worker has prepared and not yet committed. -/
  pendingCheckpoint : Option Checkpoint
  /-- Changes of owner since the last checkpoint. -/
  ownerSwitches : UInt64
  parents : ParentSet
deriving DecidableEq

namespace Lease

/-- A lease that nobody holds yet. -/
def new (key : ShardId) : Lease :=
  ⟨key, none, 0, .trimHorizon, none, 0, ∅⟩

/-- The lease with these parents and no others. -/
def withParents (l : Lease) (ids : List ShardId) : Lease :=
  { l with parents := .ofList ids }

/-- The lease at another checkpoint. -/
def withCheckpoint (l : Lease) (c : Checkpoint) : Lease :=
  { l with checkpoint := c }

/-- The shard of the lease has been processed to its end. -/
def isCompleted (l : Lease) : Bool :=
  l.checkpoint.isShardEnd

instance : Prioritizable Lease where
  item l := ⟨l.key.text, l.parents.texts, l.isCompleted⟩

end Lease

end LeaseOrder
