/-
A worker's own view of a shard that it holds a lease on.
-/
import LeaseOrder.Order.Basic
import LeaseOrder.Shard.Checkpoint
import LeaseOrder.Shard.ParentSet

namespace LeaseOrder

/-- A shard as its worker sees it. -/
structure ShardInfo where
  shardId : ShardId
  /-- The token of the lease that the worker holds. -/
  concurrencyToken : Option String
  parents : ParentSet
  checkpoint : Checkpoint
deriving DecidableEq

namespace ShardInfo

/-- A shard without parents, not yet started. -/
def new (id : ShardId) : ShardInfo :=
  ⟨id, none, ∅, .trimHorizon⟩

/-- The shard with these parents and no others. -/
def withParents (s : ShardInfo) (ids : List ShardId) : ShardInfo :=
  { s with parents := .ofList ids }

/-- The shard at another checkpoint. -/
def withCheckpoint (s : ShardInfo) (c : Checkpoint) : ShardInfo :=
  { s with checkpoint := c }

/-- The shard with one more parent, and whether that parent is new. -/
def addParent (s : ShardInfo) (id : ShardId) : Bool × ShardInfo :=
  (id ∉ s.parents, { s with parents := s.parents.insert id })

/-- The shard has been processed to its end. -/
def isCompleted (s : ShardInfo) : Bool :=
  s.checkpoint.isShardEnd

instance : Prioritizable ShardInfo where
  item s := ⟨s.shardId.text, s.parents.texts, s.isCompleted⟩

end ShardInfo

end LeaseOrder
