/-
What ordering takes and what it reports.

An `Item` is what ordering needs to know of a record: an ID, the IDs of its parents as they
are listed, and whether it is completed.  Lease rows and shard descriptions can be seen as
items without sharing a type, and so can anything else that has an instance of
`Prioritizable`.  A run reports events, and the reason for which it fails.
-/
import LeaseOrder.Text.Basic

namespace LeaseOrder

/-! ### Items -/

/-- A piece of work that waits for its parents. -/
structure Item where
  /-- The ID, which names the item within a batch. -/
  id : String
  /-- The IDs of the direct parents, in any order, repeats allowed. -/
  parents : List String
  /-- A completed item holds up none of its children. -/
  completed : Bool
deriving DecidableEq, Repr, Inhabited

/-- Records that can be placed in a parents-first order. -/
class Prioritizable (α : Type) where
  /-- The record as ordering sees it. -/
  item : α → Item

instance : Prioritizable Item := ⟨id⟩

/-! ### Reports -/

/-- Why a batch cannot be ordered. -/
inductive OrderError where
  /-- A bound on the depth has to be positive. -/
  | invalidMaxDepth (maxDepth : Int64)
  /-- The shard with this ID is its own ancestor. -/
  | circularDependency (id : String)
deriving DecidableEq, Repr

/-- The wording of the reasons. -/
def OrderError.message : OrderError → String
  | .invalidMaxDepth n =>
    "Invalid configuration: max depth must be positive, got " ++ Text.decimalInt n.toInt
  | .circularDependency id =>
    "Circular dependency detected: shard " ++ id ++ " is its own ancestor"

/-- The weight of an event. -/
inductive Level where
  | trace
  | debug
  | warn
deriving DecidableEq, Repr

/-- The upper-case name of a level. -/
def Level.name : Level → String
  | .trace => "TRACE"
  | .debug => "DEBUG"
  | .warn => "WARN"

/-- A noteworthy step of a run. -/
inductive Event where
  /-- The ID at this position occurs earlier in the batch. -/
  | duplicate (id : String) (position : Nat)
  /-- A shard that is not completed has settled at this depth. -/
  | resolved (id : String) (depth : Nat)
  /-- A shard lies deeper than the bound. -/
  | excluded (id : String) (depth : Nat) (maxDepth : UInt64)
  /-- The count of a whole order. -/
  | prioritized (batch ordered completed excluded : Nat) (maxDepth : UInt64)
deriving DecidableEq, Repr

namespace Event

/-- The weight of each kind of event. -/
def level : Event → Level
  | .duplicate .. => .warn
  | .resolved .. => .trace
  | .excluded .. => .trace
  | .prioritized .. => .debug

/-- The wording of each kind of event. -/
def message : Event → String
  | .duplicate .. => "Duplicate shard in batch, keeping first occurrence"
  | .resolved .. => "Resolved shard depth"
  | .excluded .. => "Excluding shard deeper than max depth"
  | .prioritized .. => "Prioritized shards parents-first"

end Event

/-- A result with the events that led to it, also where it is a failure. -/
structure Logged (α : Type) where
  events : List Event
  result : Except OrderError α

/-- The same run with another view of its result. -/
def Logged.map {α β : Type} (f : α → β) (r : Logged α) : Logged β :=
  ⟨r.events, r.result.map f⟩

end LeaseOrder
