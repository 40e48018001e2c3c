/-
The depths of a batch.

A completed shard has depth 0, any other one is one deeper than its deepest parent in
the batch.  Only the first occurrence of an ID has a depth.  A shard that is its own
ancestor through unfinished shards makes the whole batch fail.
-/
import LeaseOrder.Depth.Walk
import LeaseOrder.Order.Basic

namespace LeaseOrder

/-- The depths of a batch, position by position; a repeated ID has none. -/
structure Depths where
  byPosition : List (Option Nat)
deriving DecidableEq, Repr

namespace Depths

/-- The depth at a position, if the position is in the batch and has one. -/
def get (d : Depths) (position : Nat) : Option Nat :=
  d.byPosition[position]?.join

/-- The length of the batch. -/
def length (d : Depths) : Nat :=
  d.byPosition.length

/-- The batch was empty. -/
def isEmpty (d : Depths) : Bool :=
  d.byPosition.isEmpty

/-- The greatest depth, 0 where there is none. -/
def max (d : Depths) : Nat :=
  d.byPosition.foldl (fun m o => Nat.max m (o.getD 0)) 0

end Depths

namespace Graph

/-- The events of loading a batch: a warning for each repeat. -/
def warnings (g : Graph) : List Event :=
  g.repeats.map fun e => .duplicate e.item.id e.position

/-- Settles the depth of every shard of the graph. -/
def resolve (g : Graph) : Logged Depths :=
  let (w, cycle) := Walk.ofGraph g
  { events := g.warnings ++ w.settled.reverse.map fun s => .resolved s.1 s.2
    result := match cycle with
      | some id => .error (.circularDependency id)
      | none => .ok ⟨g.entries.map fun e => if e.isFirst then w.depth? e.item.id else none⟩ }

end Graph

/-- The depths of a batch of items. -/
def resolve (batch : List Item) : Logged Depths :=
  (Graph.ofBatch batch).resolve

/-- The depth of each distinct ID, in batch order. -/
def resolveById (batch : List Item) : Except OrderError (List (String × Nat)) :=
  (resolve batch).result.map fun depths =>
    (batch.zip depths.byPosition).filterMap fun p => p.2.map (p.1.id, ·)

end LeaseOrder
