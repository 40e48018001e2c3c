/-
The random order, and the choice between the two orders.

The swaps of a shuffle depend on the seed and on the length of the batch only, so one
seed gives batches of one length the same permutation.
-/
import LeaseOrder.Order.ParentsFirst
import LeaseOrder.Random.ChaCha

namespace LeaseOrder

/-- The random order, with its seed where it is to be repeatable. -/
structure Shuffle where
  seed : Option UInt64
deriving DecidableEq, Repr

namespace Shuffle

/-- The swaps for a length, from the last place down to the second: each place with the
    place at or below it that it changes with. -/
def swapsFrom : Nat → Random.Stream → List (Nat × Nat)
  | 0, _ => []
  | 1, _ => []
  | i + 2, s => (i + 1, (s.below (i + 2)).1) :: swapsFrom (i + 1) (s.below (i + 2)).2

/-- The swaps of a seed for a length. -/
def swaps (seed : UInt64) (length : Nat) : List (Nat × Nat) :=
  swapsFrom length (.ofSeed seed)

/-- Carries out swaps one after the other. -/
def applySwaps {α : Type} (xs : Array α) (ps : List (Nat × Nat)) : Array α :=
  ps.foldl (fun a p => a.swapIfInBounds p.1 p.2) xs

/-- The list in the order of a seed. -/
def permute {α : Type} (seed : UInt64) (xs : List α) : List α :=
  (applySwaps xs.toArray (swaps seed xs.length)).toList

/-- The list in random order; without a seed of its own the shuffle takes the one that is
    offered. -/
def shuffle {α : Type} (s : Shuffle) (offered : UInt64) (xs : List α) : List α :=
  permute (s.seed.getD offered) xs

end Shuffle

/-- One of the two orders. -/
inductive Orderer where
  | parentsFirst (s : ParentsFirst)
  | shuffle (s : Shuffle)
deriving DecidableEq, Repr

namespace Orderer

/-- The name of the order in a configuration. -/
def name : Orderer → String
  | .parentsFirst _ => "parents_first"
  | .shuffle _ => "shuffle"

variable {α : Type} [Prioritizable α]

/-- The records of a batch in order. A shuffle without a seed takes the one that is offered. -/
def order (o : Orderer) (offered : UInt64) (batch : List α) : Except OrderError (List α) :=
  match o with
  | .parentsFirst s => (s.prioritize batch).result
  | .shuffle s => .ok (s.shuffle offered batch)

end Orderer

end LeaseOrder
