/-
Sets of parent IDs, kept in strictly ascending order.

The order is part of the type, so a set has one representation, and an ID is in it
at most once.
-/
import LeaseOrder.Shard.Id

namespace LeaseOrder

/-- A finite set of IDs, listed in ascending order. -/
structure ParentSet where
  ids : List ShardId
  ascending : ids.Pairwise (· < ·)
deriving DecidableEq

namespace ParentSet

/-- The set without members. -/
def empty : ParentSet := ⟨[], .nil⟩

instance : EmptyCollection ParentSet := ⟨empty⟩

instance : Inhabited ParentSet := ⟨empty⟩

instance : Membership ShardId ParentSet := ⟨fun s id => id ∈ s.ids⟩

instance (id : ShardId) (s : ParentSet) : Decidable (id ∈ s) :=
  inferInstanceAs (Decidable (id ∈ s.ids))

/-- The ascending list with one more ID, which goes in front of the first greater one. -/
def insertSorted (id : ShardId) : List ShardId → List ShardId
  | [] => [id]
  | x :: xs => if id < x then id :: x :: xs else if x < id then x :: insertSorted id xs else x :: xs

theorem mem_insertSorted_imp {id y : ShardId} {xs : List ShardId} (h : y ∈ insertSorted id xs) :
    y = id ∨ y ∈ xs := by
  induction xs with
  | nil => simpa [insertSorted] using h
  | cons x xs ih =>
    simp only [insertSorted] at h
    split at h
    · simpa using h
    · split at h
      · rcases List.mem_cons.mp h with rfl | h
        · exact .inr (.head _)
        · exact (ih h).imp (fun e => e) (.tail _)
      · exact .inr h

theorem pairwise_insertSorted {id : ShardId} {xs : List ShardId} (h : xs.Pairwise (· < ·)) :
    (insertSorted id xs).Pairwise (· < ·) := by
  induction xs with
  | nil => simp [insertSorted]
  | cons x xs ih =>
    obtain ⟨hx, hxs⟩ := List.pairwise_cons.mp h
    simp only [insertSorted]
    split
    · rename_i hlt
      refine List.pairwise_cons.mpr ⟨fun y hy => ?_, h⟩
      rcases List.mem_cons.mp hy with rfl | hy
      · exact hlt
      · exact String.lt_trans hlt (hx y hy)
    · split
      · rename_i hlt
        refine List.pairwise_cons.mpr ⟨fun y hy => ?_, ih hxs⟩
        rcases mem_insertSorted_imp hy with rfl | hy
        · exact hlt
        · exact hx y hy
      · exact h

/-- The set with one more member. -/
def insert (s : ParentSet) (id : ShardId) : ParentSet :=
  ⟨insertSorted id s.ids, pairwise_insertSorted s.ascending⟩

/-- The set of the listed IDs. -/
def ofList (ids : List ShardId) : ParentSet :=
  ids.foldl insert empty

/-- The texts of the members, in ascending order. -/
def texts (s : ParentSet) : List String :=
  s.ids.map ShardId.text

end ParentSet

end LeaseOrder
