/-
A completed shard is as good as none.

A shard that is not in the batch holds nobody up, and neither does a completed one.  The
batch that is left when completed shards are taken out, with all that repeats them, shows
the others under their own names, so the walks over both go along with each other.  A
completed shard is not offered either, so the order does not miss it.
-/
import LeaseOrder.Proofs.Depth.Mirror
import LeaseOrder.Proofs.Order.Firsts

namespace LeaseOrder

open Ancestry Prioritizable

variable {batch : List Item} {keep : String → Bool}

/-- A batch without some of its completed shards shows the others. -/
theorem mirrors_filter
    (h : ∀ id x, first? batch id = some x → keep id = false → x.completed = true) :
    Mirrors (fun id => id) keep batch (batch.filter fun x => keep x.id) where
  first := by
    intro id x hx hkeep
    simp [first?_filter_of_pos hkeep, hx]
  hidden := h
  parents := by
    intro id x _ _ p _ hin
    cases hkeep : keep p with
    | true =>
        rw [first?_filter_of_pos hkeep] at hin
        exact ⟨hin, rfl⟩
    | false =>
        rw [first?_filter_of_neg hkeep] at hin
        cases hin
  inj := fun _ _ _ _ _ _ hname => hname

namespace ParentsFirst

variable {α : Type} [Prioritizable α] {s : ParentsFirst} {batch : List α}
  {depth depth' : String → Nat}

/-- What is handed out does not change where completed shards are taken out and the others
    have their depths. -/
theorem handout_filter
    (h : ∀ id x, first? (batch.map item) id = some x → keep id = false → x.completed = true)
    (hdepth : ∀ id, (first? (batch.map item) id).isSome = true → keep id = true →
      depth' id = depth id) :
    s.handout (batch.filter fun x => keep (item x).id) depth' = s.handout batch depth := by
  rw [handout_eq_firsts, handout_eq_firsts, firstRecords_filter, List.filterMap_filter]
  congr 1
  refine List.filterMap_congr fun x hx => ?_
  have hfirst := first?_of_mem_firstRecords hx
  cases hkeep : keep (item x).id with
  | true =>
      have hsame := hdepth (item x).id (by rw [hfirst]; rfl) hkeep
      simp only [if_true, offer, hsame]
  | false => simp [offer_of_completed (h _ _ hfirst hkeep)]

/-- **Taking completed shards out of a batch, with all that repeats them, does not change the
    order.**  The same records are handed out at the same depths and in the same sequence, or
    the same shard is named as its own ancestor. -/
theorem prioritizeRanked_without_completed (s : ParentsFirst) (batch : List α)
    (ids : Set String) [DecidablePred (· ∈ ids)]
    (h : ∀ id ∈ ids, ∀ x, first? (batch.map item) id = some x → x.completed = true) :
    (s.prioritizeRanked (batch.filter fun x => (item x).id ∉ ids)).result =
      (s.prioritizeRanked batch).result := by
  let keep : String → Bool := fun id => id ∉ ids
  have hcompleted : ∀ id x, first? (batch.map item) id = some x → keep id = false →
      x.completed = true := by
    intro id x hx hkeep
    exact h id (by simpa [keep] using hkeep) x hx
  have hfirsts : (Graph.ofBatch ((batch.map item).filter fun x => keep x.id)).firsts =
      ((Graph.ofBatch (batch.map item)).firsts.filter (keep ·.id)).map
        (Item.rename fun id => id) := by
    rw [← map_item_filter, firsts_ofBatch, firsts_ofBatch, firstRecords_filter, map_item_filter,
      Item.map_rename_same]
  show (s.prioritizeRanked (batch.filter fun x => keep (item x).id)).result = _
  rcases resolve_mirror (mirrors_filter hcompleted) hfirsts with
    ⟨depth, depth', law, law', hdepth⟩ | ⟨id, herr, herr'⟩
  · rw [← map_item_filter] at law'
    rw [prioritizeRanked_of_law law, prioritizeRanked_of_law law',
      handout_filter hcompleted hdepth]
  · rw [← map_item_filter] at herr'
    rw [prioritizeRanked_of_error herr, prioritizeRanked_of_error herr']

/-- The retired shard of the generations, which would close a cycle if it were open. -/
theorem prioritizeRanked_without_completed_threeGenerations :
    first? (threeGenerations.map item) "d" = some ⟨"d", ["c"], true⟩ ∧
      (prioritizeRanked ⟨2⟩
          (threeGenerations.filter fun x => (item x).id ∉ ({"d"} : Set String))).result =
        .ok [(1, ⟨"a", ["d", "z"], false⟩), (2, ⟨"b", ["a", "a"], false⟩)] := by
  have hfirst : first? (threeGenerations.map item) "d" = some ⟨"d", ["c"], true⟩ := by decide
  have hcompleted : ∀ id ∈ ({"d"} : Set String), ∀ x,
      first? (threeGenerations.map item) id = some x → x.completed = true := by
    intro id hid x hx
    obtain rfl : id = "d" := hid
    rw [← Option.some.inj (hfirst.symm.trans hx)]
  have law : DepthLaw (threeGenerations.map item) generation := law_threeGenerations
  refine ⟨hfirst, ?_⟩
  rw [prioritizeRanked_without_completed ⟨2⟩ threeGenerations _ hcompleted,
    prioritizeRanked_of_law law, handout_threeGenerations]

end ParentsFirst

end LeaseOrder
