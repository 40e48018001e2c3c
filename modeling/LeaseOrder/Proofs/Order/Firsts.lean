/-
The first occurrences of a batch as a list, and the order read off them.

Repeats are in nobody's way: the walk starts from the first occurrences only, and so does
the sifting.  `firstRecords` lists them in batch order, and `handout_eq_firsts` says that
what is handed out are the offers made of them, sorted by depth.  Positions of the batch do
not occur in either, which is what makes batches of different lengths comparable.
-/
import LeaseOrder.Proofs.Order.Places

namespace LeaseOrder

open Ancestry Prioritizable

/-! ### Leaving out shards -/

section Filter

variable {batch : List Item} {keep : String → Bool} {id : String}

/-- Leaving out other IDs does not change what stands for an ID. -/
theorem first?_filter_of_pos (hid : keep id = true) :
    first? (batch.filter fun x => keep x.id) id = first? batch id := by
  have hsame : (fun x : Item => decide (keep x.id = true ∧ (x.id == id) = true)) =
      fun x => x.id == id := by
    funext x
    by_cases h : x.id = id
    · simp [h, hid]
    · simp [h]
  rw [first?, List.find?_filter, first?, hsame]

/-- Nothing stands for an ID that is left out. -/
theorem first?_filter_of_neg (hid : keep id = false) :
    first? (batch.filter fun x => keep x.id) id = none := by
  refine List.find?_eq_none.mpr fun x hx heq => ?_
  obtain ⟨-, hkeep⟩ := List.mem_filter.mp hx
  rw [beq_iff_eq.mp heq, hid] at hkeep
  cases hkeep

end Filter

variable {α : Type} [Prioritizable α]

theorem map_item_filter (keep : String → Bool) (batch : List α) :
    (batch.filter fun x => keep (item x).id).map item =
      (batch.map item).filter fun x => keep x.id := by
  rw [List.filter_map]
  rfl

/-! ### First records -/

/-- The records of a batch that are the first ones with their IDs, in batch order. -/
def firstRecords (batch : List α) : List α :=
  batch.zipIdx.filterMap fun p =>
    if isFresh (batch.map item) p.2 (item p.1).id then some p.1 else none

theorem firstRecords_concat (batch : List α) (x : α) :
    firstRecords (batch ++ [x]) =
      firstRecords batch ++
        if (first? (batch.map item) (item x).id).isNone then [x] else [] := by
  rw [firstRecords, List.zipIdx_append, List.filterMap_append, List.map_append]
  congr 1
  · -- What comes before a position of the old batch is what came before it.
    refine List.filterMap_congr fun p hp => ?_
    have hlt : p.2 < batch.length := by simpa using List.snd_lt_of_mem_zipIdx hp
    simp [isFresh, List.take_append_of_le_length, Nat.le_of_lt hlt]
  · have hfresh : isFresh (batch.map item ++ [item x]) batch.length (item x).id =
        (first? (batch.map item) (item x).id).isNone := by
      rw [isFresh, List.take_left' (List.length_map item)]
    rw [List.zipIdx_singleton, List.filterMap_cons, List.filterMap_nil, Nat.zero_add,
      List.map_singleton, hfresh]
    cases (first? (batch.map item) (item x).id).isNone with
    | true => rfl
    | false => rfl

/-- Where shards are left out, the others are the first records. -/
theorem firstRecords_filter (keep : String → Bool) (batch : List α) :
    firstRecords (batch.filter fun x => keep (item x).id) =
      (firstRecords batch).filter fun x => keep (item x).id := by
  induction batch using List.reverseRecOn with
  | nil => rfl
  | append_singleton batch x ih =>
      rw [firstRecords_concat, List.filter_append, List.filter_append, ← ih]
      cases hx : keep (item x).id with
      | true =>
          have hone : [x].filter (fun y => keep (item y).id) = [x] := List.filter_cons_of_pos hx
          rw [hone, firstRecords_concat, map_item_filter, first?_filter_of_pos hx]
          congr 1
          split
          · exact hone.symm
          · rfl
      | false =>
          have hnone : [x].filter (fun y => keep (item y).id) = [] :=
            List.filter_cons_of_neg (by simp [hx])
          rw [hnone, List.append_nil]
          split
          · rw [hnone, List.append_nil]
          · rw [List.filter_nil, List.append_nil]

@[simp] theorem firsts_ofBatch (batch : List α) :
    (Graph.ofBatch (batch.map item)).firsts = (firstRecords batch).map item := by
  rw [Graph.firsts, Graph.entries_ofBatch, List.zipIdx_map, List.map_map, List.filterMap_map,
    firstRecords, List.map_filterMap]
  refine List.filterMap_congr fun p _ => ?_
  show (if isFresh _ p.2 (item p.1).id = true then some (item p.1) else none) = _
  split <;> rfl

/-- A first record stands for its ID. -/
theorem first?_of_mem_firstRecords {batch : List α} {x : α} (hx : x ∈ firstRecords batch) :
    first? (batch.map item) (item x).id = some (item x) := by
  have hmem : item x ∈ (Graph.ofBatch (batch.map item)).firsts := by
    rw [firsts_ofBatch]
    exact List.mem_map_of_mem hx
  exact Graph.mem_firsts.mp hmem

theorem eraseDups_concat (ids : List String) (id : String) :
    (ids ++ [id]).eraseDups = ids.eraseDups ++ if id ∈ ids then [] else [id] := by
  rw [List.eraseDups_append]
  congr 1
  by_cases h : id ∈ ids
  · rw [if_pos h]
    simp [List.removeAll, h]
  · rw [if_neg h]
    simp [List.removeAll, h, List.eraseDups_cons]

/-- **The first records have the distinct IDs of the batch, in the order in which they occur.** -/
theorem map_id_firstRecords (batch : List α) :
    (firstRecords batch).map (fun x => (item x).id) =
      (batch.map fun x => (item x).id).eraseDups := by
  induction batch using List.reverseRecOn with
  | nil => rfl
  | append_singleton batch x ih =>
      have hseen : (first? (batch.map item) (item x).id).isSome ↔
          (item x).id ∈ batch.map fun x => (item x).id := by
        rw [isSome_first?, ← List.mem_map, List.map_map]
        rfl
      rw [firstRecords_concat, List.map_append, List.map_append, List.map_singleton,
        eraseDups_concat, ih]
      congr 1
      by_cases h : (item x).id ∈ batch.map fun x => (item x).id
      · rw [if_pos h, Option.isNone_eq_false_iff.mpr (hseen.mpr h)]
        rfl
      · have hnone : first? (batch.map item) (item x).id = none := by
          rw [← Option.not_isSome_iff_eq_none, hseen]
          exact h
        rw [if_neg h, hnone]
        rfl

/-- The depths laid out for a batch, beside its records. -/
theorem zip_layout (batch : List α) (depth : String → Nat) :
    batch.zip (Depths.layout (batch.map item) depth).byPosition =
      batch.zipIdx.map fun p => (p.1,
        if isFresh (batch.map item) p.2 (item p.1).id then some (depth (item p.1).id)
        else none) := by
  calc batch.zip (Depths.layout (batch.map item) depth).byPosition
      = (batch.zipIdx.map Prod.fst).zip (Depths.layout (batch.map item) depth).byPosition := by
        rw [List.zipIdx_map_fst]
    _ = _ := by
        rw [Depths.layout, List.zipIdx_map, List.map_map, List.zip_map']
        rfl

namespace ParentsFirst

variable {s : ParentsFirst} {batch : List α} {depth : String → Nat}

/-! ### Offers -/

/-- A first record with its depth, if it is open and not too deep. -/
def offer (s : ParentsFirst) (depth : String → Nat) (x : α) : Option (Nat × α) :=
  match s.judge (item x) (some (depth (item x).id)) with
  | .kept d => some (d, x)
  | _ => none

theorem offer_of_completed {x : α} (hx : (item x).completed = true) : s.offer depth x = none := by
  simp [offer, judge, hx]

/-- The kept records are the offers made of the first records. -/
theorem kept_judgeAll :
    kept (s.judgeAll batch (.layout (batch.map item) depth)) =
      (firstRecords batch).filterMap (s.offer depth) := by
  rw [judgeAll, zip_layout, kept, List.map_map, List.filterMap_map, firstRecords,
    List.filterMap_filterMap]
  refine List.filterMap_congr fun p _ => ?_
  by_cases h : isFresh (batch.map item) p.2 (item p.1).id = true
  · simp only [Function.comp_apply, h, if_true, Option.bind_some]
    rfl
  · simp [h, judge]

/-- **What is handed out are the offers made of the first records, by ascending depth.** -/
theorem handout_eq_firsts :
    s.handout batch depth =
      ((firstRecords batch).filterMap (s.offer depth)).mergeSort fun a b => a.1 ≤ b.1 := by
  rw [handout, rank_eq, kept_judgeAll]

end ParentsFirst

end LeaseOrder
