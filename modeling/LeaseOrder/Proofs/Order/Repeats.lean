/-
Repeats of an ID.

The first record with an ID stands for it, and whatever repeats it is looked at once, to be
warned of.  So two batches with the same first records are one batch to the walk and to the
order.  `AddsRepeat` says the same of single records: batches have the same first records
exactly if one becomes the other by putting repeats in and taking repeats out, each of them
somewhere behind the first record with its ID.
-/
import Mathlib.Logic.Relation
import LeaseOrder.Proofs.Depth.Mirror
import LeaseOrder.Proofs.Order.Firsts

namespace LeaseOrder

open Ancestry Prioritizable

variable {α : Type} [Prioritizable α]

/-! ### Joined batches -/

theorem first?_append (xs ys : List Item) (id : String) :
    first? (xs ++ ys) id = (first? xs id).or (first? ys id) :=
  List.find?_append

/-- A joined batch has the first records of its front, then those of its back that are new. -/
theorem firstRecords_append (xs ys : List α) :
    firstRecords (xs ++ ys) =
      firstRecords xs ++
        (firstRecords ys).filter fun y => (first? (xs.map item) (item y).id).isNone := by
  induction ys using List.reverseRecOn with
  | nil => simp [firstRecords]
  | append_singleton ys y ih =>
      rw [← List.append_assoc, firstRecords_concat, firstRecords_concat, ih, List.filter_append,
        List.append_assoc, List.map_append, first?_append]
      congr 2
      cases hback : (first? (ys.map item) (item y).id).isNone with
      | true => simp [Option.isNone_iff_eq_none.mp hback, List.filter_cons]
      | false =>
          have hseen : ((first? (xs.map item) (item y).id).or
              (first? (ys.map item) (item y).id)).isNone = false := by
            rw [Option.isNone_eq_false_iff, Option.isSome_or, Option.isNone_eq_false_iff.mp hback,
              Bool.or_true]
          rw [hseen]
          rfl

/-! ### Putting a repeat in -/

/-- The other batch has one more record, which repeats an ID that occurs before it. -/
def AddsRepeat (batch other : List α) : Prop :=
  ∃ xs y ys, batch = xs ++ ys ∧ other = xs ++ y :: ys ∧
    (first? (xs.map item) (item y).id).isSome = true

/-- A repeat is not among the first records, and keeps no other record from being one. -/
theorem AddsRepeat.firstRecords_eq {batch other : List α} (h : AddsRepeat batch other) :
    firstRecords other = firstRecords batch := by
  obtain ⟨xs, y, ys, rfl, rfl, hseen⟩ := h
  have hfront : firstRecords (xs ++ [y]) = firstRecords xs := by
    rw [firstRecords_concat, if_neg (by simp [Option.isSome_iff_ne_none.mp hseen]),
      List.append_nil]
  have hnew : ∀ id, (first? ((xs ++ [y]).map item) id).isNone =
      (first? (xs.map item) id).isNone := by
    intro id
    rw [List.map_append, first?_append]
    by_cases hid : (item y).id = id
    · subst hid
      obtain ⟨x, hx⟩ := Option.isSome_iff_exists.mp hseen
      rw [hx, Option.some_or]
    · simp [first?, hid]
  rw [List.append_cons, firstRecords_append, hfront, firstRecords_append xs ys]
  simp only [hnew]

theorem AddsRepeat.concat {batch other : List α} (h : AddsRepeat batch other) (z : α) :
    AddsRepeat (batch ++ [z]) (other ++ [z]) := by
  obtain ⟨xs, y, ys, rfl, rfl, hseen⟩ := h
  exact ⟨xs, y, ys ++ [z], by simp, by simp, hseen⟩

theorem eqvGen_concat {batch other : List α} (h : Relation.EqvGen AddsRepeat batch other) (z : α) :
    Relation.EqvGen AddsRepeat (batch ++ [z]) (other ++ [z]) := by
  induction h with
  | rel _ _ h => exact .rel _ _ (h.concat z)
  | refl => exact .refl _
  | symm _ _ _ ih => exact .symm _ _ ih
  | trans _ _ _ _ _ ih ih' => exact .trans _ _ _ ih ih'

theorem isSome_first?_firstRecords (batch : List α) (id : String) :
    (first? ((firstRecords batch).map item) id).isSome =
      (first? (batch.map item) id).isSome := by
  rw [← firsts_ofBatch, Bool.eq_iff_iff, isSome_first?]
  refine ⟨?_, ?_⟩
  · intro h
    obtain ⟨x, hx, rfl⟩ := h
    rw [Graph.mem_firsts.mp hx]
    rfl
  · intro h
    obtain ⟨x, hx⟩ := Option.isSome_iff_exists.mp h
    obtain rfl := id_of_first? hx
    exact ⟨x, Graph.mem_firsts.mpr hx, rfl⟩

/-- Taking out one repeat after the other leaves the first records. -/
theorem eqvGen_firstRecords (batch : List α) :
    Relation.EqvGen AddsRepeat batch (firstRecords batch) := by
  induction batch using List.reverseRecOn with
  | nil => exact .refl _
  | append_singleton batch x ih =>
      refine .trans _ _ _ (eqvGen_concat ih x) ?_
      rw [firstRecords_concat]
      split
      · exact .refl _
      · rename_i hseen
        rw [List.append_nil]
        refine .symm _ _ (.rel _ _ ⟨firstRecords batch, x, [], by simp, rfl, ?_⟩)
        rw [isSome_first?_firstRecords]
        simpa [Option.isSome_iff_ne_none] using hseen

/-- **Batches have the same first records if and only if they differ in repeats only.** -/
theorem firstRecords_eq_iff {batch other : List α} :
    firstRecords other = firstRecords batch ↔ Relation.EqvGen AddsRepeat batch other := by
  refine ⟨?_, ?_⟩
  · intro h
    have hother := eqvGen_firstRecords other
    rw [h] at hother
    exact .trans _ _ _ (eqvGen_firstRecords batch) (.symm _ _ hother)
  · intro h
    induction h with
    | rel _ _ h => exact h.firstRecords_eq
    | refl => rfl
    | symm _ _ _ ih => exact ih.symm
    | trans _ _ _ _ _ ih ih' => exact ih'.trans ih

/-! ### One batch to the walk -/

section SameFirsts

variable {batch other : List α} (h : firstRecords other = firstRecords batch)

include h

/-- What stands for an ID is one of the first records. -/
theorem first?_of_firstRecords_eq (id : String) :
    first? (other.map item) id = first? (batch.map item) id := by
  have hfirsts : (Graph.ofBatch (other.map item)).firsts =
      (Graph.ofBatch (batch.map item)).firsts := by
    simp [h]
  refine Option.ext fun x => ?_
  refine ⟨?_, ?_⟩
  · intro hx
    obtain rfl := id_of_first? hx
    exact Graph.mem_firsts.mp (hfirsts ▸ Graph.mem_firsts.mpr hx)
  · intro hx
    obtain rfl := id_of_first? hx
    exact Graph.mem_firsts.mp (hfirsts ▸ Graph.mem_firsts.mpr hx)

theorem mirrors_of_firstRecords_eq :
    Mirrors (fun id => id) (fun _ => true) (batch.map item) (other.map item) where
  first := by
    intro id x hx _
    simp [first?_of_firstRecords_eq h, hx]
  hidden := fun _ _ _ hhidden => Bool.noConfusion hhidden
  parents := by
    intro id x _ _ p _ hin
    rw [first?_of_firstRecords_eq h] at hin
    exact ⟨hin, rfl⟩
  inj := fun _ _ _ _ _ _ hname => hname

/-- **Batches with the same first records have the same depths, or they fail at the same shard.** -/
theorem resolve_of_firstRecords_eq :
    (∃ depth, DepthLaw (batch.map item) depth ∧ DepthLaw (other.map item) depth) ∨
      ∃ id, (resolve (batch.map item)).result = .error (.circularDependency id) ∧
        (resolve (other.map item)).result = .error (.circularDependency id) := by
  have hfirsts : (Graph.ofBatch (other.map item)).firsts =
      ((Graph.ofBatch (batch.map item)).firsts.filter fun _ => true).map
        (Item.rename fun id => id) := by
    simp [h]
  rcases resolve_mirror (mirrors_of_firstRecords_eq h) hfirsts with ⟨depth, -, law, -⟩ | hcycle
  · refine Or.inl ⟨depth, law, fun id x hx => ?_⟩
    rw [first?_of_firstRecords_eq h] at hx
    rw [law id x hx, deepest, deepest]
    simp only [first?_of_firstRecords_eq h]
  · exact Or.inr hcycle

end SameFirsts

namespace ParentsFirst

/-- **Only the first record with an ID counts.**  Batches have the same first records exactly if
    they differ in repeats only, which may stand anywhere behind the first record with their
    ID and say anything else.  To such batches every order gives the same result: the same
    records at the same depths in the same sequence, or the same shard as its own ancestor.
    Each shard has the same depth in both. -/
theorem prioritizeRanked_repeats (batch other : List α) :
    (firstRecords other = firstRecords batch ↔ Relation.EqvGen AddsRepeat batch other) ∧
      (firstRecords other = firstRecords batch →
        (∃ id, (resolve (batch.map item)).result = .error (.circularDependency id) ∧
            (resolve (other.map item)).result = .error (.circularDependency id) ∧
            ∀ s : ParentsFirst,
              (s.prioritizeRanked batch).result = .error (.circularDependency id) ∧
              (s.prioritizeRanked other).result = .error (.circularDependency id)) ∨
          ∃ depths depths', (resolve (batch.map item)).result = .ok depths ∧
            (resolve (other.map item)).result = .ok depths' ∧
            (∀ i j x y, FirstAt (batch.map item) i x → FirstAt (other.map item) j y →
              x.id = y.id → ∃ d, depths.get i = some d ∧ depths'.get j = some d) ∧
            ∀ s : ParentsFirst, ∃ ranked, (s.prioritizeRanked batch).result = .ok ranked ∧
              (s.prioritizeRanked other).result = .ok ranked) := by
  refine ⟨firstRecords_eq_iff, fun h => ?_⟩
  rcases resolve_of_firstRecords_eq h with ⟨depth, law, law'⟩ | ⟨id, herr, herr'⟩
  · refine Or.inr ⟨_, _, resolve_of_law law, resolve_of_law law', ?_, fun s => ?_⟩
    · intro i j x y hx hy hid
      refine ⟨depth x.id, Depths.get_layout_of_firstAt hx, ?_⟩
      rw [hid]
      exact Depths.get_layout_of_firstAt hy
    · refine ⟨s.handout batch depth, prioritizeRanked_of_law law, ?_⟩
      rw [prioritizeRanked_of_law law', handout_eq_firsts, h, handout_eq_firsts]
  · exact Or.inl ⟨id, herr, herr', fun s =>
      ⟨prioritizeRanked_of_error herr, prioritizeRanked_of_error herr'⟩⟩

/-- The generations with other repeats: one that is completed, and one that would close a
    cycle if its parents counted. -/
def otherRepeats : List Item :=
  [⟨"c", ["a", "b"], false⟩, ⟨"c", [], true⟩, ⟨"b", ["a", "a"], false⟩,
    ⟨"a", ["d", "z"], false⟩, ⟨"a", ["b"], false⟩, ⟨"d", ["c"], true⟩]

theorem prioritizeRanked_repeats_threeGenerations :
    firstRecords otherRepeats = firstRecords threeGenerations ∧
      (prioritizeRanked ⟨2⟩ otherRepeats).result =
        .ok [(1, ⟨"a", ["d", "z"], false⟩), (2, ⟨"b", ["a", "a"], false⟩)] := by
  have h : firstRecords otherRepeats = firstRecords threeGenerations := by decide
  have law : DepthLaw (threeGenerations.map item) generation := law_threeGenerations
  have hranked := prioritizeRanked_of_law (s := ⟨2⟩) law
  rw [handout_threeGenerations] at hranked
  refine ⟨h, ?_⟩
  rcases (prioritizeRanked_repeats threeGenerations otherRepeats).2 h with
    ⟨id, herr, -⟩ | ⟨-, -, -, -, -, horder⟩
  · cases (resolve_of_law law).symm.trans herr
  · obtain ⟨ranked, hbatch, hother⟩ := horder ⟨2⟩
    obtain rfl := Except.ok.inj (hranked.symm.trans hbatch)
    exact hother

end ParentsFirst

end LeaseOrder
