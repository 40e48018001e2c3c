/-
Progress never holds a shard back.

Shards get completed and parents are struck off, one at a time or many at once.  What is
open afterwards was open before, and it awaited before what it awaits now.  So a chain of
open shards afterwards was one before, the longest one from a shard is no longer than it
was, and no shard awaits itself that did not.
-/
import Mathlib.Data.List.Forall2
import LeaseOrder.Proofs.Order.ParentsFirst

namespace LeaseOrder

open Ancestry Prioritizable

/-- What may become of an item: it is completed, or parents are struck off its list. -/
structure Item.Progress (x y : Item) : Prop where
  id : y.id = x.id
  completed : x.completed = true → y.completed = true
  parents : y.parents.Sublist x.parents

/-! ### Whole batches -/

theorem exists_getElem?_of_forall₂ {α β : Type} {R : α → β → Prop} {xs : List α} {ys : List β}
    (h : List.Forall₂ R xs ys) :
    ∀ {i : Nat} {x : α}, xs[i]? = some x → ∃ y, ys[i]? = some y ∧ R x y := by
  induction h with
  | nil => intro i x hx; simp at hx
  | @cons a b xs ys hab _ ih =>
      intro i x hx
      cases i with
      | zero =>
          obtain rfl : a = x := by simpa using hx
          exact ⟨b, rfl, hab⟩
      | succ i => exact ih (by simpa using hx)

section Later

variable {batch later : List Item} (h : List.Forall₂ Item.Progress batch later)

include h

theorem ids_eq_of_progress : batch.map Item.id = later.map Item.id := by
  induction h with
  | nil => rfl
  | cons hxy _ ih => rw [List.map_cons, List.map_cons, hxy.id, ih]

/-- What stands for an ID later is what has become of what stood for it. -/
theorem exists_first?_of_progress {id : String} {y : Item} (hy : first? later id = some y) :
    ∃ x, first? batch id = some x ∧ x.Progress y := by
  obtain ⟨rfl, i, hfirst⟩ := first?_eq_some_iff.mp hy
  obtain ⟨x, hx, hxy⟩ := exists_getElem?_of_forall₂ (R := flip Item.Progress) h.flip hfirst.get
  have hxfirst : FirstAt batch i x := hfirst.of_ids_eq (ids_eq_of_progress h).symm hx
  exact ⟨x, first?_eq_some_iff.mpr ⟨hxy.id.symm, i, hxfirst⟩, hxy⟩

/-- Progress eases a batch. -/
theorem eases_of_progress : Eases later batch := by
  intro id y hy hopen
  obtain ⟨x, hx, hxy⟩ := exists_first?_of_progress h hy
  refine ⟨x, hx, ?_, hxy.parents.subset⟩
  by_contra hc
  rw [hxy.completed (by simpa using hc)] at hopen
  cases hopen

end Later

namespace ParentsFirst

variable {α : Type} [Prioritizable α]

/-- **Progress in a batch that can be ordered holds nothing back.**  The batch can still be
    ordered, no position is deeper than it was, and every record that was handed out still is
    unless it is completed. -/
theorem prioritize_progress {batch later : List α}
    (h : List.Forall₂ (fun x y => (item x).Progress (item y)) batch later) {depths : Depths}
    (hok : (resolve (batch.map item)).result = .ok depths) :
    ∃ depths', (resolve (later.map item)).result = .ok depths' ∧
      (∀ i d, depths.get i = some d → ∃ d' ≤ d, depths'.get i = some d') ∧
      ∀ s : ParentsFirst, ∃ r r', (s.prioritize batch).result = .ok r ∧
        (s.prioritize later).result = .ok r' ∧
        ∀ x ∈ r, ∃ i y, batch[i]? = some x ∧ FirstAt (batch.map item) i (item x) ∧
          later[i]? = some y ∧ ((item y).completed = false → y ∈ r') := by
  have hitems : List.Forall₂ Item.Progress (batch.map item) (later.map item) :=
    List.forall₂_map_left_iff.mpr (List.forall₂_map_right_iff.mpr h)
  have hids := ids_eq_of_progress hitems
  have hease := eases_of_progress hitems
  obtain ⟨depth, law, rfl⟩ := resolve_ok hok
  obtain ⟨depth', law'⟩ := exists_law_of_eases hease law
  have hle : ∀ {i : Nat} {y : Item}, FirstAt (later.map item) i y → depth' y.id ≤ depth y.id :=
    fun hy => law'.le_of_eases law hease (by rw [hy.first?]; rfl)
  refine ⟨_, resolve_of_law law', ?_, fun s => ⟨_, _, prioritize_of_law law,
    prioritize_of_law law', ?_⟩⟩
  · intro i d hd
    obtain ⟨x, hx, rfl⟩ := Depths.get_layout.mp hd
    obtain ⟨y, hy, hxy⟩ := exists_getElem?_of_forall₂ hitems hx.get
    have hyfirst : FirstAt (later.map item) i y := hx.of_ids_eq hids hy
    refine ⟨depth' y.id, ?_, Depths.get_layout_of_firstAt hyfirst⟩
    rw [← hxy.id]
    exact hle hyfirst
  · intro x hx
    obtain ⟨⟨d, x⟩, hmem, rfl⟩ := List.mem_map.mp hx
    obtain ⟨⟨i, hi, hfirst⟩, -, rfl, hbound⟩ := mem_handout.mp hmem
    obtain ⟨y, hy, hxy⟩ := exists_getElem?_of_forall₂ h hi
    have hyget : (later.map item)[i]? = some (item y) := by rw [List.getElem?_map, hy]; rfl
    have hyfirst : FirstAt (later.map item) i (item y) := hfirst.of_ids_eq hids hyget
    refine ⟨i, y, hi, hfirst, hy, fun hopen => ?_⟩
    have hybound : depth' (item y).id ≤ s.maxDepth.toNat := by
      refine Nat.le_trans (hle hyfirst) ?_
      rw [hxy.id]
      exact hbound
    exact List.mem_map.mpr ⟨_, mem_handout.mpr ⟨⟨i, hy, hyfirst⟩, hopen, rfl, hybound⟩, rfl⟩

/-- The generations after the oldest is completed and the youngest has lost a parent. -/
def nextGenerations : List Item :=
  [⟨"c", ["b"], false⟩, ⟨"b", ["a", "a"], false⟩, ⟨"a", ["z"], true⟩, ⟨"d", [], true⟩,
    ⟨"c", [], true⟩]

theorem prioritize_progress_threeGenerations :
    List.Forall₂ (fun x y => (item x).Progress (item y)) threeGenerations nextGenerations ∧
      (resolve (threeGenerations.map item)).result =
        .ok ⟨[some 3, some 2, some 1, some 0, none]⟩ ∧
      ∃ depths', (resolve (nextGenerations.map item)).result = .ok depths' ∧
        (∃ d ≤ 3, depths'.get 0 = some d) ∧
        ∃ r', (prioritize ⟨2⟩ nextGenerations).result = .ok r' ∧ ⟨"b", ["a", "a"], false⟩ ∈ r' := by
  have h : List.Forall₂ (fun x y => (item x).Progress (item y))
      threeGenerations nextGenerations := by
    refine .cons ⟨rfl, ?_, ?_⟩ (.cons ⟨rfl, ?_, ?_⟩ (.cons ⟨rfl, ?_, ?_⟩
      (.cons ⟨rfl, ?_, ?_⟩ (.cons ⟨rfl, ?_, ?_⟩ .nil)))) <;> decide
  have hok : (resolve (threeGenerations.map item)).result =
      .ok ⟨[some 3, some 2, some 1, some 0, none]⟩ := resolve_of_law law_threeGenerations
  obtain ⟨depths', hok', hdepths, horder⟩ := prioritize_progress h hok
  refine ⟨h, hok, depths', hok', hdepths 0 3 rfl, ?_⟩
  obtain ⟨r, r', hr, hr', hkeeps⟩ := horder ⟨2⟩
  have law : DepthLaw (threeGenerations.map item) generation := law_threeGenerations
  rw [prioritize_of_law law, handout_threeGenerations] at hr
  obtain rfl := Except.ok.inj hr
  obtain ⟨i, y, -, hfirst, hy, hmem⟩ := hkeeps ⟨"b", ["a", "a"], false⟩ (by simp)
  have hone : FirstAt (threeGenerations.map item) 1 ⟨"b", ["a", "a"], false⟩ :=
    firstAt_iff.mpr (by decide)
  obtain rfl := hfirst.position_eq hone rfl
  obtain rfl := Option.some.inj hy
  exact ⟨r', hr', hmem rfl⟩

end ParentsFirst

end LeaseOrder
