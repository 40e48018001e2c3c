/-
IDs are opaque.

A batch under other names is the same batch to the order, as long as no two of the IDs that
it mentions get one name.  Every question that is asked of an ID is whether it equals another
one, so the first occurrences stay at their positions, the walk goes on alike, and every
record gets the verdict that it had.  What the records are besides items does not matter.
-/
import Mathlib.Data.Set.Function
import Mathlib.Logic.Equiv.Basic
import LeaseOrder.Proofs.Depth.Mirror
import LeaseOrder.Proofs.Order.Places

namespace LeaseOrder

open Ancestry Prioritizable

/-- The IDs that occur in a batch, those of shards and those of parents. -/
def mentioned (batch : List Item) : Set String :=
  {id | ∃ x ∈ batch, id = x.id ∨ id ∈ x.parents}

variable {name : String → String} {batch : List Item}

/-! ### First occurrences -/

/-- What stands for an ID stands for its name, where names tell the IDs of the batch apart. -/
theorem first?_rename {ids : Set String} (hinj : Set.InjOn name ids) {id : String}
    (hid : id ∈ ids) :
    ∀ {batch : List Item}, (∀ x ∈ batch, x.id ∈ ids) →
      first? (batch.map (Item.rename name)) (name id) =
        (first? batch id).map (Item.rename name) := by
  intro batch
  induction batch with
  | nil => intro _; rfl
  | cons x batch ih =>
      intro hids
      obtain ⟨hx, hrest⟩ := List.forall_mem_cons.mp hids
      have hsame : ((x.rename name).id == name id) = (x.id == id) := by
        rw [Bool.eq_iff_iff, beq_iff_eq, beq_iff_eq]
        exact hinj.eq_iff hx hid
      have ih := ih hrest
      unfold first? at ih ⊢
      rw [List.map_cons, List.find?_cons, List.find?_cons, hsame]
      cases x.id == id with
      | true => rfl
      | false => exact ih

theorem id_mem_mentioned {x : Item} (hx : x ∈ batch) : x.id ∈ mentioned batch :=
  ⟨x, hx, Or.inl rfl⟩

theorem parent_mem_mentioned {x : Item} (hx : x ∈ batch) {p : String} (hp : p ∈ x.parents) :
    p ∈ mentioned batch :=
  ⟨x, hx, Or.inr hp⟩

variable (hinj : Set.InjOn name (mentioned batch))

include hinj

theorem isFresh_rename {x : Item} (hx : x ∈ batch) (i : Nat) :
    isFresh (batch.map (Item.rename name)) i (name x.id) = isFresh batch i x.id := by
  have hids : ∀ y ∈ batch.take i, y.id ∈ mentioned batch := fun y hy =>
    id_mem_mentioned (List.mem_of_mem_take hy)
  rw [isFresh, ← List.map_take, first?_rename hinj (id_mem_mentioned hx) hids,
    Option.isNone_map, isFresh]

theorem firsts_rename :
    (Graph.ofBatch (batch.map (Item.rename name))).firsts =
      (Graph.ofBatch batch).firsts.map (Item.rename name) := by
  rw [Graph.firsts, Graph.firsts, Graph.entries_ofBatch, Graph.entries_ofBatch, List.zipIdx_map,
    List.map_map, List.filterMap_map, List.filterMap_map, List.map_filterMap]
  refine List.filterMap_congr fun p hp => ?_
  have hfresh := isFresh_rename hinj (List.fst_mem_of_mem_zipIdx hp) p.2
  show (if isFresh _ p.2 (name p.1.id) = true then some (p.1.rename name) else none) =
    (if isFresh batch p.2 p.1.id = true then some p.1 else none).map (Item.rename name)
  rw [hfresh]
  split <;> rfl

/-- A batch under other names shows the batch. -/
theorem mirrors_rename :
    Mirrors name (fun _ => true) batch (batch.map (Item.rename name)) := by
  have hids : ∀ x ∈ batch, x.id ∈ mentioned batch := fun x => id_mem_mentioned
  have hmem : ∀ id, (first? batch id).isSome = true → id ∈ mentioned batch := by
    intro id hid
    obtain ⟨x, hx, rfl⟩ := isSome_first?.mp hid
    exact id_mem_mentioned hx
  refine ⟨?_, fun _ _ _ hhidden => Bool.noConfusion hhidden, ?_, ?_⟩
  · intro id x hx _
    rw [first?_rename hinj (hmem id (by rw [hx]; rfl)) hids, hx, Option.map_some]
  · intro id x hx _ p hp hin
    have hx : x ∈ batch := List.mem_of_find?_eq_some hx
    rw [first?_rename hinj (parent_mem_mentioned hx hp) hids, Option.isSome_map] at hin
    exact ⟨hin, rfl⟩
  · intro p q hp hq _ _ hname
    exact hinj (hmem p hp) (hmem q hq) hname

/-! ### Depths by position -/

theorem layout_rename {depth depth' : String → Nat}
    (h : ∀ id, (first? batch id).isSome = true → depth' (name id) = depth id) :
    Depths.layout (batch.map (Item.rename name)) depth' = Depths.layout batch depth := by
  rw [Depths.layout, Depths.layout, List.zipIdx_map, List.map_map]
  congr 1
  refine List.map_congr_left fun p hp => ?_
  have hx := List.fst_mem_of_mem_zipIdx hp
  have hfresh := isFresh_rename hinj hx p.2
  have hdepth := h p.1.id (isSome_first?.mpr ⟨p.1, hx, rfl⟩)
  show (if isFresh _ p.2 (name p.1.id) = true then some (depth' (name p.1.id)) else none) = _
  rw [hfresh, hdepth]

/-- **A batch under other names has the same depths, or it fails at the same shard.** -/
theorem resolve_rename :
    (∃ depth depth', DepthLaw batch depth ∧ DepthLaw (batch.map (Item.rename name)) depth' ∧
        Depths.layout (batch.map (Item.rename name)) depth' = Depths.layout batch depth) ∨
      ∃ id, (resolve batch).result = .error (.circularDependency id) ∧
        (resolve (batch.map (Item.rename name))).result =
          .error (.circularDependency (name id)) := by
  have hfirsts : (Graph.ofBatch (batch.map (Item.rename name))).firsts =
      ((Graph.ofBatch batch).firsts.filter fun _ => true).map (Item.rename name) := by
    rw [List.filter_true, firsts_rename hinj]
  rcases resolve_mirror (mirrors_rename hinj) hfirsts with ⟨depth, depth', law, law', h⟩ | hcycle
  · exact Or.inl ⟨depth, depth', law, law', layout_rename hinj fun id hid => h id hid rfl⟩
  · exact Or.inr hcycle

omit hinj

/-! ### The order -/

namespace ParentsFirst

variable {α β : Type} [Prioritizable α] [Prioritizable β] {s : ParentsFirst}

/-- A verdict looks at nothing of an item but whether it is completed. -/
@[simp] theorem judge_rename (x : Item) (o : Option Nat) :
    s.judge (x.rename name) o = s.judge x o := by
  cases o with
  | none => rfl
  | some d => rfl

theorem verdicts_judgeAll (batch : List α) (depths : Depths) :
    (s.judgeAll batch depths).map Prod.snd =
      ((batch.map item).zip depths.byPosition).map fun p => s.judge p.1 p.2 := by
  rw [judgeAll, List.map_map, List.zip_map_left, List.map_map]
  rfl

/-- Records under other names get the verdicts that they had. -/
theorem verdicts_rename {batch : List α} {other : List β}
    (hother : other.map item = (batch.map item).map (Item.rename name)) (depths : Depths) :
    (s.judgeAll other depths).map Prod.snd = (s.judgeAll batch depths).map Prod.snd := by
  rw [verdicts_judgeAll, verdicts_judgeAll, hother, List.zip_map_left, List.map_map]
  simp

omit [Prioritizable α] [Prioritizable β] in
/-- Places depend on verdicts only. -/
theorem places_congr {judged : List (α × Verdict)} {judged' : List (β × Verdict)}
    (h : judged'.map Prod.snd = judged.map Prod.snd) : places judged' = places judged := by
  have hplaces : ∀ {γ : Type} (js : List (γ × Verdict)),
      places js = rank ((js.map Prod.snd).zipIdx.map Prod.swap) := by
    intro γ js
    rw [places, List.zipIdx_map, List.map_map]
    rfl
  rw [hplaces, hplaces, h]

/-- **Other names for the IDs of a batch change nothing, whatever the records are.**  Where
    no two IDs get one name, both batches have the same depths by position, or both fail, and
    the shard that is named is the same.  Every order hands out the records at the same
    positions, at the same depths and in the same sequence. -/
theorem prioritizeRanked_rename {batch : List α} {other : List β}
    (hinj : Set.InjOn name (mentioned (batch.map item)))
    (hother : other.map item = (batch.map item).map (Item.rename name)) :
    (∃ id, (resolve (batch.map item)).result = .error (.circularDependency id) ∧
        (resolve (other.map item)).result = .error (.circularDependency (name id)) ∧
        ∀ s : ParentsFirst,
          (s.prioritizeRanked batch).result = .error (.circularDependency id) ∧
          (s.prioritizeRanked other).result = .error (.circularDependency (name id))) ∨
      ∃ depths, (resolve (batch.map item)).result = .ok depths ∧
        (resolve (other.map item)).result = .ok depths ∧
        ∀ s : ParentsFirst, ∃ (handed : List (Nat × Nat)) (ranked : List (Nat × α))
          (ranked' : List (Nat × β)),
          (s.prioritizeRanked batch).result = .ok ranked ∧
          (s.prioritizeRanked other).result = .ok ranked' ∧
          (∀ d i, (d, i) ∈ handed ↔ Handed s batch depths d i) ∧
          (∀ d i, (d, i) ∈ handed ↔ Handed s other depths d i) ∧
          (handed.map Prod.snd).Nodup ∧
          ranked.map some = (handed.map fun p => batch[p.2]?.map (p.1, ·)) ∧
          ranked'.map some = handed.map fun p => other[p.2]?.map (p.1, ·) := by
  rcases resolve_rename hinj with ⟨depth, depth', law, law', hlayout⟩ | ⟨id, herr, herr'⟩
  · rw [← hother] at law' hlayout
    refine Or.inr ⟨.layout (batch.map item) depth, resolve_of_law law, ?_, fun s => ?_⟩
    · rw [resolve_of_law law', hlayout]
    · have hplaces : places (s.judgeAll other (.layout (other.map item) depth')) =
          places (s.judgeAll batch (.layout (batch.map item) depth)) := by
        rw [hlayout]
        exact places_congr (verdicts_rename hother _)
      refine ⟨places (s.judgeAll batch (.layout (batch.map item) depth)), s.handout batch depth,
        s.handout other depth', prioritizeRanked_of_law law, prioritizeRanked_of_law law',
        fun d i => mem_places_judgeAll, fun d i => ?_, nodup_places _, handout_eq_places, ?_⟩
      · rw [← hplaces, mem_places_judgeAll, hlayout]
      · rw [handout_eq_places, hplaces]
  · rw [← hother] at herr'
    exact Or.inl ⟨id, herr, herr', fun s =>
      ⟨prioritizeRanked_of_error herr, prioritizeRanked_of_error herr'⟩⟩

/-- The oldest and the youngest of the generations change names. -/
theorem prioritizeRanked_rename_threeGenerations :
    Set.InjOn (Equiv.swap "a" "c") (mentioned (threeGenerations.map item)) ∧
      (threeGenerations.map (Item.rename (Equiv.swap "a" "c"))).map item =
        (threeGenerations.map item).map (Item.rename (Equiv.swap "a" "c")) ∧
      (resolve (threeGenerations.map (Item.rename (Equiv.swap "a" "c")))).result =
        .ok ⟨[some 3, some 2, some 1, some 0, none]⟩ := by
  have hinj : Set.InjOn (Equiv.swap "a" "c") (mentioned (threeGenerations.map item)) :=
    (Equiv.swap "a" "c").injective.injOn
  have hids : ∀ xs : List Item, xs.map item = xs := fun xs => List.map_id' xs
  have hc : (threeGenerations.map (Item.rename (Equiv.swap "a" "c"))).map item =
      (threeGenerations.map item).map (Item.rename (Equiv.swap "a" "c")) := by
    rw [hids, hids]
  have hok : (resolve (threeGenerations.map item)).result =
      .ok ⟨[some 3, some 2, some 1, some 0, none]⟩ := resolve_of_law law_threeGenerations
  rcases prioritizeRanked_rename hinj hc with ⟨id, herr, -⟩ | ⟨depths, hdepths, hrenamed, -⟩
  · cases hok.symm.trans herr
  · obtain rfl := Except.ok.inj (hok.symm.trans hdepths)
    exact ⟨hinj, hc, hrenamed⟩

end ParentsFirst

end LeaseOrder
