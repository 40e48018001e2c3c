/-
Ordering what has been ordered.

What is handed out has every open ancestor of its shards, so its shards keep the depths
that they have in the batch, although repeats, completed shards and those beyond the bound
are gone.  It is sorted by these depths already.  A second order, with whatever bound,
therefore only leaves out what lies beyond its own bound.
-/
import LeaseOrder.Proofs.Order.Places

namespace LeaseOrder.ParentsFirst

open Ancestry Prioritizable

variable {α : Type} [Prioritizable α] {s : ParentsFirst} {batch : List α} {depth : String → Nat}

/-! ### What is handed out, as a batch -/

/-- No ID is handed out twice. -/
theorem nodup_ids_handout :
    ((s.handout batch depth).map fun p => (item p.2).id).Nodup := by
  have hplaces := congrArg (List.map (Option.map fun p => (item p.2).id))
    (rank_eq_places (s.judgeAll batch (.layout (batch.map item) depth)))
  simp only [List.map_map] at hplaces
  refine List.Nodup.of_map some ?_
  rw [List.map_map]
  refine Eq.subst (motive := List.Nodup) hplaces.symm ?_
  refine (nodup_places _).of_map.map_on fun p hp q hq hid => ?_
  obtain ⟨d, i⟩ := p
  obtain ⟨e, j⟩ := q
  obtain ⟨⟨x, hx, hxfirst, -⟩, hd, -⟩ := mem_places_judgeAll.mp hp
  obtain ⟨⟨y, hy, hyfirst, -⟩, he, -⟩ := mem_places_judgeAll.mp hq
  obtain ⟨x', hx'⟩ := mem_places.mp hp
  obtain ⟨y', hy'⟩ := mem_places.mp hq
  obtain rfl := Option.some.inj (hx.symm.trans (getElem?_judgeAll.mp hx').1)
  obtain rfl := Option.some.inj (hy.symm.trans (getElem?_judgeAll.mp hy').1)
  simp only [Function.comp_apply, hx', hy', Option.map_some, Option.some.injEq] at hid
  obtain rfl := hxfirst.position_eq hyfirst hid
  rw [Option.some.inj (hd.symm.trans he)]

/-- What stands for an ID among the records handed out stands for it in the batch. -/
theorem first?_of_handout {id : String} {x : Item}
    (h : first? (((s.handout batch depth).map Prod.snd).map item) id = some x) :
    first? (batch.map item) id = some x ∧ x.completed = false ∧
      depth id ≤ s.maxDepth.toNat := by
  obtain ⟨rfl, i, hfirst⟩ := first?_eq_some_iff.mp h
  have hmem := List.mem_of_getElem? hfirst.get
  rw [List.map_map, List.mem_map] at hmem
  obtain ⟨⟨d, y⟩, hy, rfl⟩ := hmem
  obtain ⟨⟨j, -, hyfirst⟩, hopen, rfl, hle⟩ := mem_handout.mp hy
  exact ⟨hyfirst.first?, hopen, hle⟩

/-- **The shards handed out keep their depths.** -/
theorem law_handout (law : DepthLaw (batch.map item) depth) :
    DepthLaw (((s.handout batch depth).map Prod.snd).map item) depth := by
  refine law.of_closed (fun id x hx => (first?_of_handout hx).1) ?_
  intro id x hx hopen p hp hpopen
  obtain ⟨hfirst, -, hle⟩ := first?_of_handout hx
  have hlt := law.lt_of_awaits ⟨x, hfirst, hopen, hp, hpopen⟩
  have hple : depth p ≤ s.maxDepth.toNat := by omega
  obtain ⟨i, y, -, -, rfl, hmem⟩ := exists_mem_handout hpopen hple
  exact isSome_first?.mpr ⟨item y, List.mem_map_of_mem (List.mem_map_of_mem hmem), rfl⟩

/-! ### The second order -/

/-- **Handing out once more only leaves out what is too deep.** -/
theorem handout_handout (again : ParentsFirst) :
    again.handout ((s.handout batch depth).map Prod.snd) depth =
      (s.handout batch depth).filter fun p => p.1 ≤ again.maxDepth.toNat := by
  have hnodup : ((((s.handout batch depth).map Prod.snd).map item).map Item.id).Nodup := by
    simpa only [List.map_map, Function.comp_def] using nodup_ids_handout
  have hjudged : again.judgeAll ((s.handout batch depth).map Prod.snd)
      (.layout (((s.handout batch depth).map Prod.snd).map item) depth) =
        (s.handout batch depth).map fun p =>
          (p.2, if again.maxDepth.toNat < p.1 then .tooDeep p.1 else .kept p.1) := by
    rw [Depths.layout_of_nodup hnodup, judgeAll]
    simp only [List.map_map, List.zip_map', Function.comp_def]
    refine List.map_congr_left fun p hp => ?_
    obtain ⟨-, hopen, hd, -⟩ := mem_handout.mp (show (p.1, p.2) ∈ _ from hp)
    simp [judge, hopen, hd]
  have hkept : kept ((s.handout batch depth).map fun p =>
      (p.2, if again.maxDepth.toNat < p.1 then Verdict.tooDeep p.1 else .kept p.1)) =
        (s.handout batch depth).filter fun p => p.1 ≤ again.maxDepth.toNat := by
    rw [kept, List.filterMap_map, ← List.filterMap_eq_filter]
    refine List.filterMap_congr fun p _ => ?_
    by_cases hdeep : again.maxDepth.toNat < p.1
    · simp [hdeep, Option.guard]
    · simp [hdeep, Option.guard, Nat.le_of_not_lt hdeep]
  rw [handout, hjudged, rank_eq, hkept]
  refine List.mergeSort_of_pairwise ((pairwise_handout.filter _).imp fun {a b} hle => ?_)
  simpa using hle

/-- What has been ordered is in order: the same bound leaves nothing out. -/
theorem prioritize_of_prioritize {r : List α} (h : (s.prioritize batch).result = .ok r) :
    (s.prioritize r).result = .ok r := by
  obtain ⟨depth, law, rfl⟩ := prioritize_ok h
  rw [prioritize_of_law (law_handout law), handout_handout, List.filter_eq_self.mpr]
  intro p hp
  obtain ⟨-, -, -, hle⟩ := mem_handout.mp (show (p.1, p.2) ∈ _ from hp)
  simpa using hle

/-- **Ordering a result once more, with whatever bound, keeps the depths and the order, and
    leaves out what lies beyond the new bound.**  With the old bound nothing changes. -/
theorem prioritize_idempotent (s again : ParentsFirst) (batch : List α) {r : List α}
    (h : (s.prioritize batch).result = .ok r) :
    ∃ ranked, (s.prioritizeRanked batch).result = .ok ranked ∧ ranked.map Prod.snd = r ∧
      (again.prioritizeRanked r).result =
        .ok (ranked.filter fun p => p.1 ≤ again.maxDepth.toNat) ∧
      (s.prioritize r).result = .ok r := by
  have hsame := prioritize_of_prioritize h
  obtain ⟨depth, law, rfl⟩ := prioritize_ok h
  refine ⟨s.handout batch depth, prioritizeRanked_of_law law, rfl, ?_, hsame⟩
  rw [prioritizeRanked_of_law (law_handout law), handout_handout]

theorem prioritize_idempotent_threeGenerations :
    (prioritize ⟨2⟩ threeGenerations).result =
        .ok [⟨"a", ["d", "z"], false⟩, ⟨"b", ["a", "a"], false⟩] ∧
      (prioritizeRanked ⟨1⟩ [⟨"a", ["d", "z"], false⟩, (⟨"b", ["a", "a"], false⟩ : Item)]).result =
        .ok [(1, ⟨"a", ["d", "z"], false⟩)] := by
  have law : DepthLaw (threeGenerations.map item) generation := law_threeGenerations
  have hok := prioritize_of_law (s := ⟨2⟩) law
  rw [handout_threeGenerations] at hok
  obtain ⟨ranked, hranked, -, hagain, -⟩ := prioritize_idempotent ⟨2⟩ ⟨1⟩ threeGenerations hok
  rw [prioritizeRanked_of_law law, handout_threeGenerations] at hranked
  obtain rfl := Except.ok.inj hranked
  exact ⟨hok, hagain⟩

end LeaseOrder.ParentsFirst
