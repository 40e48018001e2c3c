/-
What `resolve` returns.

A batch has depths exactly if some assignment obeys the law of depths, and the result
is then that assignment, laid out by position.  A batch fails exactly if an open shard
awaits itself through open shards, and the failure names such a shard.  Everything else
here reads the layout: the depth at a position, the greatest depth, and the table by ID.
-/
import LeaseOrder.Depth.Resolve
import LeaseOrder.Proofs.Depth.Run

namespace LeaseOrder

open Ancestry

variable {batch : List Item} {depth : String → Nat}

/-! ### Depths by position -/

namespace Depths

/-- The depths of the shards of a batch by position, with none for a repeated ID. -/
def layout (batch : List Item) (depth : String → Nat) : Depths :=
  ⟨batch.zipIdx.map fun p => if isFresh batch p.2 p.1.id then some (depth p.1.id) else none⟩

theorem get_layout {i d : Nat} :
    (layout batch depth).get i = some d ↔ ∃ x, FirstAt batch i x ∧ depth x.id = d := by
  simp only [get, layout, List.getElem?_map, List.getElem?_zipIdx, Nat.zero_add, firstAt_iff]
  cases batch[i]? <;> simp

theorem get_layout_of_firstAt {i : Nat} {x : Item} (h : FirstAt batch i x) :
    (layout batch depth).get i = some (depth x.id) :=
  get_layout.mpr ⟨x, h, rfl⟩

theorem get_layout_eq_none {i : Nat} :
    (layout batch depth).get i = none ↔ ∀ x, ¬ FirstAt batch i x := by
  rw [Option.eq_none_iff_forall_ne_some]
  refine ⟨?_, ?_⟩
  · intro h x hx
    exact h _ (get_layout_of_firstAt hx)
  · intro h d hd
    obtain ⟨x, hx, -⟩ := get_layout.mp hd
    exact h x hx

/-- A position has no depth if it is out of range or its ID occurs before it. -/
theorem get_layout_eq_none_iff {i : Nat} :
    (layout batch depth).get i = none ↔
      batch.length ≤ i ∨
        ∃ x y j, batch[i]? = some x ∧ j < i ∧ batch[j]? = some y ∧ y.id = x.id := by
  rw [get_layout_eq_none]
  refine ⟨?_, ?_⟩
  · intro h
    rcases Nat.lt_or_ge i batch.length with hlt | hge
    · have hget : batch[i]? = some batch[i] := List.getElem?_eq_getElem hlt
      by_contra hnone
      refine h batch[i] ⟨hget, fun j y hj hy hid => hnone (Or.inr ?_)⟩
      exact ⟨batch[i], y, j, hget, hj, hy, hid⟩
    · exact Or.inl hge
  · intro h z hz
    rcases h with hge | ⟨x, y, j, hx, hj, hy, hid⟩
    · have hget := hz.get
      rw [List.getElem?_eq_none hge] at hget
      exact nomatch hget
    · obtain rfl := Option.some.inj (hx.symm.trans hz.get)
      exact hz.fresh j y hj hy hid

/-- Assignments that agree on the shards of a batch have one layout. -/
theorem layout_congr {other : String → Nat}
    (h : ∀ id, (first? batch id).isSome = true → other id = depth id) :
    layout batch other = layout batch depth := by
  unfold layout
  congr 1
  refine List.map_congr_left fun p hp => ?_
  rw [h p.1.id (isSome_first?.mpr ⟨p.1, List.fst_mem_of_mem_zipIdx hp, rfl⟩)]

/-- Where no ID occurs twice, every position has a depth. -/
theorem layout_of_nodup (hnodup : (batch.map Item.id).Nodup) :
    layout batch depth = ⟨batch.map fun x => some (depth x.id)⟩ := by
  have hfresh : ∀ p ∈ batch.zipIdx, isFresh batch p.2 p.1.id = true := by
    intro p hp
    obtain ⟨x, i⟩ := p
    have hget : batch[i]? = some x := List.mem_zipIdx_iff_getElem?.mp hp
    refine (firstAt_iff.mp ⟨hget, fun j y hj hy hid => ?_⟩).2
    have hlt : j < (batch.map Item.id).length := by
      simpa using (List.getElem?_eq_some_iff.mp hy).1
    have hsame : (batch.map Item.id)[j]? = (batch.map Item.id)[i]? := by
      rw [List.getElem?_map, List.getElem?_map, hy, hget, Option.map_some, Option.map_some, hid]
    exact absurd ((List.getElem?_inj hlt hnodup).mp hsame) (Nat.ne_of_lt hj)
  unfold layout
  congr 1
  calc batch.zipIdx.map (fun p => if isFresh batch p.2 p.1.id then some (depth p.1.id) else none)
      = batch.zipIdx.map fun p => some (depth p.1.id) :=
        List.map_congr_left fun p hp => by rw [if_pos (hfresh p hp)]
    _ = (batch.zipIdx.map Prod.fst).map fun x => some (depth x.id) := by rw [List.map_map]; rfl
    _ = batch.map fun x => some (depth x.id) := by rw [List.zipIdx_map_fst]

theorem mem_byPosition {d : Depths} {n : Nat} :
    some n ∈ d.byPosition ↔ ∃ i, d.get i = some n := by
  simp [List.mem_iff_getElem?, get, Option.join_eq_some_iff]

/-- The greatest depth bounds every depth and is one of them, unless it is 0. -/
theorem isGreatest_max (d : Depths) :
    IsGreatest {n | n = 0 ∨ ∃ i, d.get i = some n} d.max := by
  obtain ⟨os⟩ := d
  simp only [← mem_byPosition]
  induction os using List.reverseRecOn with
  | nil =>
      refine ⟨Or.inl rfl, ?_⟩
      intro n h
      rcases h with rfl | h
      · exact Nat.le_refl 0
      · simp at h
  | append_singleton os o ih =>
      obtain ⟨hmem, hbound⟩ := ih
      have hmax : max ⟨os ++ [o]⟩ = Nat.max (max ⟨os⟩) (o.getD 0) := by
        simp [max]
      rw [hmax]
      refine ⟨?_, ?_⟩
      · rcases Nat.le_total (max ⟨os⟩) (o.getD 0) with hle | hle
        · rw [show Nat.max (max ⟨os⟩) (o.getD 0) = o.getD 0 from Nat.max_eq_right hle]
          cases o with
          | none => exact Or.inl rfl
          | some n => exact Or.inr (by simp)
        · rw [show Nat.max (max ⟨os⟩) (o.getD 0) = max ⟨os⟩ from Nat.max_eq_left hle]
          exact hmem.imp id fun h => List.mem_append_left _ h
      · intro n h
        rcases h with rfl | h
        · exact Nat.zero_le _
        · rcases List.mem_append.mp h with h | h
          · exact Nat.le_trans (hbound (Or.inr h)) (Nat.le_max_left _ _)
          · rw [← List.mem_singleton.mp h]
            exact Nat.le_max_right _ _

end Depths

/-! ### Success and failure -/

/-- A walk with a depth for every shard gives the layout of these depths. -/
theorem byPosition_of_walk {w : Walk}
    (h : ∀ id, (first? batch id).isSome = true → w.depth? id = some (depth id)) :
    ((Graph.ofBatch batch).entries.map fun e =>
      if e.isFirst then w.depth? e.item.id else none) = (Depths.layout batch depth).byPosition := by
  rw [Graph.entries_ofBatch, List.map_map]
  refine List.map_congr_left fun p hp => ?_
  simp [h p.1.id (isSome_first?.mpr ⟨p.1, List.fst_mem_of_mem_zipIdx hp, rfl⟩)]

/-- **Either the depths of a batch obey the law, or a shard that awaits itself is named.** -/
theorem resolve_spec (batch : List Item) :
    (∃ depth, DepthLaw batch depth ∧ (resolve batch).result = .ok (.layout batch depth)) ∨
      ∃ id, Relation.TransGen (Awaits batch) id id ∧
        (resolve batch).result = .error (.circularDependency id) := by
  rcases Walk.ofGraph_spec batch with ⟨w, hw, law, hdepth⟩ | ⟨w, id, hw, hcycle⟩
  · refine Or.inl ⟨w.settledDepth, law, ?_⟩
    simp only [resolve, Graph.resolve, hw, byPosition_of_walk hdepth]
  · refine Or.inr ⟨id, hcycle, ?_⟩
    simp only [resolve, Graph.resolve, hw]

theorem resolve_ok {depths : Depths} (h : (resolve batch).result = .ok depths) :
    ∃ depth, DepthLaw batch depth ∧ depths = .layout batch depth := by
  rcases resolve_spec batch with ⟨depth, law, hok⟩ | ⟨id, -, herr⟩
  · rw [hok] at h
    exact ⟨depth, law, (Except.ok.inj h).symm⟩
  · rw [herr] at h
    simp at h

/-- Lawful depths are the ones that are found. -/
theorem resolve_of_law (law : DepthLaw batch depth) :
    (resolve batch).result = .ok (.layout batch depth) := by
  rcases resolve_spec batch with ⟨found, law', hok⟩ | ⟨id, hcycle, -⟩
  · rw [hok, Depths.layout_congr fun id hin => law.unique law' _ id rfl hin]
  · exact absurd hcycle (law.not_transGen_self id)

/-- A batch has depths if a batch that it eases has. -/
theorem exists_law_of_eases {other : List Item} (hease : Eases batch other)
    (law : DepthLaw other depth) : ∃ depth, DepthLaw batch depth := by
  rcases resolve_spec batch with ⟨found, law', -⟩ | ⟨id, hcycle, -⟩
  · exact ⟨found, law'⟩
  · have hle : Awaits batch ≤ Awaits other := fun _ _ h => h.of_eases hease
    exact absurd (Relation.TransGen.mono hle id id hcycle) (law.not_transGen_self id)

theorem resolve_error {e : OrderError} (h : (resolve batch).result = .error e) :
    ∃ id, e = .circularDependency id ∧ Relation.TransGen (Awaits batch) id id := by
  rcases resolve_spec batch with ⟨depth, -, hok⟩ | ⟨id, hcycle, herr⟩
  · rw [hok] at h
    simp at h
  · rw [herr] at h
    exact ⟨id, (Except.error.inj h).symm, hcycle⟩

theorem resolve_fails_iff (batch : List Item) :
    (∃ e, (resolve batch).result = .error e) ↔
      ∃ id, Relation.TransGen (Awaits batch) id id := by
  refine ⟨?_, ?_⟩
  · intro h
    obtain ⟨e, he⟩ := h
    obtain ⟨id, -, hcycle⟩ := resolve_error he
    exact ⟨id, hcycle⟩
  · intro h
    obtain ⟨id, hcycle⟩ := h
    rcases resolve_spec batch with ⟨depth, law, -⟩ | ⟨named, -, herr⟩
    · exact absurd hcycle (law.not_transGen_self id)
    · exact ⟨_, herr⟩

/-- **A batch fails exactly where an open shard is its own ancestor through open shards,
    and the failure names such a shard.**  Completed shards and repeated IDs play no part:
    batches with the same open shards fail together. -/
theorem resolve_cycle_exact (batch : List Item) :
    ((∃ e, (resolve batch).result = .error e) ↔
        ∃ id, Relation.TransGen (Awaits batch) id id) ∧
      (∀ e, (resolve batch).result = .error e →
        ∃ id, e = .circularDependency id ∧ Relation.TransGen (Awaits batch) id id) ∧
      ∀ other : List Item,
        (∀ id x, x.completed = false → (first? other id = some x ↔ first? batch id = some x)) →
          ((∃ e, (resolve other).result = .error e) ↔ ∃ e, (resolve batch).result = .error e) := by
  refine ⟨resolve_fails_iff batch, fun e he => resolve_error he, ?_⟩
  intro other hsame
  have hease : Eases other batch := fun id x hx hc =>
    ⟨x, (hsame id x hc).mp hx, hc, List.Subset.refl _⟩
  have hease' : Eases batch other := fun id x hx hc =>
    ⟨x, (hsame id x hc).mpr hx, hc, List.Subset.refl _⟩
  have hawaits : Awaits other = Awaits batch := by
    funext child parent
    exact propext ⟨fun h => h.of_eases hease, fun h => h.of_eases hease'⟩
  rw [resolve_fails_iff, resolve_fails_iff, hawaits]

/-! ### The table by ID -/

/-- The depths of a batch by ID, in batch order. -/
def depthTable (batch : List Item) (depth : String → Nat) : List (String × Nat) :=
  (batch.zipIdx.filter fun p => isFresh batch p.2 p.1.id).map fun p => (p.1.id, depth p.1.id)

theorem resolveById_of_law (law : DepthLaw batch depth) :
    resolveById batch = .ok (depthTable batch depth) := by
  have hzip : batch.zip (Depths.layout batch depth).byPosition = batch.zipIdx.map fun p =>
      (p.1, if isFresh batch p.2 p.1.id then some (depth p.1.id) else none) := by
    calc batch.zip (Depths.layout batch depth).byPosition
        = (batch.zipIdx.map Prod.fst).zip (Depths.layout batch depth).byPosition := by
          rw [List.zipIdx_map_fst]
      _ = _ := List.zip_map'
  rw [resolveById, resolve_of_law law]
  simp only [Except.map, hzip, depthTable, List.filterMap_map]
  congr 1
  rw [← List.filterMap_eq_map, List.filterMap_filter]
  refine List.filterMap_congr fun p _ => ?_
  by_cases h : isFresh batch p.2 p.1.id = true <;> simp [h]

theorem mem_depthTable {id : String} {d : Nat} :
    (id, d) ∈ depthTable batch depth ↔ ∃ i x, FirstAt batch i x ∧ x.id = id ∧ depth x.id = d := by
  simp only [depthTable, List.mem_map, List.mem_filter, List.mem_zipIdx_iff_getElem?, Prod.exists,
    Prod.mk.injEq, firstAt_iff]
  refine ⟨?_, ?_⟩
  · intro h
    obtain ⟨x, i, h, hid, hd⟩ := h
    exact ⟨i, x, h, hid, hd⟩
  · intro h
    obtain ⟨i, x, h, hid, hd⟩ := h
    exact ⟨x, i, h, hid, hd⟩

/-- No ID is in the table twice. -/
theorem nodup_depthTable : ((depthTable batch depth).map Prod.fst).Nodup := by
  have hplaces : (batch.zipIdx.map Prod.snd).Nodup := by
    rw [List.zipIdx_map_snd]
    exact List.nodup_range' _
  rw [depthTable, List.map_map]
  refine List.Nodup.map_on ?_ (hplaces.of_map.filter _)
  intro p hx q hy hid
  obtain ⟨x, i⟩ := p
  obtain ⟨y, j⟩ := q
  simp only [List.mem_filter, List.mem_zipIdx_iff_getElem?] at hx hy
  have hfx : FirstAt batch i x := firstAt_iff.mpr hx
  have hfy : FirstAt batch j y := firstAt_iff.mpr hy
  obtain rfl := hfx.position_eq hfy hid
  obtain rfl := Option.some.inj (hfx.get.symm.trans hfy.get)
  rfl

/-! ### The longest chain -/

/-- The greatest depth is the length of the longest chain of open shards in the batch. -/
theorem isGreatest_max_layout (law : DepthLaw batch depth) :
    IsGreatest {n | ∃ ids, Chain batch ids ∧ ids.length = n} (Depths.layout batch depth).max := by
  obtain ⟨hmem, hbound⟩ := Depths.isGreatest_max (.layout batch depth)
  refine ⟨?_, ?_⟩
  · rcases hmem with hzero | ⟨i, hi⟩
    · exact ⟨[], ⟨by simp, .nil⟩, hzero.symm⟩
    · obtain ⟨x, hx, hd⟩ := Depths.get_layout.mp hi
      cases hc : x.completed with
      | true =>
          rw [law.completed_eq hx.first? hc] at hd
          exact ⟨[], ⟨by simp, .nil⟩, hd⟩
      | false =>
          obtain ⟨ids, hchain, hlen⟩ := (law.isGreatest_chain_length ⟨x, hx.first?, hc⟩).1
          exact ⟨x.id :: ids, hchain, hlen.trans hd⟩
  · intro n h
    obtain ⟨ids, hchain, rfl⟩ := h
    cases ids with
    | nil => exact Nat.zero_le _
    | cons id ids =>
        obtain ⟨x, hx, -⟩ := hchain.isOpen id (by simp)
        obtain ⟨rfl, i, hfirst⟩ := first?_eq_some_iff.mp hx
        refine Nat.le_trans (law.chain_length_le ids x.id hchain) (hbound (Or.inr ⟨i, ?_⟩))
        exact Depths.get_layout_of_firstAt hfirst

/-- **The depth of a shard is the length of the longest chain of open shards that starts
    at it.**  Only repeated IDs have no depth, the depths are the one assignment that obeys
    the law, the greatest one is the length of the longest chain of all, and the table by
    ID lists every shard once. -/
theorem resolve_longest_chain {depths : Depths} (h : (resolve batch).result = .ok depths) :
    (∀ i, depths.get i = none ↔
        batch.length ≤ i ∨
          ∃ x y j, batch[i]? = some x ∧ j < i ∧ batch[j]? = some y ∧ y.id = x.id) ∧
      (∀ i x, FirstAt batch i x → x.completed = true → depths.get i = some 0) ∧
      (∀ i x, FirstAt batch i x → x.completed = false → ∃ d, depths.get i = some d ∧
        IsGreatest {n | ∃ ids, Chain batch (x.id :: ids) ∧ (x.id :: ids).length = n} d) ∧
      (∃ depth, DepthLaw batch depth ∧
        (∀ i x, FirstAt batch i x → depths.get i = some (depth x.id)) ∧
        ∀ other, DepthLaw batch other → ∀ i x, FirstAt batch i x → other x.id = depth x.id) ∧
      IsGreatest {n | ∃ ids, Chain batch ids ∧ ids.length = n} depths.max ∧
      ∃ table, resolveById batch = .ok table ∧ (table.map Prod.fst).Nodup ∧
        (∀ id, id ∈ table.map Prod.fst ↔ ∃ x ∈ batch, x.id = id) ∧
        ∀ id d, (id, d) ∈ table ↔
          ∃ i x, FirstAt batch i x ∧ x.id = id ∧ depths.get i = some d := by
  obtain ⟨depth, law, rfl⟩ := resolve_ok h
  refine ⟨fun i => Depths.get_layout_eq_none_iff, ?_, ?_, ⟨depth, law, ?_, ?_⟩,
    isGreatest_max_layout law, depthTable batch depth, resolveById_of_law law, nodup_depthTable,
    ?_, ?_⟩
  · intro i x hx hc
    rw [Depths.get_layout_of_firstAt hx, law.completed_eq hx.first? hc]
  · intro i x hx hopen
    exact ⟨depth x.id, Depths.get_layout_of_firstAt hx,
      law.isGreatest_chain_length ⟨x, hx.first?, hopen⟩⟩
  · exact fun i x hx => Depths.get_layout_of_firstAt hx
  · intro other law' i x hx
    exact law.unique law' _ x.id rfl (by rw [hx.first?]; rfl)
  · intro id
    rw [← isSome_first?, Option.isSome_iff_exists]
    simp only [List.mem_map, Prod.exists, exists_and_right, exists_eq_right, mem_depthTable,
      first?_eq_some_iff]
    refine ⟨?_, ?_⟩
    · intro h
      obtain ⟨d, i, x, hx, hid, -⟩ := h
      exact ⟨x, hid, i, hx⟩
    · intro h
      obtain ⟨x, hid, i, hx⟩ := h
      exact ⟨_, i, x, hx, hid, rfl⟩
  · intro id d
    rw [mem_depthTable]
    refine exists_congr fun i => exists_congr fun x => and_congr_right fun hx => ?_
    rw [Depths.get_layout_of_firstAt hx, Option.some.injEq]

/-- A chain of three beside a completed shard, a parent outside the batch and a repeat. -/
def threeGenerations : List Item :=
  [⟨"c", ["a", "b"], false⟩, ⟨"b", ["a", "a"], false⟩, ⟨"a", ["d", "z"], false⟩,
    ⟨"d", ["c"], true⟩, ⟨"c", [], false⟩]

/-- The depths of the three generations. -/
def generation (id : String) : Nat :=
  if id = "c" then 3 else if id = "b" then 2 else if id = "a" then 1 else 0

theorem law_threeGenerations : DepthLaw threeGenerations generation := by decide

theorem resolve_longest_chain_threeGenerations :
    (resolve threeGenerations).result = .ok ⟨[some 3, some 2, some 1, some 0, none]⟩ ∧
      IsGreatest {n | ∃ ids, Chain threeGenerations ids ∧ ids.length = n} 3 := by
  have hok : (resolve threeGenerations).result =
      .ok ⟨[some 3, some 2, some 1, some 0, none]⟩ := resolve_of_law law_threeGenerations
  obtain ⟨-, -, -, -, hmax, -⟩ := resolve_longest_chain hok
  exact ⟨hok, hmax⟩

end LeaseOrder
