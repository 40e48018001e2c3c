/-
The order in which a batch is listed.

Depths come from the shards and from who is whose parent.  Where the same shards are listed
in another order, with their parents in another order, repeated, or mixed with parents from
outside the batch, the law of depths is the same equation, so both listings have the same
depths or none.  What is handed out is then the same too, up to the order within a depth.
-/
import LeaseOrder.Proofs.Order.Idempotent

namespace LeaseOrder

open Ancestry Prioritizable

/-- Two batches list the same shards, each ID once, and say the same of them: whether they are
    completed, and which shards of the batch are their parents. -/
structure Relists (batch other : List Item) : Prop where
  nodup : (batch.map Item.id).Nodup
  ids : (batch.map Item.id).Perm (other.map Item.id)
  completed : ∀ x ∈ batch, ∀ y ∈ other, x.id = y.id → x.completed = y.completed
  parents : ∀ x ∈ batch, ∀ y ∈ other, x.id = y.id →
    ∀ p ∈ batch.map Item.id, p ∈ x.parents ↔ p ∈ y.parents

namespace Relists

variable {batch other : List Item} {depth : String → Nat}

theorem symm (h : Relists batch other) : Relists other batch where
  nodup := h.ids.nodup h.nodup
  ids := h.ids.symm
  completed := fun y hy x hx hid => (h.completed x hx y hy hid.symm).symm
  parents := fun y hy x hx hid p hp => (h.parents x hx y hy hid.symm p (h.ids.mem_iff.mpr hp)).symm

theorem isSome_first?_iff (h : Relists batch other) (id : String) :
    (first? batch id).isSome = true ↔ (first? other id).isSome = true := by
  have hids := h.ids.mem_iff (a := id)
  rw [List.mem_map, List.mem_map] at hids
  rw [isSome_first?, isSome_first?]
  exact hids

/-- What stands for an ID in the one listing has a counterpart in the other. -/
theorem exists_first? (h : Relists batch other) {id : String} {y : Item}
    (hy : first? other id = some y) :
    ∃ x, first? batch id = some x ∧ x.completed = y.completed ∧
      ∀ p, (first? batch p).isSome = true → (p ∈ x.parents ↔ p ∈ y.parents) := by
  obtain ⟨x, hx⟩ := Option.isSome_iff_exists.mp ((h.isSome_first?_iff id).mpr (by rw [hy]; rfl))
  have hid : x.id = y.id := (id_of_first? hx).trans (id_of_first? hy).symm
  have hxmem : x ∈ batch := List.mem_of_find?_eq_some hx
  have hymem : y ∈ other := List.mem_of_find?_eq_some hy
  refine ⟨x, hx, h.completed x hxmem y hymem hid, fun p hp => ?_⟩
  exact h.parents x hxmem y hymem hid p (List.mem_map.mpr (isSome_first?.mp hp))

theorem isOpen (h : Relists batch other) {id : String} (hopen : IsOpen other id) :
    IsOpen batch id := by
  obtain ⟨y, hy, hc⟩ := hopen
  obtain ⟨x, hx, hsame, -⟩ := h.exists_first? hy
  exact ⟨x, hx, hsame.trans hc⟩

/-- **Depths that are lawful for one listing are lawful for the other.** -/
theorem law (h : Relists batch other) (law : DepthLaw batch depth) : DepthLaw other depth := by
  intro id y hy
  obtain ⟨x, hx, hsame, hparents⟩ := h.exists_first? hy
  have hdeep : deepest other depth y = deepest batch depth x := by
    refine Nat.le_antisymm (deepest_le fun p hp hin => ?_) (deepest_le fun p hp hin => ?_)
    · have hin' := (h.isSome_first?_iff p).mpr hin
      exact le_deepest ((hparents p hin').mpr hp) hin'
    · exact le_deepest ((hparents p hin).mp hp) ((h.isSome_first?_iff p).mp hin)
  rw [law id x hx, hsame, hdeep]

end Relists

theorem Depths.get_layout_of_nodup {batch : List Item} {depth : String → Nat}
    (hnodup : (batch.map Item.id).Nodup) {i : Nat} {x : Item} (hx : batch[i]? = some x) :
    (layout batch depth).get i = some (depth x.id) := by
  rw [layout_of_nodup hnodup, get, List.getElem?_map, hx]
  rfl

namespace ParentsFirst

variable {α β : Type} [Prioritizable α] [Prioritizable β] {s : ParentsFirst}
  {depth : String → Nat}

/-- The IDs that are handed out, with their depths. -/
def handedIds (ranked : List (Nat × α)) : List (Nat × String) :=
  ranked.map fun p => (p.1, (item p.2).id)

theorem mem_handedIds {batch : List α} {d : Nat} {id : String} :
    (d, id) ∈ handedIds (s.handout batch depth) ↔
      IsOpen (batch.map item) id ∧ depth id = d ∧ d ≤ s.maxDepth.toNat := by
  rw [handedIds, List.mem_map]
  refine ⟨?_, ?_⟩
  · intro h
    obtain ⟨⟨e, x⟩, hmem, heq⟩ := h
    obtain ⟨rfl, rfl⟩ := Prod.mk.inj heq
    obtain ⟨⟨i, -, hfirst⟩, hopen, hd, hle⟩ := mem_handout.mp hmem
    exact ⟨⟨item x, hfirst.first?, hopen⟩, hd, hle⟩
  · intro h
    obtain ⟨hopen, rfl, hle⟩ := h
    obtain ⟨i, y, -, -, rfl, hmem⟩ := exists_mem_handout hopen hle
    exact ⟨_, hmem, rfl⟩

theorem nodup_handedIds {batch : List α} : (handedIds (s.handout batch depth)).Nodup := by
  refine List.Nodup.of_map Prod.snd ?_
  rw [handedIds, List.map_map]
  exact nodup_ids_handout

/-- Both listings hand out the same shards. -/
theorem perm_handedIds {batch : List α} {other : List β}
    (h : Relists (batch.map item) (other.map item)) :
    (handedIds (s.handout batch depth)).Perm (handedIds (s.handout other depth)) := by
  rw [List.perm_ext_iff_of_nodup nodup_handedIds nodup_handedIds]
  intro p
  obtain ⟨d, id⟩ := p
  rw [mem_handedIds, mem_handedIds]
  exact and_congr_left' ⟨h.symm.isOpen, h.isOpen⟩

/-- Results with the same shards have the same sequence of depths. -/
theorem depths_eq_of_perm {ranked : List (Nat × α)} {ranked' : List (Nat × β)}
    (hsorted : ranked.Pairwise fun a b => a.1 ≤ b.1)
    (hsorted' : ranked'.Pairwise fun a b => a.1 ≤ b.1)
    (hperm : (handedIds ranked).Perm (handedIds ranked')) :
    ranked.map Prod.fst = ranked'.map Prod.fst := by
  have hdepths : (ranked.map Prod.fst).Perm (ranked'.map Prod.fst) := by
    have hfst := hperm.map Prod.fst
    rwa [handedIds, handedIds, List.map_map, List.map_map] at hfst
  exact hdepths.eq_of_pairwise (fun _ _ _ _ => Nat.le_antisymm)
    (List.pairwise_map.mpr hsorted) (List.pairwise_map.mpr hsorted')

/-- Results with the same shards have the same shards at each depth. -/
theorem perm_filter_handedIds {ranked : List (Nat × α)} {ranked' : List (Nat × β)}
    (hperm : (handedIds ranked).Perm (handedIds ranked')) (d : Nat) :
    (handedIds (ranked.filter (·.1 = d))).Perm (handedIds (ranked'.filter (·.1 = d))) := by
  have hlevel := hperm.filter (·.1 = d)
  rwa [handedIds, handedIds, List.filter_map, List.filter_map] at hlevel

/-- **The order in which shards and parents are listed plays no part.**  Two listings of the
    same shards fail together.  Otherwise every shard has the same depth in both, and every
    order hands out the same shards of both in one sequence of depths, so that the results
    differ within a depth at most. -/
theorem prioritizeRanked_relisted {batch : List α} {other : List β}
    (h : Relists (batch.map item) (other.map item)) :
    ((∃ e, (resolve (batch.map item)).result = .error e) ∧
        ∃ e, (resolve (other.map item)).result = .error e) ∨
      ∃ depths depths', (resolve (batch.map item)).result = .ok depths ∧
        (resolve (other.map item)).result = .ok depths' ∧
        (∀ i j x y, batch[i]? = some x → other[j]? = some y → (item x).id = (item y).id →
          ∃ d, depths.get i = some d ∧ depths'.get j = some d) ∧
        ∀ s : ParentsFirst, ∃ ranked ranked', (s.prioritizeRanked batch).result = .ok ranked ∧
          (s.prioritizeRanked other).result = .ok ranked' ∧
          (handedIds ranked).Perm (handedIds ranked') ∧
          ranked.map Prod.fst = ranked'.map Prod.fst ∧
          ∀ d, (handedIds (ranked.filter (·.1 = d))).Perm
            (handedIds (ranked'.filter (·.1 = d))) := by
  cases hbatch : (resolve (batch.map item)).result with
  | error e =>
      refine Or.inl ⟨⟨e, rfl⟩, ?_⟩
      -- Depths for the other listing would be depths for this one.
      by_contra hnone
      cases hother : (resolve (other.map item)).result with
      | error e' => exact hnone ⟨e', hother⟩
      | ok depths =>
          obtain ⟨depth, law, -⟩ := resolve_ok hother
          cases hbatch.symm.trans (resolve_of_law (h.symm.law law))
  | ok depths =>
      obtain ⟨depth, law, rfl⟩ := resolve_ok hbatch
      have law' := h.law law
      refine Or.inr ⟨_, _, rfl, resolve_of_law law', ?_, fun s => ?_⟩
      · intro i j x y hx hy hid
        have hx : (batch.map item)[i]? = some (item x) := by rw [List.getElem?_map, hx]; rfl
        have hy : (other.map item)[j]? = some (item y) := by rw [List.getElem?_map, hy]; rfl
        refine ⟨depth (item x).id, Depths.get_layout_of_nodup h.nodup hx, ?_⟩
        rw [hid]
        exact Depths.get_layout_of_nodup h.symm.nodup hy
      · have hperm : (handedIds (s.handout batch depth)).Perm
            (handedIds (s.handout other depth)) := perm_handedIds h
        exact ⟨_, _, prioritizeRanked_of_law law, prioritizeRanked_of_law law', hperm,
          depths_eq_of_perm pairwise_handout pairwise_handout hperm, perm_filter_handedIds hperm⟩

/-- The generations without the repeat. -/
def listed : List Item :=
  [⟨"c", ["a", "b"], false⟩, ⟨"b", ["a", "a"], false⟩, ⟨"a", ["d", "z"], false⟩,
    ⟨"d", ["c"], true⟩]

/-- The same shards from the other end, with their parents listed in other ways. -/
def relisted : List Item :=
  [⟨"d", ["y", "c", "c"], true⟩, ⟨"a", ["d"], false⟩, ⟨"b", ["x", "a"], false⟩,
    ⟨"c", ["b", "a", "b"], false⟩]

/-- Two generations of the three are handed out of each listing. -/
theorem prioritizeRanked_relisted_generations :
    Relists (listed.map item) (relisted.map item) ∧
      (∃ depths, (resolve (relisted.map item)).result = .ok depths ∧ depths.get 3 = some 3) ∧
      ∃ ranked ranked', (prioritizeRanked ⟨2⟩ listed).result = .ok ranked ∧
        (prioritizeRanked ⟨2⟩ relisted).result = .ok ranked' ∧
        handedIds ranked = [(1, "a"), (2, "b")] ∧
        (handedIds ranked).Perm (handedIds ranked') ∧ ranked'.map Prod.fst = [1, 2] := by
  have h : Relists (listed.map item) (relisted.map item) :=
    ⟨by decide, by decide, by decide, by decide⟩
  have law : DepthLaw (listed.map item) generation := by decide
  have hhanded : handedIds (handout ⟨2⟩ listed generation) = [(1, "a"), (2, "b")] := by
    have hjudged : judgeAll ⟨2⟩ listed (.layout (listed.map item) generation) =
        [(⟨"c", ["a", "b"], false⟩, .tooDeep 3), (⟨"b", ["a", "a"], false⟩, .kept 2),
          (⟨"a", ["d", "z"], false⟩, .kept 1), (⟨"d", ["c"], true⟩, .completed)] := by decide
    rw [handout, hjudged]
    simp [rank, List.mergeSort, List.MergeSort.Internal.splitInTwo, handedIds, item]
  rcases prioritizeRanked_relisted h with
    ⟨⟨e, herr⟩, -⟩ | ⟨depths, depths', hok, hok', hsame, horders⟩
  · cases (resolve_of_law law).symm.trans herr
  · obtain rfl := Except.ok.inj ((resolve_of_law law).symm.trans hok)
    obtain ⟨d, hd, hd'⟩ := hsame 0 3 _ _ rfl rfl rfl
    have hthree : (Depths.layout (listed.map item) generation).get 0 = some 3 := by decide
    obtain ⟨ranked, ranked', hranked, hranked', hperm, hdepths, -⟩ := horders ⟨2⟩
    obtain rfl := Except.ok.inj ((prioritizeRanked_of_law law).symm.trans hranked)
    refine ⟨h, ⟨depths', hok', hd'.trans (hd.symm.trans hthree)⟩, _, ranked', hranked, hranked',
      hhanded, hperm, ?_⟩
    rw [← hdepths]
    have hfirst := congrArg (List.map Prod.fst) hhanded
    rw [handedIds, List.map_map] at hfirst
    exact hfirst

end ParentsFirst

end LeaseOrder
