/-
Which positions of a batch the parents-first order hands out, and in which order.

`places` is the order with positions in the place of records.  Sorting is stable, so the
positions of one depth ascend, and the places ascend in the lexicographic order of depth
and position.  Together with the positions that occur among them, which `mem_places`
names, this leaves one list only.
-/
import Mathlib.Data.Prod.Lex
import LeaseOrder.Order.Orderer
import LeaseOrder.Proofs.Order.ParentsFirst

namespace LeaseOrder.ParentsFirst

open Ancestry Prioritizable

/-! ### Stable sorting -/

section Sorting

variable {α β : Type}

/-- Sorting by depth leaves the entries of one depth in their order. -/
theorem filter_mergeSort (entries : List (Nat × α)) (d : Nat) :
    (entries.mergeSort fun a b => a.1 ≤ b.1).filter (·.1 = d) = entries.filter (·.1 = d) := by
  have hlevel : (entries.filter (·.1 = d)).Pairwise fun a b => decide (a.1 ≤ b.1) = true := by
    refine List.pairwise_of_forall_mem_list fun a ha b hb => ?_
    have hda : a.1 = d := by simpa using (List.mem_filter.mp ha).2
    have hdb : b.1 = d := by simpa using (List.mem_filter.mp hb).2
    rw [hda, hdb]
    simp
  have hsub : (entries.filter (·.1 = d)).Sublist (entries.mergeSort fun a b => a.1 ≤ b.1) := by
    refine List.sublist_mergeSort ?_ ?_ hlevel List.filter_sublist
    · intro a b c hab hbc
      simp only [decide_eq_true_eq] at hab hbc ⊢
      omega
    · intro a b
      simp only [Bool.or_eq_true, decide_eq_true_eq]
      omega
  -- Both sides hold the same entries, so the shorter cannot be a proper part of the other.
  have hperm := (List.mergeSort_perm entries fun a b => a.1 ≤ b.1).filter (·.1 = d)
  have hpart := hsub.filter (·.1 = d)
  rw [List.filter_filter] at hpart
  simp only [Bool.and_self] at hpart
  exact (hpart.eq_of_length hperm.length_eq.symm).symm

/-- The kept records with their depths, in the order of the batch. -/
def kept (judged : List (α × Verdict)) : List (Nat × α) :=
  judged.filterMap fun p => match p.2 with
    | .kept d => some (d, p.1)
    | _ => none

theorem rank_eq (judged : List (α × Verdict)) :
    rank judged = (kept judged).mergeSort fun a b => a.1 ≤ b.1 := rfl

/-- **Records of one depth are handed out in the order that they have in the batch.** -/
theorem filter_rank (judged : List (α × Verdict)) (d : Nat) :
    (rank judged).filter (·.1 = d) = (kept judged).filter (·.1 = d) := by
  rw [rank_eq, filter_mergeSort]

theorem kept_map (f : α → β) (judged : List (α × Verdict)) :
    kept (judged.map fun p => (f p.1, p.2)) = (kept judged).map fun p => (p.1, f p.2) := by
  rw [kept, List.filterMap_map, kept, List.map_filterMap]
  refine List.filterMap_congr fun p _ => ?_
  obtain ⟨x, v⟩ := p
  cases v <;> rfl

/-- The order looks at verdicts only, so it is the same whatever the records are. -/
theorem rank_map (f : α → β) (judged : List (α × Verdict)) :
    rank (judged.map fun p => (f p.1, p.2)) = (rank judged).map fun p => (p.1, f p.2) := by
  rw [rank_eq, kept_map, rank_eq]
  have hmap := List.map_mergeSort (r := fun a b : Nat × α => decide (a.1 ≤ b.1))
    (s := fun a b : Nat × β => decide (a.1 ≤ b.1)) (f := fun p => (p.1, f p.2))
    (l := kept judged) fun _ _ _ _ => rfl
  exact hmap.symm

end Sorting

/-! ### Places -/

section Places

variable {α : Type}

/-- The positions that are handed out, with their depths. -/
def places (judged : List (α × Verdict)) : List (Nat × Nat) :=
  rank (judged.zipIdx.map fun p => (p.2, p.1.2))

theorem mem_places {judged : List (α × Verdict)} {d i : Nat} :
    (d, i) ∈ places judged ↔ ∃ x, judged[i]? = some (x, .kept d) := by
  simp only [places, mem_rank, List.mem_map, Prod.exists, Prod.mk.injEq,
    List.mem_zipIdx_iff_getElem?]
  refine ⟨?_, ?_⟩
  · intro h
    obtain ⟨x, v, j, hget, rfl, rfl⟩ := h
    exact ⟨x, hget⟩
  · intro h
    obtain ⟨x, hget⟩ := h
    exact ⟨x, .kept d, i, hget, rfl, rfl⟩

/-- **Places ascend in the lexicographic order of depth and position.** -/
theorem pairwise_places (judged : List (α × Verdict)) :
    (places judged).Pairwise (Prod.Lex (· < ·) (· < ·)) := by
  -- In the order of the batch the positions ascend, and so they do within each depth.
  have hbatch : (kept (judged.zipIdx.map fun p => (p.2, p.1.2))).Pairwise fun a b =>
      a.2 < b.2 := by
    rw [kept, List.pairwise_filterMap, List.pairwise_map]
    have hplaces : (judged.zipIdx.map Prod.snd).Pairwise (· < ·) := by
      rw [List.zipIdx_map_snd]
      exact List.pairwise_lt_range'
    refine (List.pairwise_map.mp hplaces).imp ?_
    intro p q hlt a ha b hb
    obtain ⟨⟨x, v⟩, i⟩ := p
    obtain ⟨⟨y, u⟩, j⟩ := q
    cases v <;> cases u <;> simp at ha hb
    rw [← ha, ← hb]
    exact hlt
  refine List.pairwise_iff_forall_sublist.mpr fun {a b} hsub => ?_
  have hle : a.1 ≤ b.1 := List.pairwise_iff_forall_sublist.mp (pairwise_rank _) hsub
  rw [Prod.lex_def]
  rcases Nat.lt_or_eq_of_le hle with hlt | heq
  · exact Or.inl hlt
  · refine Or.inr ⟨heq, ?_⟩
    have hlevel := hsub.filter (·.1 = b.1)
    rw [places, filter_rank] at hlevel
    simp only [heq, decide_true, List.filter_cons_of_pos, List.filter_nil] at hlevel
    exact List.pairwise_iff_forall_sublist.mp hbatch (hlevel.trans List.filter_sublist)

/-- No position is handed out twice. -/
theorem nodup_places (judged : List (α × Verdict)) : ((places judged).map Prod.snd).Nodup := by
  have hnodup : (places judged).Nodup := by
    refine (pairwise_places judged).imp fun {a b} hlex heq => ?_
    subst heq
    rw [Prod.lex_def] at hlex
    omega
  refine hnodup.map_on fun p hp q hq hpos => ?_
  obtain ⟨d, i⟩ := p
  obtain ⟨e, j⟩ := q
  obtain rfl : i = j := hpos
  obtain ⟨x, hx⟩ := mem_places.mp hp
  obtain ⟨y, hy⟩ := mem_places.mp hq
  have hsame := Option.some.inj (hx.symm.trans hy)
  rw [(Verdict.kept.inj (Prod.mk.inj hsame).2)]

/-- What is handed out are the records at the places, unchanged. -/
theorem rank_eq_places (judged : List (α × Verdict)) :
    (rank judged).map some = (places judged).map fun p => judged[p.2]?.map fun x => (p.1, x.1) := by
  -- Each record is carried along with its position; the order heeds neither.
  let numbered : List ((α × Nat) × Verdict) := judged.zipIdx.map fun p => ((p.1.1, p.2), p.1.2)
  have hrecords : judged = numbered.map fun p => (p.1.1, p.2) := by
    simp only [numbered, List.map_map, Function.comp_def, Prod.mk.eta]
    exact (List.zipIdx_map_fst 0 judged).symm
  have hplaces : places judged = (rank numbered).map fun p => (p.1, p.2.2) := by
    rw [← rank_map, places]
    simp only [numbered, List.map_map, Function.comp_def]
  have hrank : rank judged = (rank numbered).map fun p => (p.1, p.2.1) := by
    rw [← rank_map, ← hrecords]
  rw [hrank, hplaces, List.map_map, List.map_map]
  refine List.map_congr_left fun p hp => ?_
  obtain ⟨d, x, i⟩ := p
  rw [mem_rank] at hp
  simp only [numbered, List.mem_map, Prod.exists, Prod.mk.injEq,
    List.mem_zipIdx_iff_getElem?] at hp
  obtain ⟨y, v, j, hget, ⟨rfl, rfl⟩, rfl⟩ := hp
  simp [hget]

end Places

/-! ### The exact order -/

variable {α : Type} [Prioritizable α]

/-- The record at a position of a batch is handed out at a depth. -/
structure Handed (s : ParentsFirst) (batch : List α) (depths : Depths) (d i : Nat) : Prop where
  /-- The record is the first one with its ID, and it is not completed. -/
  unfinished : ∃ x, batch[i]? = some x ∧ FirstAt (batch.map item) i (item x) ∧
    (item x).completed = false
  /-- The position has this depth. -/
  settled : depths.get i = some d
  /-- The depth is within the bound. -/
  within : d ≤ s.maxDepth.toNat

variable {s : ParentsFirst} {batch : List α} {depth : String → Nat}

theorem getElem?_judgeAll {depths : Depths} {i : Nat} {x : α} {v : Verdict} :
    (s.judgeAll batch depths)[i]? = some (x, v) ↔ batch[i]? = some x ∧
      ∃ o, depths.byPosition[i]? = some o ∧ s.judge (item x) o = v := by
  simp only [judgeAll, List.getElem?_map, Option.map_eq_some_iff, List.getElem?_zip_eq_some,
    Prod.exists, Prod.mk.injEq]
  refine ⟨?_, ?_⟩
  · intro h
    obtain ⟨y, o, ⟨hy, ho⟩, rfl, hv⟩ := h
    exact ⟨hy, o, ho, hv⟩
  · intro h
    obtain ⟨hx, o, ho, hv⟩ := h
    exact ⟨x, o, ⟨hx, ho⟩, rfl, hv⟩

theorem mem_places_judgeAll {d i : Nat} :
    (d, i) ∈ places (s.judgeAll batch (.layout (batch.map item) depth)) ↔
      Handed s batch (.layout (batch.map item) depth) d i := by
  simp only [mem_places, getElem?_judgeAll, judge_eq_kept]
  refine ⟨?_, ?_⟩
  · intro h
    obtain ⟨x, hx, o, ho, rfl, hopen, hle⟩ := h
    have hget : (Depths.layout (batch.map item) depth).get i = some d := by
      rw [Depths.get, ho, Option.join_some]
    obtain ⟨y, hy, -⟩ := Depths.get_layout.mp hget
    have hxy : item x = y := by
      have hyget := hy.get
      rw [List.getElem?_map, hx] at hyget
      exact Option.some.inj hyget
    exact ⟨⟨x, hx, hxy ▸ hy, hopen⟩, hget, hle⟩
  · intro h
    obtain ⟨⟨x, hx, -, hopen⟩, hget, hle⟩ := h
    rw [Depths.get, Option.join_eq_some_iff] at hget
    exact ⟨x, hx, some d, hget, rfl, hopen, hle⟩

/-- What is handed out are the records of the batch at the places. -/
theorem handout_eq_places :
    (s.handout batch depth).map some =
      (places (s.judgeAll batch (.layout (batch.map item) depth))).map fun p =>
        batch[p.2]?.map (p.1, ·) := by
  rw [handout, rank_eq_places]
  refine List.map_congr_left fun p hp => ?_
  obtain ⟨d, i⟩ := p
  obtain ⟨x, hget⟩ := mem_places.mp hp
  rw [hget, (getElem?_judgeAll.mp hget).1]
  rfl

/-- **A batch without depths is not ordered at all; any other one is ordered as follows.**
    The positions handed out are those of the first occurrences that are not completed and
    not deeper than the bound, each of them once, by ascending depth and then by position,
    and the records at these positions come out unchanged. -/
theorem prioritizeRanked_exact (s : ParentsFirst) (offered : UInt64) (batch : List α) :
    (∃ e, (resolve (batch.map item)).result = .error e ∧
        (s.prioritizeRanked batch).result = .error e ∧
        (s.prioritize batch).result = .error e ∧
        (Orderer.parentsFirst s).order offered batch = .error e) ∨
      ∃ (depths : Depths) (ranked : List (Nat × α)) (handed : List (Nat × Nat)),
        (resolve (batch.map item)).result = .ok depths ∧
        (s.prioritizeRanked batch).result = .ok ranked ∧
        (s.prioritize batch).result = .ok (ranked.map Prod.snd) ∧
        (Orderer.parentsFirst s).order offered batch = .ok (ranked.map Prod.snd) ∧
        (∀ d i, (d, i) ∈ handed ↔ Handed s batch depths d i) ∧
        (handed.map Prod.snd).Nodup ∧
        handed.Pairwise (Prod.Lex (· < ·) (· < ·)) ∧
        ranked.map some = handed.map fun p => batch[p.2]?.map (p.1, ·) := by
  cases hdepths : (resolve (batch.map item)).result with
  | error e =>
      have hranked : (s.prioritizeRanked batch).result = .error e := by
        simp only [prioritizeRanked, hdepths]
      have hplain : (s.prioritize batch).result = .error e := by
        rw [prioritize, Logged.map, hranked]
        rfl
      exact Or.inl ⟨e, rfl, hranked, hplain, hplain⟩
  | ok depths =>
      obtain ⟨depth, law, rfl⟩ := resolve_ok hdepths
      have hplain := prioritize_of_law (s := s) law
      refine Or.inr ⟨_, s.handout batch depth, places (s.judgeAll batch _), rfl,
        prioritizeRanked_of_law law, hplain, hplain, fun d i => mem_places_judgeAll,
        nodup_places _, pairwise_places _, ?_⟩
      rw [handout, rank_eq_places]
      refine List.map_congr_left fun p hp => ?_
      obtain ⟨d, i⟩ := p
      obtain ⟨x, hget⟩ := mem_places.mp hp
      rw [hget, (getElem?_judgeAll.mp hget).1]
      rfl

end LeaseOrder.ParentsFirst
