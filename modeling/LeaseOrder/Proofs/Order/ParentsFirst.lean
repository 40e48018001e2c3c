/-
The parents-first order hands out every open ancestor of a shard before the shard.

What is handed out is read off the law of depths: the first occurrences that are open
and not too deep, in ascending order of depth.  An open ancestor of a shard lies at a
smaller depth than the shard.  So it is not too deep either, and it comes earlier.
-/
import Mathlib.Algebra.Group.Nat.Defs
import LeaseOrder.Order.ParentsFirst
import LeaseOrder.Proofs.Depth.Resolve

namespace LeaseOrder.ParentsFirst

open Ancestry Prioritizable

variable {α : Type} [Prioritizable α] {s : ParentsFirst} {batch : List α} {depth : String → Nat}

/-- A bound that is accepted lets the first generation through. -/
theorem maxDepth_pos {m : Option Int64} (h : ofMaxDepth m = .ok s) : 0 < s.maxDepth.toNat := by
  cases m with
  | none =>
      obtain rfl := Except.ok.inj h
      decide
  | some n =>
      simp only [ofMaxDepth, upTo] at h
      by_cases hn : n ≤ 0
      · rw [if_pos hn] at h
        exact nomatch h
      · rw [if_neg hn] at h
        obtain rfl := Except.ok.inj h
        have hle : 0 ≤ n := Int64.le_of_lt (Int64.not_le.mp hn)
        show 0 < n.toUInt64.toNat
        rw [Int64.toNat_toUInt64_of_le hle]
        exact Nat.pos_of_ne_zero fun hzero => hn (Int64.toNatClampNeg_eq_zero_iff.mp hzero)

/-- The greatest depth that is handed out, where this bound or none is given. -/
def bound : Option Int64 → Nat
  | some n => n.toInt.toNat
  | none => 2 ^ 64 - 1

theorem maxDepth_eq_bound {m : Option Int64} (h : ofMaxDepth m = .ok s) :
    s.maxDepth.toNat = bound m := by
  cases m with
  | none =>
      obtain rfl := Except.ok.inj h
      rfl
  | some n =>
      simp only [ofMaxDepth, upTo] at h
      by_cases hn : n ≤ 0
      · rw [if_pos hn] at h
        cases h
      · rw [if_neg hn] at h
        obtain rfl := Except.ok.inj h
        exact Int64.toNat_toUInt64_of_le (Int64.le_of_lt (Int64.not_le.mp hn))

theorem exists_ofMaxDepth {m : Option Int64} (h : ∀ n ∈ m, 0 < n) :
    ∃ s, ofMaxDepth m = .ok s := by
  cases m with
  | none => exact ⟨_, rfl⟩
  | some n => exact ⟨_, if_neg (Int64.not_le.mpr (h n rfl))⟩

/-! ### What is kept -/

theorem judge_eq_kept {x : Item} {o : Option Nat} {d : Nat} :
    s.judge x o = .kept d ↔ o = some d ∧ x.completed = false ∧ d ≤ s.maxDepth.toNat := by
  cases o with
  | none => simp [judge]
  | some n =>
      unfold judge
      by_cases hc : x.completed = true
      · simp [hc]
      · by_cases hdeep : s.maxDepth.toNat < n
        · simp only [hc, hdeep, if_true, Option.some.injEq]
          refine ⟨?_, ?_⟩
          · intro h
            simp at h
          · intro h
            obtain ⟨rfl, -, hle⟩ := h
            omega
        · simp only [hc, hdeep, Bool.false_eq_true, if_false, Verdict.kept.injEq,
            Option.some.injEq]
          refine ⟨?_, ?_⟩
          · intro h
            subst h
            exact ⟨rfl, by simp, by omega⟩
          · intro h
            obtain ⟨rfl, -, -⟩ := h
            rfl

theorem mem_judgeAll {depths : Depths} {x : α} {v : Verdict} :
    (x, v) ∈ s.judgeAll batch depths ↔ ∃ (i : Nat) (o : Option Nat), batch[i]? = some x ∧
      depths.byPosition[i]? = some o ∧ s.judge (item x) o = v := by
  simp only [judgeAll, List.mem_map, Prod.exists, Prod.mk.injEq]
  refine ⟨?_, ?_⟩
  · intro h
    obtain ⟨y, o, hmem, rfl, hv⟩ := h
    obtain ⟨i, hi⟩ := List.mem_iff_getElem?.mp hmem
    obtain ⟨hx, ho⟩ := List.getElem?_zip_eq_some.mp hi
    exact ⟨i, o, hx, ho, hv⟩
  · intro h
    obtain ⟨i, o, hx, ho, hv⟩ := h
    exact ⟨x, o, List.mem_of_getElem? (List.getElem?_zip_eq_some.mpr ⟨hx, ho⟩), rfl, hv⟩

omit [Prioritizable α] in
@[simp] theorem mem_rank {judged : List (α × Verdict)} {d : Nat} {x : α} :
    (d, x) ∈ rank judged ↔ (x, Verdict.kept d) ∈ judged := by
  simp only [rank, List.mem_mergeSort, List.mem_filterMap, Prod.exists]
  refine ⟨?_, ?_⟩
  · intro h
    obtain ⟨y, v, hmem, hv⟩ := h
    cases v with
    | kept n =>
        simp only [Option.some.injEq, Prod.mk.injEq] at hv
        obtain ⟨rfl, rfl⟩ := hv
        exact hmem
    | repeated => simp at hv
    | completed => simp at hv
    | tooDeep _ => simp at hv
  · intro hmem
    exact ⟨x, .kept d, hmem, rfl⟩

omit [Prioritizable α] in
/-- What is handed out has ascending depths. -/
theorem pairwise_rank (judged : List (α × Verdict)) :
    (rank judged).Pairwise fun a b => a.1 ≤ b.1 := by
  refine (List.pairwise_mergeSort ?_ ?_ _).imp ?_
  · intro a b c hab hbc
    simp only [decide_eq_true_eq] at hab hbc ⊢
    omega
  · intro a b
    simp only [Bool.or_eq_true, decide_eq_true_eq]
    omega
  · intro a b hab
    simpa using hab

omit [Prioritizable α] in
/-- The head is the least deep. -/
theorem head_depth_le {a b : Nat × α} {rest : List (Nat × α)}
    (hsorted : (a :: rest).Pairwise fun a b => a.1 ≤ b.1) (hb : b ∈ a :: rest) : a.1 ≤ b.1 := by
  rcases List.mem_cons.mp hb with heq | hb
  · rw [heq]
  · exact (List.pairwise_cons.mp hsorted).1 b hb

omit [Prioritizable α] in
/-- What has the smaller depth comes earlier. -/
theorem position_lt_of_depth_lt {ranked : List (Nat × α)}
    (hsorted : ranked.Pairwise fun a b => a.1 ≤ b.1) {j : Nat} {a b : Nat × α}
    (ha : ranked[j]? = some a) (hb : b ∈ ranked) (hlt : b.1 < a.1) :
    ∃ i < j, ranked[i]? = some b := by
  obtain ⟨i, hi⟩ := List.mem_iff_getElem?.mp hb
  refine ⟨i, ?_, hi⟩
  by_contra hge
  obtain ⟨hjlen, hja⟩ := List.getElem?_eq_some_iff.mp ha
  obtain ⟨hilen, hib⟩ := List.getElem?_eq_some_iff.mp hi
  rcases Nat.eq_or_lt_of_le (Nat.le_of_not_lt hge) with rfl | hji
  · rw [hja] at hib
    rw [hib] at hlt
    exact Nat.lt_irrefl _ hlt
  · have hle : ranked[j].1 ≤ ranked[i].1 :=
      List.pairwise_iff_getElem.mp hsorted j i hjlen hilen hji
    rw [hja, hib] at hle
    omega

/-! ### What is handed out -/

/-- The records that are handed out where the shards of the batch have these depths. -/
def handout (s : ParentsFirst) (batch : List α) (depth : String → Nat) : List (Nat × α) :=
  rank (s.judgeAll batch (.layout (batch.map item) depth))

theorem pairwise_handout : (s.handout batch depth).Pairwise fun a b => a.1 ≤ b.1 :=
  pairwise_rank _

/-- **A record is handed out if it is the first one with its ID, open and not too deep.** -/
theorem mem_handout {d : Nat} {x : α} :
    (d, x) ∈ s.handout batch depth ↔ (∃ i, batch[i]? = some x ∧
        FirstAt (batch.map item) i (item x)) ∧
      (item x).completed = false ∧ depth (item x).id = d ∧ d ≤ s.maxDepth.toNat := by
  simp only [handout, mem_rank, mem_judgeAll, judge_eq_kept]
  refine ⟨?_, ?_⟩
  · intro h
    obtain ⟨i, o, hx, ho, rfl, hopen, hle⟩ := h
    have hget : (Depths.layout (batch.map item) depth).get i = some d := by
      rw [Depths.get, ho, Option.join_some]
    obtain ⟨y, hy, hd⟩ := Depths.get_layout.mp hget
    have hxy : item x = y := by
      have hyget := hy.get
      rw [List.getElem?_map, hx] at hyget
      exact Option.some.inj hyget
    subst hxy
    exact ⟨⟨i, hx, hy⟩, hopen, hd, hle⟩
  · intro h
    obtain ⟨⟨i, hx, hfirst⟩, hopen, rfl, hle⟩ := h
    have hget : (Depths.layout (batch.map item) depth).get i = some (depth (item x).id) :=
      Depths.get_layout_of_firstAt hfirst
    rw [Depths.get, Option.join_eq_some_iff] at hget
    exact ⟨i, _, hx, hget, rfl, hopen, hle⟩

/-- Nothing is handed out that is not in the batch. -/
theorem mem_of_mem_handout {x : α} (h : x ∈ (s.handout batch depth).map Prod.snd) : x ∈ batch := by
  obtain ⟨⟨d, y⟩, hy, rfl⟩ := List.mem_map.mp h
  obtain ⟨⟨i, hi, -⟩, -⟩ := mem_handout.mp hy
  exact List.mem_of_getElem? hi

/-- Nothing is handed out at depth 0. -/
theorem pos_of_mem_handout (law : DepthLaw (batch.map item) depth) {d : Nat} {x : α}
    (h : (d, x) ∈ s.handout batch depth) : 0 < d := by
  obtain ⟨⟨i, -, hfirst⟩, hopen, rfl, -⟩ := mem_handout.mp h
  exact law.pos_of_isOpen ⟨item x, hfirst.first?, hopen⟩

/-- An open shard that is not too deep is handed out in its first occurrence. -/
theorem exists_mem_handout {id : String} (hopen : IsOpen (batch.map item) id)
    (hle : depth id ≤ s.maxDepth.toNat) :
    ∃ i y, batch[i]? = some y ∧ FirstAt (batch.map item) i (item y) ∧ (item y).id = id ∧
      (depth id, y) ∈ s.handout batch depth := by
  obtain ⟨x, hx, hc⟩ := hopen
  obtain ⟨rfl, i, hfirst⟩ := first?_eq_some_iff.mp hx
  have hget := hfirst.get
  rw [List.getElem?_map, Option.map_eq_some_iff] at hget
  obtain ⟨y, hy, rfl⟩ := hget
  exact ⟨i, y, hy, hfirst, rfl, mem_handout.mpr ⟨⟨i, hy, hfirst⟩, hc, rfl, hle⟩⟩

/-- **As long as a shard is open, some shard has depth one and is handed out.** -/
theorem exists_mem_handout_one (hs : 0 < s.maxDepth.toNat)
    (law : DepthLaw (batch.map item) depth) {id : String} (hopen : IsOpen (batch.map item) id) :
    ∃ x, (1, x) ∈ s.handout batch depth := by
  have hpos := law.pos_of_isOpen hopen
  obtain ⟨q, hq, hone⟩ := law.exists_depth_eq Nat.one_pos (depth id - 1) id hopen (by omega)
  obtain ⟨i, x, -, -, -, hmem⟩ := exists_mem_handout hq (show depth q ≤ s.maxDepth.toNat by omega)
  rw [hone] at hmem
  exact ⟨x, hmem⟩

/-- The first level is within every bound that is accepted. -/
theorem handout_eq_nil_iff (hs : 0 < s.maxDepth.toNat) (law : DepthLaw (batch.map item) depth) :
    s.handout batch depth = [] ↔ ∀ id, ¬ IsOpen (batch.map item) id := by
  refine ⟨?_, ?_⟩
  · intro hnil id hopen
    obtain ⟨x, hx⟩ := exists_mem_handout_one hs law hopen
    rw [hnil] at hx
    simp at hx
  · intro hnone
    refine List.eq_nil_iff_forall_not_mem.mpr fun p hp => ?_
    obtain ⟨⟨i, -, hfirst⟩, hopen, -⟩ := mem_handout.mp (show (p.1, p.2) ∈ _ from hp)
    exact hnone _ ⟨item p.2, hfirst.first?, hopen⟩

theorem prioritizeRanked_of_law (law : DepthLaw (batch.map item) depth) :
    (s.prioritizeRanked batch).result = .ok (s.handout batch depth) := by
  simp only [prioritizeRanked, resolve_of_law law, handout]

/-- A batch without depths is not ordered. -/
theorem prioritizeRanked_of_error {e : OrderError}
    (h : (resolve (batch.map item)).result = .error e) :
    (s.prioritizeRanked batch).result = .error e := by
  simp only [prioritizeRanked, h]

theorem prioritizeRanked_ok {ranked : List (Nat × α)}
    (h : (s.prioritizeRanked batch).result = .ok ranked) :
    ∃ depth, DepthLaw (batch.map item) depth ∧ ranked = s.handout batch depth := by
  simp only [prioritizeRanked] at h
  split at h
  · simp at h
  · rename_i depths hdepths
    obtain ⟨depth, law, rfl⟩ := resolve_ok hdepths
    exact ⟨depth, law, (Except.ok.inj h).symm⟩

theorem prioritize_of_law (law : DepthLaw (batch.map item) depth) :
    (s.prioritize batch).result = .ok ((s.handout batch depth).map Prod.snd) := by
  rw [prioritize, Logged.map, prioritizeRanked_of_law law]
  rfl

theorem prioritize_ok {r : List α} (h : (s.prioritize batch).result = .ok r) :
    ∃ depth, DepthLaw (batch.map item) depth ∧ r = (s.handout batch depth).map Prod.snd := by
  rw [prioritize, Logged.map] at h
  cases hranked : (s.prioritizeRanked batch).result with
  | error e =>
      rw [hranked] at h
      exact nomatch h
  | ok ranked =>
      rw [hranked] at h
      obtain ⟨depth, law, rfl⟩ := prioritizeRanked_ok hranked
      exact ⟨depth, law, (Except.ok.inj h).symm⟩

theorem mem_of_prioritize {r : List α} (h : (s.prioritize batch).result = .ok r) :
    ∀ x ∈ r, x ∈ batch := by
  obtain ⟨depth, -, rfl⟩ := prioritize_ok h
  exact fun x => mem_of_mem_handout

/-! ### Ancestors come first -/

/-- **Every open ancestor of a shard that is handed out is handed out before it.**  The
    bound never cuts a shard off from an open parent. -/
theorem prioritize_ancestors_first (s : ParentsFirst) (batch : List α) {r : List α}
    (h : (s.prioritize batch).result = .ok r) :
    ∀ (j : Nat) (x : α), r[j]? = some x →
      IsOpen (batch.map item) (item x).id ∧
        ∀ q, Relation.TransGen (Awaits (batch.map item)) (item x).id q →
          ∃ i < j, ∃ y, r[i]? = some y ∧ (item y).id = q ∧
            ∃ k, batch[k]? = some y ∧ FirstAt (batch.map item) k (item y) := by
  obtain ⟨depth, law, rfl⟩ := prioritize_ok h
  intro j x hj
  rw [List.getElem?_map, Option.map_eq_some_iff] at hj
  obtain ⟨⟨d, x⟩, hj, rfl⟩ := hj
  obtain ⟨⟨i, -, hfirst⟩, hopen, rfl, hle⟩ := mem_handout.mp (List.mem_of_getElem? hj)
  refine ⟨⟨item x, hfirst.first?, hopen⟩, ?_⟩
  intro q hq
  have hlt : depth q < depth (item x).id := law.lt_of_transGen hq
  have hqopen : IsOpen (batch.map item) q := by
    obtain ⟨c, -, hlast⟩ := Relation.TransGen.tail'_iff.mp hq
    exact hlast.parent_isOpen
  have hqle : depth q ≤ s.maxDepth.toNat := by omega
  obtain ⟨k, y, hk, hyfirst, hid, hmem⟩ := exists_mem_handout hqopen hqle
  obtain ⟨i, hi, hget⟩ := position_lt_of_depth_lt pairwise_handout hj hmem hlt
  refine ⟨i, hi, y, ?_, hid, k, hk, hyfirst⟩
  rw [List.getElem?_map, hget]
  rfl

/-- The middle generation comes after the oldest; the bound keeps the youngest back. -/
theorem handout_threeGenerations : handout ⟨2⟩ threeGenerations generation =
    [(1, ⟨"a", ["d", "z"], false⟩), (2, ⟨"b", ["a", "a"], false⟩)] := by
  have hjudged : judgeAll ⟨2⟩ threeGenerations (.layout (threeGenerations.map item) generation) =
      [(⟨"c", ["a", "b"], false⟩, .tooDeep 3), (⟨"b", ["a", "a"], false⟩, .kept 2),
        (⟨"a", ["d", "z"], false⟩, .kept 1), (⟨"d", ["c"], true⟩, .completed),
        (⟨"c", [], false⟩, .repeated)] := by decide
  rw [handout, hjudged]
  simp [rank, List.mergeSort, List.MergeSort.Internal.splitInTwo]

theorem prioritize_ancestors_first_threeGenerations :
    (prioritize ⟨2⟩ threeGenerations).result =
        .ok [⟨"a", ["d", "z"], false⟩, ⟨"b", ["a", "a"], false⟩] ∧
      ∃ i < 1, ∃ y : Item,
        [⟨"a", ["d", "z"], false⟩, ⟨"b", ["a", "a"], false⟩][i]? = some y ∧ y.id = "a" := by
  have law : DepthLaw (threeGenerations.map item) generation := law_threeGenerations
  have hok := prioritize_of_law (s := ⟨2⟩) law
  rw [handout_threeGenerations] at hok
  have hawaits : Awaits (threeGenerations.map item) "b" "a" :=
    ⟨⟨"b", ["a", "a"], false⟩, by decide, rfl, by decide, ⟨"a", ["d", "z"], false⟩, by decide, rfl⟩
  obtain ⟨-, hbefore⟩ := prioritize_ancestors_first ⟨2⟩ threeGenerations hok 1 _ rfl
  obtain ⟨i, hi, y, hy, hid, -⟩ := hbefore "a" (.single hawaits)
  exact ⟨hok, i, hi, y, hy, hid⟩

end LeaseOrder.ParentsFirst
