/-
What a bound on the depth leaves of the order.

Depths are settled, or a cycle is found, before the bound is looked at, so it has no say in
either.  It decides which positions are handed out and nothing else, and as these come by
ascending depth, a lower bound keeps a front part of what a greater one hands out: the longest
one in which nothing is too deep.
-/
import LeaseOrder.Proofs.Order.Places

namespace LeaseOrder.ParentsFirst

open Ancestry Prioritizable

/-! ### Front parts of an order -/

section Front

variable {α : Type} {whole : List (Nat × α)} {bound : Nat}

/-- The longest front part of an order that goes no deeper than a bound. -/
structure IsFront (ranked whole : List (Nat × α)) (bound : Nat) : Prop where
  isPrefix : ranked <+: whole
  within : ∀ p ∈ ranked, p.1 ≤ bound
  longest : ∀ other, other <+: whole → (∀ p ∈ other, p.1 ≤ bound) → other <+: ranked

/-- Where depths ascend, nothing that is within the bound comes after something that is not. -/
theorem filter_eq_takeWhile (hsorted : whole.Pairwise fun a b => a.1 ≤ b.1) (bound : Nat) :
    whole.filter (fun p => p.1 ≤ bound) = whole.takeWhile fun p => p.1 ≤ bound := by
  induction whole with
  | nil => rfl
  | cons p rest ih =>
      obtain ⟨hhead, hrest⟩ := List.pairwise_cons.mp hsorted
      by_cases hp : p.1 ≤ bound
      · rw [List.filter_cons_of_pos (by simpa using hp),
          List.takeWhile_cons_of_pos (by simpa using hp), ih hrest]
      · have hnone : rest.filter (fun q => decide (q.1 ≤ bound)) = [] := by
          refine List.filter_eq_nil_iff.mpr fun q hq => ?_
          have hle := hhead q hq
          simp only [decide_eq_true_eq]
          omega
        rw [List.filter_cons_of_neg (by simpa using hp),
          List.takeWhile_cons_of_neg (by simpa using hp), hnone]

theorem isFront_filter (hsorted : whole.Pairwise fun a b => a.1 ≤ b.1) (bound : Nat) :
    IsFront (whole.filter fun p => p.1 ≤ bound) whole bound where
  isPrefix := by
    rw [filter_eq_takeWhile hsorted]
    exact List.takeWhile_prefix _
  within := by
    intro p hp
    simpa using (List.mem_filter.mp hp).2
  longest := by
    intro other hfront hwithin
    obtain ⟨rest, rfl⟩ := hfront
    rw [List.filter_append, List.filter_eq_self.mpr (by simpa using hwithin)]
    exact List.prefix_append _ _

end Front

variable {α : Type} [Prioritizable α] {s t : ParentsFirst} {batch : List α}
  {depth : String → Nat}

/-! ### Two bounds -/

/-- The lower bound takes those places of the greater one that are not too deep for it. -/
theorem places_of_le (hle : s.maxDepth ≤ t.maxDepth) :
    places (s.judgeAll batch (.layout (batch.map item) depth)) =
      (places (t.judgeAll batch (.layout (batch.map item) depth))).filter
        fun p => p.1 ≤ s.maxDepth.toNat := by
  have hbound : s.maxDepth.toNat ≤ t.maxDepth.toNat := UInt64.le_iff_toNat_le.mp hle
  have hfewer := (pairwise_places
    (t.judgeAll batch (.layout (batch.map item) depth))).filter fun p => p.1 ≤ s.maxDepth.toNat
  have hasymm : ∀ a b : Nat × Nat, Prod.Lex (· < ·) (· < ·) a b →
      Prod.Lex (· < ·) (· < ·) b a → a = b := by
    intro a b hab hba
    rw [Prod.lex_def] at hab hba
    omega
  -- Both lists ascend strictly, so it is enough that they hold the same places.
  refine List.Perm.eq_of_pairwise (fun a b _ _ => hasymm a b) (pairwise_places _) hfewer ?_
  refine (List.perm_ext_iff_of_nodup (nodup_places _).of_map ((nodup_places _).of_map.filter _)).mpr
    fun p => ?_
  obtain ⟨d, i⟩ := p
  rw [List.mem_filter, mem_places_judgeAll, mem_places_judgeAll, decide_eq_true_eq]
  refine ⟨?_, ?_⟩
  · intro h
    obtain ⟨hopen, hsettled, hwithin⟩ := h
    exact ⟨⟨hopen, hsettled, Nat.le_trans hwithin hbound⟩, hwithin⟩
  · intro h
    obtain ⟨⟨hopen, hsettled, -⟩, hwithin⟩ := h
    exact ⟨hopen, hsettled, hwithin⟩

/-- The lower bound hands out what the greater one hands out that is not too deep for it. -/
theorem handout_of_le (hle : s.maxDepth ≤ t.maxDepth) :
    s.handout batch depth = (t.handout batch depth).filter fun p => p.1 ≤ s.maxDepth.toNat := by
  let within : Nat × α → Bool := fun p => p.1 ≤ s.maxDepth.toNat
  let record : Nat × Nat → Option (Nat × α) := fun p => batch[p.2]?.map (p.1, ·)
  let handed := places (t.judgeAll batch (.layout (batch.map item) depth))
  -- A place tells the depth of the record that is there.
  have hsame : ∀ p ∈ handed, decide (p.1 ≤ s.maxDepth.toNat) = (record p).any within := by
    intro p hp
    obtain ⟨d, i⟩ := p
    obtain ⟨⟨x, hx, -⟩, -⟩ := mem_places_judgeAll.mp hp
    simp [record, within, hx]
  refine List.map_injective_iff.mpr (Option.some_injective _) ?_
  calc (s.handout batch depth).map some
      = (handed.filter fun p => decide (p.1 ≤ s.maxDepth.toNat)).map record := by
        rw [handout_eq_places, places_of_le hle]
    _ = (handed.filter fun p => (record p).any within).map record := by
        rw [List.filter_congr hsame]
    _ = ((t.handout batch depth).map some).filter fun o => o.any within := by
        rw [handout_eq_places, List.filter_map]
        rfl
    _ = ((t.handout batch depth).filter within).map some := by
        rw [List.filter_map]
        rfl

/-- **A bound only cuts off the deep end.**  Whatever the bound, the same shard is named as its
    own ancestor where there is one; where there is none, what is handed out is the longest front
    part, of what any greater bound hands out, that has nothing too deep in it. -/
theorem prioritizeRanked_isFront (hle : s.maxDepth ≤ t.maxDepth) (batch : List α) :
    (∃ id, Relation.TransGen (Awaits (batch.map item)) id id ∧
        (s.prioritizeRanked batch).result = .error (.circularDependency id) ∧
        (t.prioritizeRanked batch).result = .error (.circularDependency id)) ∨
      (∀ id, ¬ Relation.TransGen (Awaits (batch.map item)) id id) ∧
        ∃ ranked whole, (s.prioritizeRanked batch).result = .ok ranked ∧
          (t.prioritizeRanked batch).result = .ok whole ∧
          IsFront ranked whole s.maxDepth.toNat := by
  rcases resolve_spec (batch.map item) with ⟨depth, law, -⟩ | ⟨id, hcycle, herr⟩
  · refine Or.inr ⟨law.not_transGen_self, _, _, prioritizeRanked_of_law law,
      prioritizeRanked_of_law law, ?_⟩
    rw [handout_of_le hle]
    exact isFront_filter pairwise_handout _
  · exact Or.inl ⟨id, hcycle, prioritizeRanked_of_error herr, prioritizeRanked_of_error herr⟩

/-- Without a bound the youngest generation comes last, and the bound cuts it off. -/
theorem prioritizeRanked_isFront_threeGenerations :
    (⟨2⟩ : ParentsFirst).maxDepth ≤ unbounded.maxDepth ∧
      ∃ whole, (unbounded.prioritizeRanked threeGenerations).result = .ok whole ∧
        (3, ⟨"c", ["a", "b"], false⟩) ∈ whole ∧
        IsFront [(1, ⟨"a", ["d", "z"], false⟩), (2, ⟨"b", ["a", "a"], false⟩)] whole 2 := by
  have hle : (⟨2⟩ : ParentsFirst).maxDepth ≤ unbounded.maxDepth := by decide
  have law : DepthLaw (threeGenerations.map item) generation := law_threeGenerations
  have hranked := prioritizeRanked_of_law (s := ⟨2⟩) law
  have hwhole := prioritizeRanked_of_law (s := unbounded) law
  have hdeep : (3, ⟨"c", ["a", "b"], false⟩) ∈ unbounded.handout threeGenerations generation :=
    mem_handout.mpr ⟨⟨0, rfl, firstAt_iff.mpr (by decide)⟩, rfl, rfl, by decide⟩
  rw [handout_threeGenerations] at hranked
  rcases prioritizeRanked_isFront hle threeGenerations with ⟨id, hcycle, -⟩ |
    ⟨-, ranked, whole, hranked', hwhole', hfront⟩
  · exact absurd hcycle (law.not_transGen_self id)
  · obtain rfl := Except.ok.inj (hranked.symm.trans hranked')
    obtain rfl := Except.ok.inj (hwhole.symm.trans hwhole')
    exact ⟨hle, _, hwhole, hdeep, hfront⟩

end LeaseOrder.ParentsFirst
