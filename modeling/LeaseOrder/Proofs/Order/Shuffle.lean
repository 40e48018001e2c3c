/-
A seed gives the batches of one length one permutation.

The words of a seed are drawn in an order that hangs on the length of the batch only, since the
records are never looked at: `Shuffle.swaps` is computed before any of them is moved.  Each draw
is below its bound, so each swap stays in the batch, and swaps in a batch make a permutation of
its places, which carries every list of that length with it.

A draw is repeated for as long as its word is refused, and no bound on that is known for every
seed; `Stream.draw` gives up after `Stream.maxDraws` words.  `Draws` and `Swapping` are the loops
that never give up.  What is proved of swaps holds of theirs, and as long as they refuse no more
words than that for one number they are the loops that run.
-/
import Mathlib.Data.List.FinRange
import Mathlib.Logic.Equiv.Basic
import LeaseOrder.Order.Orderer

namespace LeaseOrder

/-! ### Numbers below a bound -/

namespace Random.Stream

/-- The lower half of the product of a word with `n` lies in the zone. -/
def IsGood (n : Nat) (w : UInt32) : Prop :=
  w.toNat * n % UInt32.size ≤ zone n

instance (n : Nat) (w : UInt32) : Decidable (IsGood n w) :=
  inferInstanceAs (Decidable (_ ≤ _))

/-- Words are drawn until one is good, however many are refused before it.  The number that has
    been drawn is the upper half of the product of the good word. -/
inductive Draws (n : Nat) : Nat → Stream → Nat → Stream → Prop
  | good {s : Stream} (hgood : IsGood n s.next.1) :
      Draws n 0 s (s.next.1.toNat * n / UInt32.size) s.next.2
  | refused {k j : Nat} {s s' : Stream} (hbad : ¬ IsGood n s.next.1)
      (hrest : Draws n k s.next.2 j s') : Draws n (k + 1) s j s'

/-- The upper half of the product of a word with a number is below that number. -/
theorem upper_lt {n : Nat} (hn : 0 < n) (w : UInt32) : w.toNat * n / UInt32.size < n := by
  refine Nat.div_lt_of_lt_mul ?_
  exact Nat.mul_lt_mul_of_pos_right w.toNat_lt hn

theorem Draws.lt {n k j : Nat} {s s' : Stream} (hn : 0 < n) (h : Draws n k s j s') : j < n := by
  induction h with
  | good _ => exact upper_lt hn _
  | refused _ _ ih => exact ih

/-- A draw that is given up is in range as well. -/
theorem draw_lt {n : Nat} (hn : 0 < n) (fuel : Nat) (s : Stream) : (draw n fuel s).1 < n := by
  induction fuel generalizing s with
  | zero => exact upper_lt hn _
  | succ fuel ih =>
    rw [draw]
    split
    · exact upper_lt hn _
    · exact ih _

/-- With fuel for the words that are refused, the number is the one that is drawn without end. -/
theorem draw_of_draws {n k j : Nat} {s s' : Stream} (h : Draws n k s j s') {fuel : Nat}
    (hfuel : k ≤ fuel) : draw n fuel s = (j, s') := by
  induction h generalizing fuel with
  | good hgood =>
    cases fuel with
    | zero => rfl
    | succ fuel =>
      rw [draw]
      exact if_pos hgood
  | refused hbad _ ih =>
    cases fuel with
    | zero => omega
    | succ fuel =>
      rw [draw]
      refine (if_neg hbad).trans (ih ?_)
      omega

/-- What is drawn without giving up is one number. -/
theorem Draws.unique {n k k' j j' : Nat} {s t t' : Stream} (h : Draws n k s j t)
    (h' : Draws n k' s j' t') : j = j' ∧ t = t' := by
  have hdraw := draw_of_draws h (Nat.le_max_left k k')
  have hdraw' := draw_of_draws h' (Nat.le_max_right k k')
  exact Prod.mk.inj (hdraw.symm.trans hdraw')

end Random.Stream

namespace Shuffle

open LeaseOrder.Random

/-! ### Swaps -/

/-- Every swap is of a place of the batch with one at or below it. -/
def InRange (n : Nat) (ps : List (Nat × Nat)) : Prop :=
  ∀ p ∈ ps, p.2 ≤ p.1 ∧ p.1 < n

/-- The swaps for a length as they are drawn without giving up, where no number takes more than
    `limit` words that are refused. -/
inductive Swapping (limit : Nat) : Nat → Stream → List (Nat × Nat) → Prop
  | done {n : Nat} {s : Stream} (hn : n ≤ 1) : Swapping limit n s []
  | swap {i k j : Nat} {s s' : Stream} {ps : List (Nat × Nat)} (hk : k ≤ limit)
      (hdraw : Stream.Draws (i + 2) k s j s') (hrest : Swapping limit (i + 1) s' ps) :
      Swapping limit (i + 2) s ((i + 1, j) :: ps)

theorem InRange.cons {n i j : Nat} {ps : List (Nat × Nat)} (h : InRange n ps) (hj : j ≤ i)
    (hi : i < n) : InRange n ((i, j) :: ps) := by
  intro p hp
  rcases List.mem_cons.mp hp with rfl | hp
  · exact ⟨hj, hi⟩
  · exact h p hp

theorem InRange.mono {m n : Nat} {ps : List (Nat × Nat)} (h : InRange m ps) (hle : m ≤ n) :
    InRange n ps :=
  fun p hp => ⟨(h p hp).1, Nat.lt_of_lt_of_le (h p hp).2 hle⟩

/-- **No swap leaves the batch**, however the draws go. -/
theorem inRange_swapsFrom (n : Nat) (s : Stream) : InRange n (swapsFrom n s) := by
  fun_induction swapsFrom n s with
  | case1 => simp [InRange]
  | case2 => simp [InRange]
  | case3 i s ih =>
    have hlt := Stream.draw_lt (Nat.succ_pos (i + 1)) Stream.maxDraws s
    exact (ih.mono (by omega)).cons (Nat.lt_succ_iff.mp hlt) (by omega)

theorem Swapping.inRange {limit n : Nat} {s : Stream} {ps : List (Nat × Nat)}
    (h : Swapping limit n s ps) : InRange n ps := by
  induction h with
  | done _ => simp [InRange]
  | @swap i _ _ _ _ _ _ hdraw _ ih =>
    have hlt := hdraw.lt (Nat.succ_pos (i + 1))
    exact (ih.mono (by omega)).cons (Nat.lt_succ_iff.mp hlt) (by omega)

/-- The swaps that are drawn without giving up are the swaps that are carried out, where no number
    takes more words than are drawn. -/
theorem Swapping.eq_swapsFrom {limit n : Nat} {s : Stream} {ps : List (Nat × Nat)}
    (h : Swapping limit n s ps) (hlimit : limit ≤ Stream.maxDraws) : ps = swapsFrom n s := by
  induction h with
  | @done n s hn =>
    match n with
    | 0 => rfl
    | 1 => rfl
  | @swap i k j s s' ps hk hdraw hrest ih =>
    have hbelow : s.below (i + 2) = (j, s') := Stream.draw_of_draws hdraw (hk.trans hlimit)
    rw [swapsFrom, hbelow, ← ih]

/-- A seed leads to one list of swaps without giving up, if to any. -/
theorem Swapping.unique {limit limit' n : Nat} {s : Stream} {ps ps' : List (Nat × Nat)}
    (h : Swapping limit n s ps) (h' : Swapping limit' n s ps') : ps = ps' := by
  induction h generalizing ps' with
  | done hn =>
    cases h' with
    | done _ => rfl
    | swap _ _ _ => omega
  | swap _ hdraw _ ih =>
    cases h' with
    | done hn => omega
    | swap _ hdraw' hrest' =>
      obtain ⟨rfl, rfl⟩ := hdraw.unique hdraw'
      rw [ih hrest']

/-! ### Permutations -/

/-- A permutation of places does to every list of that length what swaps do. -/
def Carries {n : Nat} (π : Equiv.Perm (Fin n)) (ps : List (Nat × Nat)) : Prop :=
  ∀ {α : Type} (f : Fin n → α), applySwaps (Array.ofFn f) ps = Array.ofFn (f ∘ π)

theorem swapIfInBounds_ofFn {α : Type} {n i j : Nat} (f : Fin n → α) (hi : i < n) (hj : j < n) :
    (Array.ofFn f).swapIfInBounds i j =
      Array.ofFn (f ∘ Equiv.swap (⟨i, hi⟩ : Fin n) ⟨j, hj⟩) := by
  refine Array.ext (by simp) fun k hk hk' => ?_
  simp only [Array.getElem_swapIfInBounds, Array.getElem_ofFn, Array.size_ofFn,
    Function.comp_apply, Equiv.swap_apply_def, Fin.mk.injEq, hi, hj, and_true]
  by_cases hki : k = i
  · rw [dif_pos hki, if_pos hki]
  · rw [dif_neg hki, if_neg hki]
    by_cases hkj : k = j
    · rw [dif_pos hkj, if_pos hkj]
    · rw [dif_neg hkj, if_neg hkj]

/-- **Swaps that stay in the batch make a permutation of its places.** -/
theorem exists_carries {n : Nat} {ps : List (Nat × Nat)} (h : InRange n ps) :
    ∃ π : Equiv.Perm (Fin n), Carries π ps := by
  induction ps with
  | nil => exact ⟨Equiv.refl _, fun f => rfl⟩
  | cons p ps ih =>
    obtain ⟨π, hπ⟩ := ih fun q hq => h q (List.mem_cons_of_mem p hq)
    obtain ⟨hle, hlt⟩ := h p List.mem_cons_self
    have hlt' : p.2 < n := Nat.lt_of_le_of_lt hle hlt
    refine ⟨π.trans (Equiv.swap ⟨p.1, hlt⟩ ⟨p.2, hlt'⟩), fun {α} f => ?_⟩
    calc applySwaps (Array.ofFn f) (p :: ps)
        = applySwaps ((Array.ofFn f).swapIfInBounds p.1 p.2) ps := rfl
      _ = Array.ofFn ((f ∘ Equiv.swap ⟨p.1, hlt⟩ ⟨p.2, hlt'⟩) ∘ π) := by
        rw [swapIfInBounds_ofFn f hlt hlt', hπ]
      _ = _ := rfl

/-- A list in the order that a permutation gives to its places. -/
def rearrange {α : Type} {n : Nat} (π : Equiv.Perm (Fin n)) (xs : List α) (h : xs.length = n) :
    List α :=
  List.ofFn fun i => xs.get ((π i).cast h.symm)

theorem perm_rearrange {α : Type} {n : Nat} (π : Equiv.Perm (Fin n)) (xs : List α)
    (h : xs.length = n) : (rearrange π xs h).Perm xs := by
  subst h
  have hperm := π.ofFn_comp_perm xs.get
  rwa [List.ofFn_get] at hperm

theorem map_rearrange {α β : Type} {n : Nat} (π : Equiv.Perm (Fin n)) (f : α → β) (xs : List α)
    (h : xs.length = n) (h' : (xs.map f).length = n) :
    (rearrange π xs h).map f = rearrange π (xs.map f) h' := by
  rw [rearrange, rearrange, List.map_ofFn]
  congr 1
  funext i
  simp

theorem applySwaps_toArray {α : Type} {n : Nat} {π : Equiv.Perm (Fin n)} {ps : List (Nat × Nat)}
    (hπ : Carries π ps) (xs : List α) (h : xs.length = n) :
    (applySwaps xs.toArray ps).toList = rearrange π xs h := by
  subst h
  have hxs : xs.toArray = Array.ofFn xs.get := by
    rw [← List.toArray_ofFn, List.ofFn_get]
  rw [hxs, hπ, Array.toList_ofFn]
  rfl

/-- **A seed is one permutation for each length.**  Every list of this length comes out in the
    order that the permutation gives to its places, whatever its elements are, whether the
    seed is the shuffle's own or is offered to it.  So no element is lost or made up, a list whose
    elements are changed by a function is shuffled as the list itself, and a batch in random order
    is there with all its records and without fail, be they repeats, completed or on a cycle.  The
    swaps behind the permutation stay in the batch, and they are the ones that are drawn without
    ever giving up, unless one number alone would take more than `Stream.maxDraws` words that are
    refused; the swaps drawn so are a fixed permutation in any case. -/
theorem seed_fixes_permutation (seed : UInt64) (n : Nat) :
    InRange n (swaps seed n) ∧
      (∀ limit ps, Swapping limit n (.ofSeed seed) ps →
        InRange n ps ∧ (∃ π : Equiv.Perm (Fin n), Carries π ps) ∧
          (∀ limit' ps', Swapping limit' n (.ofSeed seed) ps' → ps' = ps) ∧
          (limit ≤ Stream.maxDraws → ps = swaps seed n)) ∧
      ∃ π : Equiv.Perm (Fin n), ∀ {α : Type} (xs : List α) (h : xs.length = n) (s : Shuffle)
        (offered : UInt64), s.seed.getD offered = seed →
          s.shuffle offered xs = rearrange π xs h ∧
            (s.shuffle offered xs).Perm xs ∧
            (∀ {β : Type} (f : α → β),
              s.shuffle offered (xs.map f) = (s.shuffle offered xs).map f) ∧
            ∀ [Prioritizable α], ∃ ordered, (Orderer.shuffle s).order offered xs = .ok ordered ∧
              ordered = rearrange π xs h ∧ ordered.Perm xs := by
  have hrange : InRange n (swaps seed n) := inRange_swapsFrom n _
  obtain ⟨π, hπ⟩ := exists_carries hrange
  have hpermute : ∀ {α : Type} (xs : List α) (h : xs.length = n),
      permute seed xs = rearrange π xs h := by
    intro α xs h
    rw [permute, h]
    exact applySwaps_toArray hπ xs h
  refine ⟨hrange, fun limit ps hps => ⟨hps.inRange, exists_carries hps.inRange, ?_, ?_⟩, π, ?_⟩
  · intro limit' ps' hps'
    exact hps'.unique hps
  · intro hlimit
    exact hps.eq_swapsFrom hlimit
  · intro α xs h s offered hseed
    have hshuffle : ∀ {β : Type} (ys : List β) (hys : ys.length = n),
        s.shuffle offered ys = rearrange π ys hys := by
      intro β ys hys
      rw [shuffle, hseed, hpermute ys hys]
    refine ⟨hshuffle xs h, ?_, ?_, ?_⟩
    · rw [hshuffle xs h]
      exact perm_rearrange π xs h
    · intro β f
      have hmap : (xs.map f).length = n := by rw [List.length_map, h]
      rw [hshuffle _ hmap, hshuffle xs h, map_rearrange π f xs h hmap]
    · intro _
      exact ⟨_, congrArg Except.ok (hshuffle xs h), rfl, perm_rearrange π xs h⟩

/-- A shuffle of three, for which no word is refused. -/
theorem seed_fixes_permutation_three :
    (∃ ps, Swapping 0 3 (.ofSeed 42) ps ∧ ps = swaps 42 3) ∧
      permute 42 ["a", "b", "c"] = ["c", "b", "a"] ∧
      ["c", "b", "a"].Perm ["a", "b", "c"] := by
  obtain ⟨-, hswaps, π, hπ⟩ := seed_fixes_permutation 42 3
  have hdrawn := Swapping.swap (Nat.le_refl 0)
    (Stream.Draws.good (n := 3) (s := .ofSeed 42) (by decide +kernel))
    (.swap (Nat.le_refl 0) (.good (by decide +kernel)) (.done (Nat.le_refl 1)))
  have hpermute : permute 42 ["a", "b", "c"] = ["c", "b", "a"] := by decide +kernel
  obtain ⟨-, hperm, -⟩ := hπ ["a", "b", "c"] rfl ⟨some 42⟩ 0 rfl
  refine ⟨⟨_, hdrawn, (hswaps _ _ hdrawn).2.2.2 (Nat.zero_le _)⟩, hpermute, ?_⟩
  rw [← hpermute]
  exact hperm

end Shuffle

end LeaseOrder
