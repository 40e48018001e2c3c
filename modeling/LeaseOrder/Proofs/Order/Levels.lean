/-
The levels of a batch.

A shard of depth two or more awaits one that is exactly one less deep, so the depths that occur
are all the numbers from one up to the greatest.  Along a chain of open shards no shard comes
twice, so no depth exceeds the number of open shards.  The walk counts depths up parent by
parent, and at no time does one of its frames know of a parent as deep as that number.  For the
order this means that a bound leaves out whole levels from the deep end, never the first one, and
that a bound as great as the number of open shards leaves out nothing.
-/
import LeaseOrder.Proofs.Order.Bound

namespace LeaseOrder

open Ancestry Prioritizable

variable {batch : List Item} {depth : String → Nat}

/-! ### What the frames of the walk know -/

namespace Walk

variable {marks : Std.HashMap String Mark} {w : Walk}

/-- A depth that is settled while the walk runs is the lawful one. -/
theorem Sound.depth_eq (h : Sound batch w) (law : DepthLaw batch depth) :
    ∀ (d : Nat) (id : String), w.marks[id]? = some (.resolved d) → depth id = d := by
  intro d
  induction d using Nat.strong_induction_on with
  | _ d ih =>
      intro id hmark
      obtain ⟨x, hx, hdue⟩ := h.lawful id d hmark
      rcases hdue with ⟨hc, rfl⟩ | ⟨hopen, n, rfl, hheard⟩
      · exact law.completed_eq hx hc
      · have hle : deepest batch depth x ≤ n := by
          refine deepest_le fun p hp hin => ?_
          obtain ⟨e, he, hpe⟩ := hheard.le p (Graph.mem_parents.mpr ⟨hp, hin⟩)
          rw [ih e (by omega) p hpe]
          exact he
        have hge : n ≤ deepest batch depth x := by
          rcases hheard.attained with rfl | ⟨p, hp, hpn⟩
          · exact Nat.zero_le _
          · obtain ⟨hmem, hin⟩ := Graph.mem_parents.mp hp
            have hdepth := ih n (by omega) p hpn
            have hmax : depth p ≤ deepest batch depth x := le_deepest hmem hin
            omega
        rw [law.open_eq hx hopen]
        omega

/-- Each frame has heard from some parents of its shard. -/
theorem heard_of_waits {g : Graph} :
    ∀ {fs : List Frame} {next : String}, Waits g marks next fs →
      ∀ f ∈ fs, ∃ read, read ⊆ g.parents f.item ∧ Heard marks read f.deepest := by
  intro fs
  induction fs with
  | nil => intro next _ f hf; simp at hf
  | cons f fs ih =>
      intro next h e he
      obtain ⟨⟨read, hsplit, hheard⟩, hrest⟩ := h
      rcases List.mem_cons.mp he with rfl | he
      · exact ⟨read, by simp [hsplit], hheard⟩
      · exact ih hrest e he

theorem Sound.heard (h : Sound batch w) :
    ∀ f ∈ w.stack, ∃ read, read ⊆ (Graph.ofBatch batch).parents f.item ∧
      Heard w.marks read f.deepest := by
  intro f hf
  have hreads := h.reads
  cases hstack : w.stack with
  | nil =>
      rw [hstack] at hf
      simp at hf
  | cons e fs =>
      rw [hstack] at hreads hf
      obtain ⟨⟨read, hsplit, hheard⟩, hwait⟩ := hreads
      rcases List.mem_cons.mp hf with rfl | hf
      · exact ⟨read, by simp [hsplit], hheard⟩
      · exact heard_of_waits hwait f hf

/-- **A frame knows of no parent as deep as its own shard is going to be.** -/
theorem Sound.deepest_lt (h : Sound batch w) (law : DepthLaw batch depth) {f : Frame}
    (hf : f ∈ w.stack) : f.deepest < depth f.item.id := by
  obtain ⟨hfirst, hopen⟩ := h.frames f.item (List.mem_map_of_mem hf)
  obtain ⟨read, hsub, hheard⟩ := h.heard f hf
  rw [law.open_eq hfirst hopen]
  rcases hheard.attained with hzero | ⟨p, hp, hmark⟩
  · omega
  · obtain ⟨hmem, hin⟩ := Graph.mem_parents.mp (hsub hp)
    have hmax : depth p ≤ deepest batch depth f.item := le_deepest hmem hin
    rw [h.depth_eq law _ p hmark] at hmax
    omega

end Walk

/-! ### Levels -/

/-- The depths of a batch make levels without a gap, no more of them than there are open shards. -/
structure Levels (batch : List Item) (depths : Depths) : Prop where
  depth_le : ∀ i d, depths.get i = some d → d ≤ (openIds batch).length
  /-- Counting up from the deepest parent stays within that number all the way. -/
  deepest_lt : ∀ w : Walk, Walk.Reached (.ofBatch batch) w →
    ∀ f ∈ w.stack, f.deepest + 1 ≤ (openIds batch).length
  openIds_le : (openIds batch).length ≤ batch.length
  /-- The greatest depth is the greatest of the depths, or 0 where there is none. -/
  isGreatest_max : IsGreatest {n | n = 0 ∨ ∃ i, depths.get i = some n} depths.max
  exists_depth : ∀ j, 0 < j → j ≤ depths.max →
    ∃ i x, FirstAt batch i x ∧ x.completed = false ∧ depths.get i = some j

theorem exists_isOpen_of_le_max (law : DepthLaw batch depth) {j : Nat} (hpos : 0 < j)
    (hle : j ≤ (Depths.layout batch depth).max) : ∃ id, IsOpen batch id ∧ depth id = j := by
  rcases (Depths.isGreatest_max (.layout batch depth)).1 with hzero | ⟨i, hi⟩
  · omega
  · obtain ⟨x, hx, hd⟩ := Depths.get_layout.mp hi
    -- What is deeper than 0 is open.
    have hopen : x.completed = false := by
      by_contra hc
      have hzero := law.completed_eq hx.first? (by simpa using hc)
      omega
    exact law.exists_depth_eq hpos (depth x.id - j) x.id ⟨x, hx.first?, hopen⟩ (by omega)

theorem levels_of_law (law : DepthLaw batch depth) : Levels batch (.layout batch depth) where
  depth_le := by
    intro i d hd
    obtain ⟨x, hx, rfl⟩ := Depths.get_layout.mp hd
    exact law.le_length_openIds (by rw [hx.first?]; rfl)
  deepest_lt := by
    intro w hw f hf
    obtain ⟨hfirst, -⟩ := hw.sound.frames f.item (List.mem_map_of_mem hf)
    exact Nat.lt_of_lt_of_le (hw.sound.deepest_lt law hf)
      (law.le_length_openIds (by rw [hfirst]; rfl))
  openIds_le := length_openIds_le batch
  isGreatest_max := Depths.isGreatest_max _
  exists_depth := by
    intro j hpos hle
    obtain ⟨id, ⟨x, hx, hopen⟩, rfl⟩ := exists_isOpen_of_le_max law hpos hle
    obtain ⟨rfl, i, hfirst⟩ := first?_eq_some_iff.mp hx
    exact ⟨i, x, hfirst, hopen, Depths.get_layout_of_firstAt hfirst⟩

namespace ParentsFirst

variable {α : Type} [Prioritizable α] {s : ParentsFirst} {batch : List α}

/-- A bound as great as the number of open shards leaves nothing out. -/
theorem handout_eq_unbounded (law : DepthLaw (batch.map item) depth)
    (hle : (openIds (batch.map item)).length ≤ s.maxDepth.toNat) :
    s.handout batch depth = unbounded.handout batch depth := by
  have hmax : s.maxDepth ≤ unbounded.maxDepth := by
    rw [UInt64.le_iff_toNat_le]
    exact Nat.le_of_lt_succ s.maxDepth.toNat_lt
  rw [handout_of_le hmax, List.filter_eq_self]
  intro p hp
  obtain ⟨⟨i, -, hfirst⟩, -, hdepth, -⟩ := mem_handout.mp (show (p.1, p.2) ∈ _ from hp)
  have hopen := law.le_length_openIds (show (first? _ (item p.2).id).isSome by
    rw [hfirst.first?]
    rfl)
  simp only [decide_eq_true_eq]
  omega

/-- **The depths of a batch are levels without a gap, at most as many as there are open shards,
    and a bound hands out the first levels.**  So nothing is handed out only where nothing is
    open, and a bound that is not less than the number of open shards is none. -/
theorem prioritize_levels {depths : Depths}
    (h : (resolve (batch.map item)).result = .ok depths) :
    Levels (batch.map item) depths ∧
      ∀ (m : Option Int64) (s : ParentsFirst), ofMaxDepth m = .ok s →
        ((s.prioritize batch).result = .ok [] ↔ (openIds (batch.map item)).length = 0) ∧
        (∃ ranked, (s.prioritizeRanked batch).result = .ok ranked ∧
          ∀ j, 0 < j → j ≤ min (bound m) depths.max → ∃ x, (j, x) ∈ ranked) ∧
        ((openIds (batch.map item)).length ≤ bound m →
          (s.prioritizeRanked batch).result = (unbounded.prioritizeRanked batch).result ∧
            (s.prioritize batch).result = (unbounded.prioritize batch).result) := by
  obtain ⟨depth, law, rfl⟩ := resolve_ok h
  refine ⟨levels_of_law law, ?_⟩
  intro m s hs
  rw [← maxDepth_eq_bound hs, prioritize_of_law law, prioritize_of_law law,
    prioritizeRanked_of_law law, prioritizeRanked_of_law law]
  refine ⟨?_, ⟨_, rfl, ?_⟩, ?_⟩
  · rw [Except.ok.injEq, List.map_eq_nil_iff, handout_eq_nil_iff (maxDepth_pos hs) law,
      List.length_eq_zero_iff, openIds_eq_nil_iff]
  · intro j hpos hle
    obtain ⟨id, hopen, rfl⟩ := exists_isOpen_of_le_max law hpos (by omega)
    obtain ⟨i, x, -, -, -, hmem⟩ := exists_mem_handout hopen
      (show depth id ≤ s.maxDepth.toNat by omega)
    exact ⟨x, hmem⟩
  · intro hle
    rw [handout_eq_unbounded law hle]
    exact ⟨rfl, rfl⟩

/-- Three open shards in three levels, and none deeper than three; a bound of three is as good as
    none. -/
theorem prioritize_levels_threeGenerations :
    (resolve (threeGenerations.map item)).result =
        .ok ⟨[some 3, some 2, some 1, some 0, none]⟩ ∧
      (openIds (threeGenerations.map item)).length = 3 ∧
      IsGreatest {n | n = 0 ∨
        ∃ i, (⟨[some 3, some 2, some 1, some 0, none]⟩ : Depths).get i = some n} 3 ∧
      (∃ i x, FirstAt (threeGenerations.map item) i x ∧ x.completed = false ∧
        (⟨[some 3, some 2, some 1, some 0, none]⟩ : Depths).get i = some 2) ∧
      (prioritize ⟨1⟩ threeGenerations).result ≠ .ok [] ∧
      (prioritize ⟨3⟩ threeGenerations).result =
        (unbounded.prioritize threeGenerations).result := by
  have hok : (resolve (threeGenerations.map item)).result =
      .ok ⟨[some 3, some 2, some 1, some 0, none]⟩ := resolve_of_law law_threeGenerations
  have hopen : (openIds (threeGenerations.map item)).length = 3 := by decide
  obtain ⟨hlevels, horder⟩ := prioritize_levels hok
  obtain ⟨hnil, -, -⟩ := horder (some 1) ⟨1⟩ (by decide)
  obtain ⟨-, -, hunbounded⟩ := horder (some 3) ⟨3⟩ (by decide)
  have hthree : (openIds (threeGenerations.map item)).length ≤ bound (some 3) := by
    rw [hopen]
    decide
  refine ⟨hok, hopen, hlevels.isGreatest_max, hlevels.exists_depth 2 (by decide) (by decide), ?_,
    (hunbounded hthree).2⟩
  rw [Ne, hnil, hopen]
  decide

end ParentsFirst

end LeaseOrder
