/-
Where the walk ends.

`Reached` are the states that a walk over a graph goes through, from the empty stack by
entering starting points and by turns, so whatever a turn keeps holds in all of them.
A run stops in one of two such states.

  * Every shard of the batch has been entered and none is open.  The settled depths then
    obey the law of depths.
  * The next parent of the topmost shard is in progress.  That parent then awaits itself.
-/
import LeaseOrder.Proofs.Depth.Walk

namespace LeaseOrder.Walk

open Ancestry

variable {g : Graph} {batch : List Item}

/-! ### Whole runs -/

/-- The states that a walk over a graph goes through. -/
inductive Reached (g : Graph) : Walk → Prop
  | start : Reached g start
  | enter {w : Walk} {x : Item} (h : Reached g w) (hidle : w.stack = []) (hx : x ∈ g.firsts)
      (hmark : w.marks[x.id]? = none) : Reached g (enter g w x)
  | turn {w w' : Walk} (h : Reached g w) (hstep : step g w = .next w') : Reached g w'

theorem Reached.sound {w : Walk} (h : Reached (.ofBatch batch) w) : Sound batch w := by
  induction h with
  | start => exact sound_start
  | @enter w x _ hidle hx hmark ih =>
      have hwait : Waits (.ofBatch batch) w.marks x.id w.stack := by
        rw [hidle]
        trivial
      exact enter_sound ih.toConsistent hwait (Graph.mem_firsts.mp hx) hmark
  | turn _ hstep ih => exact ih.step hstep

theorem stack_of_finished {g : Graph} {w w' : Walk} (h : step g w = .finished w') :
    w' = w ∧ w.stack = [] := by
  obtain ⟨marks, stack, settled⟩ := w
  match stack with
  | [] =>
      simp only [step, Turn.finished.injEq] at h
      exact ⟨h.symm, rfl⟩
  | ⟨x, [], deepest⟩ :: fs => simp [step] at h
  | ⟨x, p :: ps, deepest⟩ :: fs =>
      simp only [step] at h
      split at h
      · simp at h
      · simp at h
      · split at h <;> simp at h

/-- A walk that fails has read the ID that it names, and nothing else has changed. -/
theorem eq_of_cycle {w w' : Walk} {id : String} (h : step g w = .cycle w' id) :
    ∃ x ps deepest fs, w.stack = ⟨x, id :: ps, deepest⟩ :: fs ∧
      w' = ⟨w.marks, ⟨x, ps, deepest⟩ :: fs, w.settled⟩ := by
  obtain ⟨marks, stack, settled⟩ := w
  obtain ⟨x, ps, deepest, fs, hstack, hmark⟩ := step_cycle h
  obtain rfl : stack = _ := hstack
  simp only [step, show marks[id]? = some .inProgress from hmark, Turn.cycle.injEq, and_true] at h
  exact ⟨x, ps, deepest, fs, rfl, h.symm⟩

theorem contains_enter {w : Walk} {x : Item} {id : String} :
    (enter g w x).marks.contains id = true ↔ x.id = id ∨ w.marks.contains id = true := by
  unfold enter
  split <;> simp

/-- A shard that has been entered keeps a mark. -/
theorem contains_of_step {w w' : Walk} (h : step g w = .next w') {id : String}
    (hid : w.marks.contains id = true) : w'.marks.contains id = true := by
  cases advance_of_step h with
  | settle => simp [hid]
  | hear _ => exact hid
  | meet _ _ => exact contains_enter.mpr (Or.inr hid)
  | skip _ _ => exact hid

theorem run_finished {w w' : Walk} (h : step g w = .finished w') : run g w = (w', none) := by
  unfold run
  split <;> simp_all

theorem run_cycle {w w' : Walk} {id : String} (h : step g w = .cycle w' id) :
    run g w = (w', some id) := by
  unfold run
  split <;> simp_all

theorem run_next {w w' : Walk} (h : step g w = .next w') : run g w = run g w' := by
  conv_lhs => unfold run
  split <;> simp_all

/-- A run ends in a reached state, with no shard open or at a cycle. -/
theorem run_reached {w : Walk} (h : Reached g w) :
    ∃ v, Reached g v ∧ (∀ id, w.marks.contains id = true → v.marks.contains id = true) ∧
      ((run g w = (v, none) ∧ v.stack = []) ∨
        ∃ v' id, run g w = (v', some id) ∧ step g v = .cycle v' id) := by
  induction w using run.induct g with
  | case1 w w' hstep =>
      obtain ⟨rfl, hidle⟩ := stack_of_finished hstep
      exact ⟨w', h, fun _ hid => hid, Or.inl ⟨run_finished hstep, hidle⟩⟩
  | case2 w w' id hstep =>
      exact ⟨w, h, fun _ hid => hid, Or.inr ⟨w', id, run_cycle hstep, hstep⟩⟩
  | case3 w w' hstep ih =>
      obtain ⟨v, hv, hkeeps, hend⟩ := ih (h.turn hstep)
      rw [run_next hstep]
      exact ⟨v, hv, fun id hid => hkeeps id (contains_of_step hstep hid), hend⟩

/-- The walk over a list of starting points, of which all have been entered in the end. -/
theorem visit_reached :
    ∀ (xs : List Item) {w : Walk}, (∀ x ∈ xs, x ∈ g.firsts) → Reached g w → w.stack = [] →
      ∃ v, Reached g v ∧ (∀ id, w.marks.contains id = true → v.marks.contains id = true) ∧
        ((visit g xs w = (v, none) ∧ v.stack = [] ∧
            ∀ x ∈ xs, v.marks.contains x.id = true) ∨
          ∃ v' id, visit g xs w = (v', some id) ∧ step g v = .cycle v' id) := by
  intro xs
  induction xs with
  | nil => intro w _ h hidle; exact ⟨w, h, fun _ hid => hid, Or.inl ⟨rfl, hidle, by simp⟩⟩
  | cons x xs ih =>
      intro w hxs h hidle
      have hrest : ∀ y ∈ xs, y ∈ g.firsts := fun y hy => hxs y (by simp [hy])
      by_cases hc : w.marks.contains x.id = true
      · obtain ⟨v, hv, hkeeps, hend⟩ := ih hrest h hidle
        refine ⟨v, hv, hkeeps, ?_⟩
        rw [visit, if_pos hc]
        rcases hend with ⟨hvisit, hstack, hall⟩ | hcycle
        · refine Or.inl ⟨hvisit, hstack, ?_⟩
          intro y hy
          rcases List.mem_cons.mp hy with rfl | hy
          · exact hkeeps _ hc
          · exact hall y hy
        · exact Or.inr hcycle
      · have hmark : w.marks[x.id]? = none := by simpa using hc
        obtain ⟨u, hu, hkeeps, hend⟩ := run_reached (h.enter hidle (hxs x (by simp)) hmark)
        have henter : ∀ id, x.id = id ∨ w.marks.contains id = true → u.marks.contains id = true :=
          fun id hid => hkeeps id (contains_enter.mpr hid)
        rw [visit, if_neg hc]
        rcases hend with ⟨hrun, hstack⟩ | ⟨v', id, hrun, hstep⟩
        · obtain ⟨v, hv, hkeeps', hend⟩ := ih hrest hu hstack
          refine ⟨v, hv, fun id hid => hkeeps' id (henter id (Or.inr hid)), ?_⟩
          rw [hrun]
          rcases hend with ⟨hvisit, hstack, hall⟩ | hcycle
          · refine Or.inl ⟨hvisit, hstack, ?_⟩
            intro y hy
            rcases List.mem_cons.mp hy with rfl | hy
            · exact hkeeps' _ (henter _ (Or.inl rfl))
            · exact hall y hy
          · exact Or.inr hcycle
        · refine ⟨u, hu, fun id hid => henter id (Or.inr hid), Or.inr ⟨v', id, ?_, hstep⟩⟩
          rw [hrun]

/-! ### What the whole walk finds -/

/-- The settled depth of a shard, 0 where there is none. -/
def settledDepth (w : Walk) (id : String) : Nat :=
  (w.depth? id).getD 0

theorem depth?_of_mark {w : Walk} {id : String} {d : Nat}
    (h : w.marks[id]? = some (.resolved d)) : w.depth? id = some d := by
  simp [depth?, h]

theorem settledDepth_of_mark {w : Walk} {id : String} {d : Nat}
    (h : w.marks[id]? = some (.resolved d)) : w.settledDepth id = d := by
  rw [settledDepth, depth?_of_mark h, Option.getD_some]

/-- Where no shard is open any more, a shard that has been entered has the depth it is due. -/
theorem Sound.due_of_contains {w : Walk} (h : Sound batch w) (hidle : w.stack = []) {x : Item}
    (hx : first? batch x.id = some x) (hc : w.marks.contains x.id = true) :
    ∃ d, w.marks[x.id]? = some (.resolved d) ∧ Due (.ofBatch batch) w.marks x d := by
  rw [Std.HashMap.contains_eq_isSome_getElem?] at hc
  obtain ⟨m, hm⟩ := Option.isSome_iff_exists.mp hc
  cases m with
  | inProgress =>
      have hopen := (h.inProgress x.id).mp hm
      simp [hidle] at hopen
  | resolved d =>
      obtain ⟨y, hy, hdue⟩ := h.lawful x.id d hm
      obtain rfl := Option.some.inj (hx.symm.trans hy)
      exact ⟨d, hm, hdue⟩

/-- A depth that is due obeys the law. -/
theorem Due.eq {w : Walk} {x : Item} {d : Nat} (h : Due (.ofBatch batch) w.marks x d) :
    d = if x.completed then 0 else 1 + deepest batch w.settledDepth x := by
  rcases h with ⟨hc, rfl⟩ | ⟨hopen, m, rfl, hheard⟩
  · rw [if_pos hc]
  · have hle : deepest batch w.settledDepth x ≤ m := by
      refine deepest_le fun p hp hin => ?_
      obtain ⟨d, hdm, hd⟩ := hheard.le p (Graph.mem_parents.mpr ⟨hp, hin⟩)
      rw [settledDepth_of_mark hd]
      exact hdm
    have hge : m ≤ deepest batch w.settledDepth x := by
      rcases hheard.attained with rfl | ⟨p, hp, hd⟩
      · exact Nat.zero_le _
      · obtain ⟨hmem, hin⟩ := Graph.mem_parents.mp hp
        rw [← settledDepth_of_mark hd]
        exact le_deepest hmem hin
    rw [if_neg (by simp [hopen])]
    omega

/-- **The whole walk finds lawful depths, or a shard that awaits itself.** -/
theorem ofGraph_spec (batch : List Item) :
    (∃ w, ofGraph (.ofBatch batch) = (w, none) ∧ DepthLaw batch w.settledDepth ∧
        ∀ id, (first? batch id).isSome = true → w.depth? id = some (w.settledDepth id)) ∨
      ∃ w id, ofGraph (.ofBatch batch) = (w, some id) ∧
        Relation.TransGen (Awaits batch) id id := by
  obtain ⟨w, hw, -, hend⟩ :=
    visit_reached (g := .ofBatch batch) _ (fun x hx => hx) Reached.start rfl
  rcases hend with ⟨hvisit, hidle, hall⟩ | ⟨w', id, hvisit, hstep⟩
  · have hdue : ∀ id x, first? batch id = some x →
        ∃ d, w.marks[id]? = some (.resolved d) ∧ Due (.ofBatch batch) w.marks x d := by
      intro id x hx
      obtain rfl := id_of_first? hx
      exact hw.sound.due_of_contains hidle hx (hall x (Graph.mem_firsts.mpr hx))
    refine Or.inl ⟨w, hvisit, ?_, ?_⟩
    · intro id x hx
      obtain ⟨d, hd, hdue⟩ := hdue id x hx
      rw [settledDepth_of_mark hd]
      exact hdue.eq
    · intro id hin
      obtain ⟨x, hx⟩ := Option.isSome_iff_exists.mp hin
      obtain ⟨d, hd, -⟩ := hdue id x hx
      rw [depth?_of_mark hd, settledDepth_of_mark hd]
  · exact Or.inr ⟨w', id, hvisit, hw.sound.transGen_of_cycle hstep⟩

end LeaseOrder.Walk
