/-
One walk seen in another.

A batch can be shown under other names, and without some of its completed shards.  The walk
over what is shown goes along with the walk over the batch: a turn that reads a parent that
is shown is the same turn under the new names, and a turn that reads a hidden one leaves no
trace.  A hidden shard is completed, so it has depth 0, and no frame is deeper for having
read it.  So both walks find the same depths, or they fail at the same shard.
-/
import LeaseOrder.Proofs.Depth.Resolve

namespace LeaseOrder

open Ancestry

/-- The item under other names. -/
def Item.rename (name : String → String) (x : Item) : Item :=
  ⟨name x.id, x.parents.map name, x.completed⟩

@[simp] theorem Item.rename_same (x : Item) : x.rename (fun id => id) = x := by
  simp [rename]

@[simp] theorem Item.map_rename_same (xs : List Item) : xs.map (rename fun id => id) = xs := by
  rw [funext rename_same, List.map_id']

/-- The other batch shows the shards of a batch under other names, without some completed
    ones. -/
structure Mirrors (name : String → String) (shown : String → Bool) (batch other : List Item) :
    Prop where
  /-- What is shown stands for its name in the other batch. -/
  first : ∀ id x, first? batch id = some x → shown id = true →
    first? other (name id) = some (x.rename name)
  /-- What is hidden is completed. -/
  hidden : ∀ id x, first? batch id = some x → shown id = false → x.completed = true
  /-- An open shard has no other parents in the other batch than those that are shown. -/
  parents : ∀ id x, first? batch id = some x → x.completed = false → ∀ p ∈ x.parents,
    (first? other (name p)).isSome = true → (first? batch p).isSome = true ∧ shown p = true
  /-- Different shards have different names. -/
  inj : ∀ p q, (first? batch p).isSome = true → (first? batch q).isSome = true →
    shown p = true → shown q = true → name p = name q → p = q

variable {name : String → String} {shown : String → Bool} {batch other : List Item}

/-- The parents of an open shard in the other batch are those that are shown. -/
theorem Mirrors.parents_rename (h : Mirrors name shown batch other) {x : Item}
    (hx : first? batch x.id = some x) (hopen : x.completed = false) :
    (Graph.ofBatch other).parents (x.rename name) =
      (((Graph.ofBatch batch).parents x).filter shown).map name := by
  have hin : ∀ p ∈ x.parents, (first? other (name p)).isSome =
      (shown p && (first? batch p).isSome) := by
    intro p hp
    rw [Bool.eq_iff_iff, Bool.and_eq_true]
    refine ⟨fun hother => (h.parents x.id x hx hopen p hp hother).symm, ?_⟩
    intro hboth
    obtain ⟨hshown, hbatch⟩ := hboth
    obtain ⟨y, hy⟩ := Option.isSome_iff_exists.mp hbatch
    rw [h.first p y hy hshown]
    rfl
  rw [Graph.parents_ofBatch, Graph.parents_ofBatch, List.filter_reverse, List.map_reverse,
    List.filter_filter, Item.rename, List.filter_map]
  congr 2
  exact List.filter_congr hin

/-- An open shard as the walk over the other batch has it. -/
def Frame.mirror (name : String → String) (shown : String → Bool) (f : Frame) : Frame :=
  ⟨f.item.rename name, (f.unread.filter shown).map name, f.deepest⟩

namespace Walk

/-- An open shard that is shown, with parents still to be read that are in the batch. -/
def Seen (shown : String → Bool) (batch : List Item) (f : Frame) : Prop :=
  first? batch f.item.id = some f.item ∧ shown f.item.id = true ∧
    ∀ p ∈ f.unread, (first? batch p).isSome = true

theorem seen_report {d : Nat} {fs : List Frame} (h : ∀ f ∈ fs, Seen shown batch f) :
    ∀ f ∈ report d fs, Seen shown batch f := by
  intro f hf
  cases fs with
  | nil => simp [report] at hf
  | cons top fs =>
      rcases List.mem_cons.mp hf with rfl | hf
      · exact h top List.mem_cons_self
      · exact h f (List.mem_cons_of_mem _ hf)

theorem report_mirror (d : Nat) (fs : List Frame) :
    report d (fs.map (Frame.mirror name shown)) = (report d fs).map (Frame.mirror name shown) := by
  cases fs with
  | nil => rfl
  | cons f fs => rfl

/-! ### States -/

/-- A state of the walk over the other batch shows a state of the walk over the batch. -/
structure Reflects (name : String → String) (shown : String → Bool) (batch : List Item)
    (w w' : Walk) : Prop where
  /-- The frames are the same, with the hidden parents left out. -/
  stack : w'.stack = w.stack.map (Frame.mirror name shown)
  /-- What is shown is marked alike. -/
  marks : ∀ id, (first? batch id).isSome = true → shown id = true →
    w'.marks[name id]? = w.marks[id]?
  /-- What is hidden has depth 0 as soon as it is entered. -/
  hidden : ∀ id, shown id = false → w.marks[id]? = none ∨ w.marks[id]? = some (.resolved 0)
  /-- No hidden shard is on the stack. -/
  seen : ∀ f ∈ w.stack, Seen shown batch f

variable {w w' v : Walk}

theorem reflects_start : Reflects name shown batch start start where
  stack := rfl
  marks := by simp [start]
  hidden := by simp [start]
  seen := by simp [start]

/-- A mark under one name is a mark under the other. -/
theorem marks_insert (h : Mirrors name shown batch other) (hr : Reflects name shown batch w w')
    {q : String} (hq : (first? batch q).isSome = true) (hshown : shown q = true) (m : Mark) :
    ∀ id, (first? batch id).isSome = true → shown id = true →
      (w'.marks.insert (name q) m)[name id]? = (w.marks.insert q m)[id]? := by
  intro id hid hidshown
  rw [Std.HashMap.getElem?_insert, Std.HashMap.getElem?_insert]
  by_cases heq : q = id
  · simp [heq]
  · have hne : name q ≠ name id := fun hname => heq (h.inj q id hq hid hshown hidshown hname)
    rw [if_neg (by simpa using hne), if_neg (by simpa using heq)]
    exact hr.marks id hid hidshown

/-- Marking a shard that is shown leaves the hidden ones as they are. -/
theorem hidden_insert (hr : Reflects name shown batch w w') {q : String}
    (hshown : shown q = true) (m : Mark) :
    ∀ id, shown id = false → (w.marks.insert q m)[id]? = none ∨
      (w.marks.insert q m)[id]? = some (.resolved 0) := by
  intro id hid
  have hne : q ≠ id := by
    intro heq
    rw [heq, hid] at hshown
    cases hshown
  rw [Std.HashMap.getElem?_insert, if_neg (by simpa using hne)]
  exact hr.hidden id hid

/-- Entering a shard that is shown. -/
theorem enter_reflects (h : Mirrors name shown batch other)
    (hr : Reflects name shown batch w w') {y : Item} (hy : first? batch y.id = some y)
    (hshown : shown y.id = true) :
    Reflects name shown batch (enter (.ofBatch batch) w y)
      (enter (.ofBatch other) w' (y.rename name)) := by
  have hin : (first? batch y.id).isSome = true := by rw [hy]; rfl
  unfold enter
  by_cases hc : y.completed = true
  · rw [if_pos hc, if_pos (show (y.rename name).completed = true from hc)]
    exact ⟨hr.stack, marks_insert h hr hin hshown _, hidden_insert hr hshown _, hr.seen⟩
  · have hopen : y.completed = false := by simpa using hc
    rw [if_neg hc, if_neg (show ¬ (y.rename name).completed = true from hc)]
    refine ⟨?_, marks_insert h hr hin hshown _, hidden_insert hr hshown _, ?_⟩
    · rw [h.parents_rename hy hopen, hr.stack]
      rfl
    · intro f hf
      rcases List.mem_cons.mp hf with rfl | hf
      · exact ⟨hy, hshown, fun p hp => (Graph.mem_parents.mp hp).2⟩
      · exact hr.seen f hf

/-- Entering a hidden shard leaves no trace in the other walk. -/
theorem enter_hidden (h : Mirrors name shown batch other) (hr : Reflects name shown batch w w')
    {y : Item} (hy : first? batch y.id = some y) (hhidden : shown y.id = false) :
    Reflects name shown batch (enter (.ofBatch batch) w y) w' := by
  rw [enter, if_pos (h.hidden y.id y hy hhidden)]
  refine ⟨hr.stack, ?_, ?_, hr.seen⟩
  · intro id hid hshown
    have hne : y.id ≠ id := by
      intro heq
      rw [heq, hshown] at hhidden
      cases hhidden
    rw [Std.HashMap.getElem?_insert, if_neg (by simpa using hne)]
    exact hr.marks id hid hshown
  · intro id hid
    rw [Std.HashMap.getElem?_insert]
    by_cases heq : y.id = id
    · exact Or.inr (by simp [heq])
    · rw [if_neg (by simpa using heq)]
      exact hr.hidden id hid

/-! ### Turns -/

section Reading

variable {marks : Std.HashMap String Mark} {x : Item} {p : String} {ps : List String}
  {deepest : Nat} {fs : List Frame} {settled : List (String × Nat)}

theorem seen_read (h : ∀ f ∈ (⟨x, p :: ps, deepest⟩ : Frame) :: fs, Seen shown batch f) (e : Nat) :
    ∀ f ∈ (⟨x, ps, e⟩ : Frame) :: fs, Seen shown batch f := by
  obtain ⟨⟨hx, hshown, hunread⟩, hrest⟩ := List.forall_mem_cons.mp h
  exact List.forall_mem_cons.mpr
    ⟨⟨hx, hshown, fun q hq => hunread q (List.mem_cons_of_mem _ hq)⟩, hrest⟩

/-- The other walk has a parent that is shown next as well. -/
theorem reflects_read
    (hr : Reflects name shown batch ⟨marks, ⟨x, p :: ps, deepest⟩ :: fs, settled⟩ w')
    (hshown : shown p = true) :
    ∃ unread fs', w'.stack = ⟨x.rename name, name p :: unread, deepest⟩ :: fs' ∧
      ∀ e, Reflects name shown batch ⟨marks, ⟨x, ps, e⟩ :: fs, settled⟩
        ⟨w'.marks, ⟨x.rename name, unread, e⟩ :: fs', w'.settled⟩ := by
  obtain ⟨hstack, hmarks, hhidden, hseen⟩ := hr
  refine ⟨(ps.filter shown).map name, fs.map (Frame.mirror name shown), ?_, fun e => ?_⟩
  · rw [hstack, List.map_cons, Frame.mirror, List.filter_cons_of_pos hshown, List.map_cons]
  · exact ⟨rfl, hmarks, hhidden, seen_read hseen e⟩

/-- The other walk does not have a hidden parent to read. -/
theorem reflects_pass
    (hr : Reflects name shown batch ⟨marks, ⟨x, p :: ps, deepest⟩ :: fs, settled⟩ w')
    (hhidden : shown p = false) :
    Reflects name shown batch ⟨marks, ⟨x, ps, deepest⟩ :: fs, settled⟩ w' := by
  refine ⟨?_, hr.marks, hr.hidden, seen_read hr.seen deepest⟩
  rw [hr.stack, List.map_cons, List.map_cons, Frame.mirror, Frame.mirror,
    List.filter_cons_of_neg (by simp [hhidden])]

end Reading

theorem step_nil {g : Graph} (h : w.stack = []) : step g w = .finished w := by
  obtain ⟨marks, stack, settled⟩ := w
  obtain rfl : stack = [] := h
  rfl

/-- **A turn is taken in the other walk too, or it leaves no trace there.** -/
theorem Reflects.next (h : Mirrors name shown batch other)
    (hr : Reflects name shown batch w w') (hstep : step (.ofBatch batch) w = .next v) :
    Reflects name shown batch v w' ∨
      ∃ v', step (.ofBatch other) w' = .next v' ∧ Reflects name shown batch v v' := by
  cases advance_of_step hstep with
  | @settle marks x deepest fs settled =>
      obtain ⟨marks', stack', settled'⟩ := w'
      obtain ⟨⟨hx, hshown, -⟩, hrest⟩ := List.forall_mem_cons.mp hr.seen
      obtain rfl : stack' = _ := hr.stack
      refine Or.inr ⟨_, rfl, report_mirror _ fs,
        marks_insert h hr (by rw [hx]; rfl) hshown _, hidden_insert hr hshown _,
        seen_report hrest⟩
  | @hear marks x p ps deepest d fs settled hmark =>
      obtain ⟨⟨-, -, hunread⟩, -⟩ := List.forall_mem_cons.mp hr.seen
      have hp : (first? batch p).isSome = true := hunread p List.mem_cons_self
      cases hshown : shown p with
      | true =>
          obtain ⟨marks', stack', settled'⟩ := w'
          obtain ⟨unread, fs', hstack, hread⟩ := reflects_read hr hshown
          obtain rfl : stack' = _ := hstack
          have hmark' : marks'[name p]? = some (.resolved d) := (hr.marks p hp hshown).trans hmark
          exact Or.inr ⟨_, by simp only [step, hmark'], hread _⟩
      | false =>
          rcases hr.hidden p hshown with hnone | hzero
          · cases hmark.symm.trans hnone
          · -- The depth heard is 0, so the frame is no deeper for it.
            obtain rfl : d = 0 := by simpa [hmark] using hzero
            rw [Nat.max_zero]
            exact Or.inl (reflects_pass hr hshown)
  | @meet marks x y p ps deepest fs settled hmark hy =>
      rw [Graph.table_ofBatch] at hy
      obtain rfl := id_of_first? hy
      cases hshown : shown y.id with
      | true =>
          obtain ⟨marks', stack', settled'⟩ := w'
          obtain ⟨unread, fs', hstack, hread⟩ := reflects_read hr hshown
          obtain rfl : stack' = _ := hstack
          have hmark' : marks'[name y.id]? = none :=
            (hr.marks y.id (by rw [hy]; rfl) hshown).trans hmark
          refine Or.inr ⟨_, ?_, enter_reflects h (hread deepest) hy hshown⟩
          simp only [step, hmark', Graph.table_ofBatch, h.first y.id y hy hshown]
      | false => exact Or.inl (enter_hidden h (reflects_pass hr hshown) hy hshown)
  | @skip marks x p ps deepest fs settled hmark hy =>
      -- A parent that is still to be read is in the batch, so this does not happen.
      obtain ⟨⟨-, -, hunread⟩, -⟩ := List.forall_mem_cons.mp hr.seen
      have hp : (first? batch p).isSome = true := hunread p List.mem_cons_self
      rw [← Graph.table_ofBatch, hy] at hp
      cases hp

/-- **Where the walk meets an open shard again, the other walk meets it again too.** -/
theorem Reflects.cycle {id : String} (hr : Reflects name shown batch w w')
    (hstep : step (.ofBatch batch) w = .cycle v id) :
    ∃ v', step (.ofBatch other) w' = .cycle v' (name id) := by
  obtain ⟨marks, stack, settled⟩ := w
  obtain ⟨marks', stack', settled'⟩ := w'
  obtain ⟨x, ps, deepest, fs, hstack, hmark⟩ := step_cycle hstep
  obtain rfl : stack = _ := hstack
  obtain ⟨⟨-, -, hunread⟩, -⟩ := List.forall_mem_cons.mp hr.seen
  have hshown : shown id = true := by
    by_contra hc
    rcases hr.hidden id (by simpa using hc) with hnone | hzero
    · cases hmark.symm.trans hnone
    · cases hmark.symm.trans hzero
  obtain ⟨unread, fs', hstack', -⟩ := reflects_read hr hshown
  obtain rfl : stack' = _ := hstack'
  have hmark' : marks'[name id]? = some .inProgress :=
    (hr.marks id (hunread id List.mem_cons_self) hshown).trans hmark
  exact ⟨⟨marks', ⟨x.rename name, unread, deepest⟩ :: fs', settled'⟩,
    by simp only [step, hmark']⟩

/-! ### Whole runs -/

/-- Two runs fail at the same shard, or they end in states of which one shows the other. -/
def Tracks (name : String → String) (shown : String → Bool) (batch : List Item)
    (r r' : Walk × Option String) : Prop :=
  r'.2 = r.2.map name ∧ (r.2 = none → Reflects name shown batch r.1 r'.1)

theorem run_tracks (h : Mirrors name shown batch other) (hr : Reflects name shown batch w w') :
    Tracks name shown batch (run (.ofBatch batch) w) (run (.ofBatch other) w') := by
  induction w using run.induct (.ofBatch batch) generalizing w' with
  | case1 w v hstep =>
      obtain ⟨rfl, hidle⟩ := stack_of_finished hstep
      have hidle' : w'.stack = [] := by rw [hr.stack, hidle, List.map_nil]
      rw [run_finished hstep, run_finished (step_nil hidle')]
      exact ⟨rfl, fun _ => hr⟩
  | case2 w v id hstep =>
      obtain ⟨v', hstep'⟩ := hr.cycle hstep
      rw [run_cycle hstep, run_cycle hstep']
      exact ⟨rfl, fun hnone => by cases hnone⟩
  | case3 w v hstep ih =>
      rw [run_next hstep]
      rcases hr.next h hstep with hsame | ⟨v', hstep', hr'⟩
      · exact ih hsame
      · rw [run_next hstep']
        exact ih hr'

theorem stack_of_run {g : Graph} (h : run g w = (v, none)) : v.stack = [] := by
  induction w using run.induct g with
  | case1 w w' hstep =>
      obtain ⟨rfl, hidle⟩ := stack_of_finished hstep
      rw [run_finished hstep] at h
      rw [← (Prod.mk.inj h).1]
      exact hidle
  | case2 w w' id hstep =>
      rw [run_cycle hstep] at h
      cases (Prod.mk.inj h).2
  | case3 w w' hstep ih =>
      rw [run_next hstep] at h
      exact ih h

section Visiting

variable {g : Graph} {x : Item}

theorem visit_marked (hc : w.marks.contains x.id = true) (xs : List Item) :
    visit g (x :: xs) w = visit g xs w := by
  rw [visit, if_pos hc]

theorem visit_ok (hc : ¬ w.marks.contains x.id = true) (hrun : run g (enter g w x) = (v, none))
    (xs : List Item) : visit g (x :: xs) w = visit g xs v := by
  rw [visit, if_neg hc, hrun]

theorem visit_cycle {id : String} (hc : ¬ w.marks.contains x.id = true)
    (hrun : run g (enter g w x) = (v, some id)) (xs : List Item) :
    visit g (x :: xs) w = (v, some id) := by
  rw [visit, if_neg hc, hrun]

end Visiting

theorem visit_tracks (h : Mirrors name shown batch other) :
    ∀ (xs : List Item) {w w' : Walk}, (∀ x ∈ xs, first? batch x.id = some x) →
      Reflects name shown batch w w' → w.stack = [] →
        Tracks name shown batch (visit (.ofBatch batch) xs w)
          (visit (.ofBatch other) ((xs.filter (shown ·.id)).map (Item.rename name)) w') := by
  intro xs
  induction xs with
  | nil =>
      intro w w' _ hr _
      exact ⟨rfl, fun _ => hr⟩
  | cons x xs ih =>
      intro w w' hxs hr hidle
      obtain ⟨hx, hrest⟩ := List.forall_mem_cons.mp hxs
      cases hshown : shown x.id with
      | false =>
          rw [List.filter_cons_of_neg (by simp [hshown])]
          by_cases hc : w.marks.contains x.id = true
          · rw [visit_marked hc]
            exact ih hrest hr hidle
          · -- The shard is settled as it is entered, so the run that follows is over at once.
            have hstack : (enter (.ofBatch batch) w x).stack = [] := by
              rw [enter, if_pos (h.hidden x.id x hx hshown)]
              exact hidle
            rw [visit_ok hc (run_finished (step_nil hstack))]
            exact ih hrest (enter_hidden h hr hx hshown) hstack
      | true =>
          have hcontains : w'.marks.contains (name x.id) = w.marks.contains x.id := by
            rw [Std.HashMap.contains_eq_isSome_getElem?, Std.HashMap.contains_eq_isSome_getElem?,
              hr.marks x.id (by rw [hx]; rfl) hshown]
          have hkeep : (x :: xs).filter (shown ·.id) = x :: xs.filter (shown ·.id) :=
            List.filter_cons_of_pos hshown
          rw [hkeep, List.map_cons]
          by_cases hc : w.marks.contains x.id = true
          · rw [visit_marked hc, visit_marked (hcontains.trans hc)]
            exact ih hrest hr hidle
          · have hc' : ¬ w'.marks.contains (x.rename name).id = true := fun hin =>
              hc (hcontains.symm.trans hin)
            obtain ⟨hname, hend⟩ := run_tracks h (enter_reflects h hr hx hshown)
            rcases hrun : run (.ofBatch batch) (enter (.ofBatch batch) w x) with ⟨u, o⟩
            rcases hrun' : run (.ofBatch other) (enter (.ofBatch other) w' (x.rename name))
              with ⟨u', o'⟩
            rw [hrun, hrun'] at hname hend
            cases o with
            | none =>
                obtain rfl : o' = none := hname
                rw [visit_ok hc hrun, visit_ok hc' hrun']
                exact ih hrest (hend rfl) (stack_of_run hrun)
            | some id =>
                obtain rfl : o' = some (name id) := hname
                rw [visit_cycle hc hrun, visit_cycle hc' hrun']
                exact ⟨rfl, fun hnone => by cases hnone⟩

/-- **The walk over the other batch tracks the walk over the batch.** -/
theorem ofGraph_tracks (h : Mirrors name shown batch other)
    (hfirsts : (Graph.ofBatch other).firsts =
      ((Graph.ofBatch batch).firsts.filter (shown ·.id)).map (Item.rename name)) :
    Tracks name shown batch (ofGraph (.ofBatch batch)) (ofGraph (.ofBatch other)) := by
  rw [ofGraph, ofGraph, hfirsts]
  exact visit_tracks h _ (fun x hx => Graph.mem_firsts.mp hx) reflects_start rfl

end Walk

/-- **What shows the shards of a batch has their depths, or fails at the same shard.** -/
theorem resolve_mirror (h : Mirrors name shown batch other)
    (hfirsts : (Graph.ofBatch other).firsts =
      ((Graph.ofBatch batch).firsts.filter (shown ·.id)).map (Item.rename name)) :
    (∃ depth depth', DepthLaw batch depth ∧ DepthLaw other depth' ∧
        ∀ id, (first? batch id).isSome = true → shown id = true → depth' (name id) = depth id) ∨
      ∃ id, (resolve batch).result = .error (.circularDependency id) ∧
        (resolve other).result = .error (.circularDependency (name id)) := by
  obtain ⟨hname, hend⟩ := Walk.ofGraph_tracks h hfirsts
  rcases Walk.ofGraph_spec batch with ⟨w, hw, law, -⟩ | ⟨w, id, hw, -⟩
  · rcases Walk.ofGraph_spec other with ⟨w', hw', law', -⟩ | ⟨w', id', hw', -⟩
    · rw [hw, hw'] at hend
      refine Or.inl ⟨w.settledDepth, w'.settledDepth, law, law', fun id hid hshown => ?_⟩
      simp only [Walk.settledDepth, Walk.depth?, (hend rfl).marks id hid hshown]
    · rw [hw, hw'] at hname
      cases hname
  · refine Or.inr ⟨id, by simp only [resolve, Graph.resolve, hw], ?_⟩
    cases hw' : Walk.ofGraph (.ofBatch other) with
    | mk w' o =>
        rw [hw, hw'] at hname
        obtain rfl : o = some (name id) := hname
        simp only [resolve, Graph.resolve, hw']

end LeaseOrder
