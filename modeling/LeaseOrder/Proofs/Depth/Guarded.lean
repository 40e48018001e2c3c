/-
The walk under guard.

A shard is entered once and settles once.  The guarded walk checks this at every change of a
mark, fails where a mark is not what it has to be, and keeps a record: the states in which the
rounds of its loop began, and the shards that were given a frame.

In every state that the walk goes through, the topmost shard is in progress and only a shard
without a mark is entered.  So no check ever fails: the guarded walk is the walk, and a cycle
is all that can stop it.
-/
import LeaseOrder.Proofs.Depth.Resolve

namespace LeaseOrder

open Ancestry

/-- Why the guarded walk stops. -/
inductive Fault where
  /-- The batch cannot be ordered. -/
  | order (e : OrderError)
  /-- A mark is not what it has to be. -/
  | inconsistent (message : String)
deriving DecidableEq, Repr

/-! ### Guarded marks -/

namespace Mark

/-- The mark of a shard that is entered, which has none before. -/
def enter (id : String) : Option Mark → Except Fault Mark
  | none => .ok .inProgress
  | some .inProgress => .error (.order (.circularDependency id))
  | some (.resolved _) =>
    .error (.inconsistent ("depth for shard " ++ id ++ " is already resolved"))

/-- The mark of a shard that settles, which is in progress before. -/
def settle (id : String) (depth : Nat) : Option Mark → Except Fault Mark
  | some .inProgress => .ok (.resolved depth)
  | some (.resolved _) =>
    .error (.inconsistent ("depth for shard " ++ id ++ " was populated twice"))
  | none => .error (.inconsistent ("depth for shard " ++ id ++ " populated before it was visited"))

variable {id : String} {m : Option Mark} {m' : Mark}

theorem settle_eq_ok {depth : Nat} :
    settle id depth m = .ok m' ↔ m = some .inProgress ∧ m' = .resolved depth := by
  rcases m with _ | _ | _ <;> simp [settle, eq_comm]

end Mark

/-! ### The guarded walk -/

/-- A state of the guarded walk. -/
structure Guarded where
  walk : Walk
  /-- The states in which the rounds of the loop began, latest first. -/
  rounds : List Walk
  /-- The shards that were given a frame, latest first. -/
  opened : List String

/-- The outcome of one round. -/
inductive Guarded.Round where
  /-- No shard is open. -/
  | finished (s : Guarded)
  /-- The walk stops. -/
  | failed (s : Guarded) (f : Fault)
  /-- The walk goes on. -/
  | next (s : Guarded)

namespace Guarded

/-- The state before the first shard is entered. -/
def start : Guarded := ⟨Walk.start, [], []⟩

/-- Enters a shard: a completed one settles at once, any other one is given a frame. -/
def enter (g : Graph) (s : Guarded) (x : Item) : Except Fault Guarded := do
  let entered ← Mark.enter x.id s.walk.marks[x.id]?
  if x.completed then
    let settled ← Mark.settle x.id 0 (some entered)
    return { s with walk := { s.walk with marks := s.walk.marks.insert x.id settled } }
  else
    return { s with
      walk := { s.walk with
        marks := s.walk.marks.insert x.id entered
        stack := ⟨x, g.parents x, 0⟩ :: s.walk.stack }
      opened := x.id :: s.opened }

/-- One round of the loop. -/
def round (g : Graph) : Guarded → Round
  | ⟨⟨marks, [], settled⟩, rounds, opened⟩ => .finished ⟨⟨marks, [], settled⟩, rounds, opened⟩
  | ⟨⟨marks, ⟨x, [], deepest⟩ :: fs, settled⟩, rounds, opened⟩ =>
    let begun := ⟨marks, ⟨x, [], deepest⟩ :: fs, settled⟩ :: rounds
    match Mark.settle x.id (deepest + 1) marks[x.id]? with
    | .ok m => .next ⟨⟨marks.insert x.id m, Walk.report (deepest + 1) fs,
        (x.id, deepest + 1) :: settled⟩, begun, opened⟩
    | .error f => .failed ⟨⟨marks, fs, settled⟩, begun, opened⟩ f
  | ⟨⟨marks, ⟨x, p :: ps, deepest⟩ :: fs, settled⟩, rounds, opened⟩ =>
    let begun := ⟨marks, ⟨x, p :: ps, deepest⟩ :: fs, settled⟩ :: rounds
    let read : Guarded := ⟨⟨marks, ⟨x, ps, deepest⟩ :: fs, settled⟩, begun, opened⟩
    match marks[p]? with
    | some (.resolved d) => .next ⟨⟨marks, ⟨x, ps, max deepest d⟩ :: fs, settled⟩, begun, opened⟩
    | some .inProgress => .failed read (.order (.circularDependency p))
    | none =>
      match g.table[p]? with
      | some y =>
        match enter g read y with
        | .ok s => .next s
        | .error f => .failed read f
      | none => .next read

variable {g : Graph} {s s' : Guarded}

theorem enter_eq_ok {x : Item} : enter g s x = .ok s' ↔ s.walk.marks[x.id]? = none ∧
    s' = ⟨s.walk.enter g x, s.rounds, if x.completed then s.opened else x.id :: s.opened⟩ := by
  rcases hmark : s.walk.marks[x.id]? with _ | _ | _ <;>
    cases hc : x.completed <;>
      simp [enter, Walk.enter, Mark.enter, Mark.settle, hmark, hc, bind, Except.bind, pure,
        Except.pure, eq_comm]

/-- What a round, or entering a shard, does to the marks and to the record of frames. -/
inductive Grows (g : Graph) (s s' : Guarded) : Prop
  /-- No shard is entered. -/
  | same (hmarks : ∀ id, s'.walk.marks.contains id = s.walk.marks.contains id)
      (hopened : s'.opened = s.opened)
  /-- A shard is entered that had no mark, and given a frame unless it is completed. -/
  | enters (x : Item) (hx : g.table[x.id]? = some x) (hmark : s.walk.marks[x.id]? = none)
      (hmarks : ∀ id, s'.walk.marks.contains id = true ↔
        x.id = id ∨ s.walk.marks.contains id = true)
      (hopened : s'.opened = if x.completed then s.opened else x.id :: s.opened)

theorem grows_of_enter {x : Item} (hx : g.table[x.id]? = some x) (h : enter g s x = .ok s') :
    Grows g s s' := by
  obtain ⟨hnone, rfl⟩ := enter_eq_ok.mp h
  exact .enters x hx hnone (fun _ => Walk.contains_enter) rfl

/-- What a round does when the walk goes on: it is a turn of the walk, and it goes on record. -/
theorem step_of_round (h : round g s = .next s') :
    Walk.step g s.walk = .next s'.walk ∧ s'.rounds = s.walk :: s.rounds ∧ Grows g s s' := by
  obtain ⟨⟨marks, stack, settled⟩, rounds, opened⟩ := s
  match stack with
  | [] => simp [round] at h
  | ⟨x, [], deepest⟩ :: fs =>
      simp only [round] at h
      split at h
      · rename_i m hm
        obtain ⟨hmark, rfl⟩ := Mark.settle_eq_ok.mp hm
        cases h
        refine ⟨rfl, rfl, .same (fun id => ?_) rfl⟩
        rw [Std.HashMap.contains_insert]
        by_cases hid : x.id = id
        · -- The shard that settles was entered before.
          subst hid
          rw [Std.HashMap.contains_eq_isSome_getElem?, hmark]
          exact Bool.or_true _
        · rw [beq_false_of_ne hid, Bool.false_or]
      · cases h
  | ⟨x, p :: ps, deepest⟩ :: fs =>
      simp only [round] at h
      split at h
      · rename_i d hmark
        cases h
        exact ⟨by simp only [Walk.step, hmark], rfl, .same (fun _ => rfl) rfl⟩
      · cases h
      · rename_i hmark
        split at h
        · rename_i y hy
          split at h
          · rename_i entered henter
            cases h
            have hid : y.id = p := (g.table_sound p y hy).1
            obtain ⟨hnone, rfl⟩ := enter_eq_ok.mp henter
            refine ⟨by simp only [Walk.step, hmark, hy], rfl, ?_⟩
            exact .enters y (by rw [hid]; exact hy) hnone (fun _ => Walk.contains_enter) rfl
          · cases h
        · rename_i hy
          cases h
          exact ⟨by simp only [Walk.step, hmark, hy], rfl, .same (fun _ => rfl) rfl⟩

/-- Rounds until no shard is open or the walk fails. -/
def run (g : Graph) (s : Guarded) : Guarded × Option Fault :=
  match _h : round g s with
  | .finished s' => (s', none)
  | .failed s' f => (s', some f)
  | .next s' => run g s'
termination_by Walk.work g s.walk
decreasing_by exact Walk.work_step_lt (step_of_round _h).1

/-- Walks from every listed shard that has not been entered yet. -/
def visit (g : Graph) : List Item → Guarded → Guarded × Option Fault
  | [], s => (s, none)
  | x :: xs, s =>
    if s.walk.marks.contains x.id then visit g xs s
    else match enter g s x with
      | .error f => (s, some f)
      | .ok s' => match run g s' with
        | (s'', none) => visit g xs s''
        | (s'', some f) => (s'', some f)

/-- The whole walk, with the shards of the batch as starting points in their order. -/
def ofGraph (g : Graph) : Guarded × Option Fault :=
  visit g g.firsts start

theorem run_finished (h : round g s = .finished s') : run g s = (s', none) := by
  unfold run
  split <;> simp_all

theorem run_failed {f : Fault} (h : round g s = .failed s' f) : run g s = (s', some f) := by
  unfold run
  split <;> simp_all

theorem run_next (h : round g s = .next s') : run g s = run g s' := by
  conv_lhs => unfold run
  split <;> simp_all

end Guarded

/-- The events and the depths of a batch by the guarded walk. -/
def resolveGuarded (batch : List Item) : List Event × Except Fault Depths :=
  let g := Graph.ofBatch batch
  let (s, fault) := Guarded.ofGraph g
  (g.warnings ++ s.walk.settled.reverse.map fun e => .resolved e.1 e.2,
    match fault with
    | some f => .error f
    | none => .ok ⟨g.entries.map fun e => if e.isFirst then s.walk.depth? e.item.id else none⟩)

/-! ### No check fails -/

namespace Guarded

variable {batch : List Item} {s s' : Guarded}

/-- The states that a guarded walk goes through. -/
inductive Reached (g : Graph) : Guarded → Prop
  | start : Reached g start
  | enter {s s' : Guarded} {x : Item} (h : Reached g s) (hidle : s.walk.stack = [])
      (hx : x ∈ g.firsts) (henter : enter g s x = .ok s') : Reached g s'
  | round {s s' : Guarded} (h : Reached g s) (hround : round g s = .next s') : Reached g s'

/-- The walk in a guarded walk is a walk. -/
theorem Reached.walk {g : Graph} (h : Reached g s) : Walk.Reached g s.walk := by
  induction h with
  | start => exact .start
  | enter _ hidle hx henter ih =>
      obtain ⟨hnone, rfl⟩ := enter_eq_ok.mp henter
      exact ih.enter hidle hx hnone
  | round _ hround ih => exact ih.turn (step_of_round hround).1

/-- A round can end in these ways only, each of them the end of a turn of the walk. -/
inductive Turns (batch : List Item) (s : Guarded) : Prop
  | finished (hidle : s.walk.stack = []) (hround : round (.ofBatch batch) s = .finished s)
      (hstep : Walk.step (.ofBatch batch) s.walk = .finished s.walk)
  | cycle (w : Walk) (id : String)
      (hround : round (.ofBatch batch) s =
        .failed ⟨w, s.walk :: s.rounds, s.opened⟩ (.order (.circularDependency id)))
      (hstep : Walk.step (.ofBatch batch) s.walk = .cycle w id)
  | next (s' : Guarded) (hround : round (.ofBatch batch) s = .next s')
      (hstep : Walk.step (.ofBatch batch) s.walk = .next s'.walk)

theorem Turns.of_next (h : ∃ s', round (.ofBatch batch) s = .next s') : Turns batch s := by
  obtain ⟨s', hround⟩ := h
  exact .next s' hround (step_of_round hround).1

/-- **A round of a sound walk passes its checks.** -/
theorem turns_of_sound (h : Walk.Sound batch s.walk) : Turns batch s := by
  obtain ⟨⟨marks, stack, settled⟩, rounds, opened⟩ := s
  match stack with
  | [] => exact .finished rfl rfl rfl
  | ⟨x, [], deepest⟩ :: fs =>
      have hmark : marks[x.id]? = some .inProgress := (h.inProgress x.id).mpr ⟨x, by simp, rfl⟩
      refine .of_next ?_
      simp only [round, hmark, Mark.settle]
      exact ⟨_, rfl⟩
  | ⟨x, p :: ps, deepest⟩ :: fs =>
      rcases hmark : marks[p]? with _ | _ | d
      · refine .of_next ?_
        simp only [round, hmark]
        split
        · rename_i y hy
          rw [Graph.table_ofBatch] at hy
          obtain rfl := id_of_first? hy
          rw [enter_eq_ok.mpr ⟨hmark, rfl⟩]
          exact ⟨_, rfl⟩
        · exact ⟨_, rfl⟩
      · refine .cycle ⟨marks, ⟨x, ps, deepest⟩ :: fs, settled⟩ p ?_ ?_
        · simp only [round, hmark]
        · simp only [Walk.step, hmark]
      · refine .of_next ?_
        simp only [round, hmark]
        exact ⟨_, rfl⟩

/-- How a walk ends, under guard and without: idle in the state `v`, or at a cycle that the
    last round from `v` has met. -/
inductive Ends (batch : List Item) (v : Guarded) :
    Guarded × Option Fault → Walk × Option String → Prop
  | idle (hidle : v.walk.stack = []) : Ends batch v (v, none) (v.walk, none)
  | cycle (w : Walk) (id : String) (hstep : Walk.step (.ofBatch batch) v.walk = .cycle w id) :
      Ends batch v (⟨w, v.walk :: v.rounds, v.opened⟩, some (.order (.circularDependency id)))
        (w, some id)

/-- A run under guard ends as the run without. -/
theorem run_ends (h : Reached (.ofBatch batch) s) :
    ∃ v, Reached (.ofBatch batch) v ∧
      Ends batch v (run (.ofBatch batch) s) (Walk.run (.ofBatch batch) s.walk) := by
  induction s using run.induct (.ofBatch batch) with
  | case1 s s' hround =>
      cases turns_of_sound h.walk.sound with
      | finished hidle hround hstep =>
          rw [run_finished hround, Walk.run_finished hstep]
          exact ⟨s, h, .idle hidle⟩
      | cycle _ _ hcycle _ => cases hround.symm.trans hcycle
      | next _ hnext _ => cases hround.symm.trans hnext
  | case2 s s' f hround =>
      cases turns_of_sound h.walk.sound with
      | finished _ hfinished _ => cases hround.symm.trans hfinished
      | cycle w id hround hstep =>
          rw [run_failed hround, Walk.run_cycle hstep]
          exact ⟨s, h, .cycle w id hstep⟩
      | next _ hnext _ => cases hround.symm.trans hnext
  | case3 s s' hround ih =>
      rw [run_next hround, Walk.run_next (step_of_round hround).1]
      exact ih (h.round hround)

/-- The walk over a list of starting points ends as the one without guards. -/
theorem visit_ends :
    ∀ (xs : List Item) {s : Guarded}, (∀ x ∈ xs, x ∈ (Graph.ofBatch batch).firsts) →
      Reached (.ofBatch batch) s → s.walk.stack = [] →
      ∃ v, Reached (.ofBatch batch) v ∧
        Ends batch v (visit (.ofBatch batch) xs s) (Walk.visit (.ofBatch batch) xs s.walk) := by
  intro xs
  induction xs with
  | nil => intro s _ h hidle; exact ⟨s, h, .idle hidle⟩
  | cons x xs ih =>
      intro s hxs h hidle
      have hrest : ∀ y ∈ xs, y ∈ (Graph.ofBatch batch).firsts := fun y hy => hxs y (by simp [hy])
      by_cases hc : s.walk.marks.contains x.id = true
      · rw [visit, if_pos hc, Walk.visit, if_pos hc]
        exact ih hrest h hidle
      · have hmark : s.walk.marks[x.id]? = none := by simpa using hc
        have hpass : ∃ e, enter (.ofBatch batch) s x = .ok e ∧
            e.walk = s.walk.enter (.ofBatch batch) x := ⟨_, enter_eq_ok.mpr ⟨hmark, rfl⟩, rfl⟩
        obtain ⟨e, henter, hwalk⟩ := hpass
        obtain ⟨u, hu, hends⟩ := run_ends (h.enter hidle (hxs x (by simp)) henter)
        rw [visit, if_neg hc, henter, Walk.visit, if_neg hc, ← hwalk]
        dsimp only
        generalize run (.ofBatch batch) e = r, Walk.run (.ofBatch batch) e.walk = r' at hends ⊢
        cases hends with
        | idle hidle => exact ih hrest hu hidle
        | cycle w id hstep => exact ⟨u, hu, .cycle w id hstep⟩

/-- **The whole walk under guard ends as the one without.** -/
theorem ofGraph_ends (batch : List Item) :
    ∃ v, Reached (.ofBatch batch) v ∧
      Ends batch v (ofGraph (.ofBatch batch)) (Walk.ofGraph (.ofBatch batch)) :=
  visit_ends _ (fun _ hx => hx) .start rfl

end Guarded

/-- **The guards change nothing.** -/
theorem resolveGuarded_eq (batch : List Item) :
    resolveGuarded batch = ((resolve batch).events, (resolve batch).result.mapError .order) := by
  obtain ⟨v, -, hends⟩ := Guarded.ofGraph_ends batch
  generalize hg : Guarded.ofGraph (.ofBatch batch) = r at hends
  generalize hw : Walk.ofGraph (.ofBatch batch) = r' at hends
  simp only [resolveGuarded, resolve, Graph.resolve, hg, hw]
  cases hends with
  | idle _ => rfl
  | cycle w id _ => rfl

end LeaseOrder
