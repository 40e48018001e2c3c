/-
The walk with a stack of its own does what the recursion does.

`Follows` compares what a run of the walk comes to with a call of the recursion: where the
call gives an answer, the run goes on from the state that has this answer in place, and where
the call fails, the run fails with the same ID and the same shards settled.  A frame that
reads its next parent follows `depthOf`, a frame that reads all of its parents follows
`depthsOf`, and so does the whole walk with its starting points.

The induction is on the number of shards without a mark, which falls where a frame is
opened; within it, on the list of parents.  The frames below take no part, so they are
arbitrary.
-/
import LeaseOrder.Proofs.Depth.Recursive
import LeaseOrder.Proofs.Depth.Resolve

namespace LeaseOrder

open Ancestry

namespace Walk

variable {α : Type} {m : Memo} {r : Memo.Outcome m α} {next : α → Walk × Option String}
  {result : Walk × Option String}

/-- A run ends as a call fails, or goes on as the answer of the call says. -/
def Follows (result : Walk × Option String) (r : Memo.Outcome m α)
    (next : α → Walk × Option String) : Prop :=
  match r.answer with
  | .ok a => result = next a
  | .error id => ∃ w, result = (w, some id) ∧ w.settled = r.memo.settled

theorem follows_of_ok {a : α} (h : r.answer = .ok a) (hresult : result = next a) :
    Follows result r next := by
  rw [Follows, h]
  exact hresult

theorem follows_of_error {id : String} (h : r.answer = .error id)
    (hresult : ∃ w, result = (w, some id) ∧ w.settled = r.memo.settled) :
    Follows result r next := by
  rw [Follows, h]
  exact hresult

theorem Follows.ok (hfollows : Follows result r next) {a : α} (h : r.answer = .ok a) :
    result = next a := by
  rwa [Follows, h] at hfollows

theorem Follows.error (hfollows : Follows result r next) {id : String}
    (h : r.answer = .error id) : ∃ w, result = (w, some id) ∧ w.settled = r.memo.settled := by
  rwa [Follows, h] at hfollows

variable {batch : List Item}

/-! ### One parent -/

/-- The state in which a frame with these parents still to be read is on top. -/
def reading (m : Memo) (x : Item) (unread : List String) (deepest : Nat) (fs : List Frame) : Walk :=
  ⟨m.marks, ⟨x, unread, deepest⟩ :: fs, m.settled⟩

/-- A frame reads its next parent as the recursion asks for the depth of a shard. -/
def ReadsOne (batch : List Item) (m : Memo) (p : String) : Prop :=
  ∀ (x : Item) (ps : List String) (deepest : Nat) (fs : List Frame),
    Follows (run (.ofBatch batch) (reading m x (p :: ps) deepest fs)) (Memo.depthOf batch m p)
      fun d => run (.ofBatch batch)
        (reading (Memo.depthOf batch m p).memo x ps (max deepest d) fs)

/-- A frame reads all of its parents as the recursion asks for the depths of shards. -/
def ReadsAll (batch : List Item) (m : Memo) (ps : List String) : Prop :=
  ∀ (x : Item) (deepest : Nat) (fs : List Frame),
    Follows (run (.ofBatch batch) (reading m x ps deepest fs)) (Memo.depthsOf batch m ps)
      fun ds => run (.ofBatch batch)
        (reading (Memo.depthsOf batch m ps).memo x [] (ds.foldl max deepest) fs)

theorem enter_open {x : Item} (hopen : x.completed = false) (fs : List Frame) :
    enter (.ofBatch batch) ⟨m.marks, fs, m.settled⟩ x =
      reading (m.mark x.id .inProgress) x (Memo.parentsIn batch x) 0 fs := by
  rw [enter, if_neg (by simp [hopen]), Graph.parents_ofBatch]
  rfl

theorem enter_completed {x : Item} (hc : x.completed = true) (fs : List Frame) :
    enter (.ofBatch batch) ⟨m.marks, fs, m.settled⟩ x =
      ⟨(m.mark x.id (.resolved 0)).marks, fs, m.settled⟩ := by
  rw [enter, if_pos hc]
  rfl

/-- An open shard that is entered settles once its parents have been read. -/
theorem follows_depthOf {x : Item} (fs : List Frame) (hmark : m.marks[x.id]? = none)
    (hx : first? batch x.id = some x) (hopen : x.completed = false)
    (h : ReadsAll batch (m.mark x.id .inProgress) (Memo.parentsIn batch x)) :
    Follows (run (.ofBatch batch) (enter (.ofBatch batch) ⟨m.marks, fs, m.settled⟩ x))
      (Memo.depthOf batch m x.id) fun d => run (.ofBatch batch)
        ⟨(Memo.depthOf batch m x.id).memo.marks, report d fs,
          (Memo.depthOf batch m x.id).memo.settled⟩ := by
  rw [enter_open hopen]
  rcases Memo.depthOf_open hmark hx hopen with ⟨e, hparents, hone, hmemo⟩ |
    ⟨ds, hparents, hone, hmemo⟩
  · refine follows_of_error hone ?_
    rw [hmemo]
    exact (h x 0 fs).error hparents
  · refine follows_of_ok hone ?_
    rw [hmemo]
    exact ((h x 0 fs).ok hparents).trans (run_next rfl)

theorem readsOne {p : String}
    (ih : ∀ x, m.marks[p]? = none → first? batch p = some x → x.completed = false →
      ReadsAll batch (m.mark p .inProgress) (Memo.parentsIn batch x)) : ReadsOne batch m p := by
  intro x ps deepest fs
  cases hmark : m.marks[p]? with
  | some k =>
      cases k with
      | resolved d =>
          rw [Memo.depthOf_resolved hmark]
          exact follows_of_ok rfl (run_next (by simp [reading, step, hmark]))
      | inProgress =>
          rw [Memo.depthOf_inProgress hmark]
          refine follows_of_error rfl ⟨reading m x ps deepest fs, run_cycle ?_, rfl⟩
          simp [reading, step, hmark]
  | none =>
      cases hy : first? batch p with
      | none =>
          rw [Memo.depthOf_absent hmark hy]
          refine follows_of_ok rfl (run_next ?_)
          simp [reading, step, hmark, hy]
      | some y =>
          obtain rfl := id_of_first? hy
          have hstep : step (.ofBatch batch) (reading m x (y.id :: ps) deepest fs) =
              .next (enter (.ofBatch batch) ⟨m.marks, ⟨x, ps, deepest⟩ :: fs, m.settled⟩ y) := by
            simp [reading, step, hmark, hy]
          rw [run_next hstep]
          cases hc : y.completed with
          | true =>
              rw [enter_completed hc, Memo.depthOf_completed hmark hy hc]
              refine follows_of_ok rfl ?_
              rw [Nat.max_zero]
              rfl
          | false => exact follows_depthOf _ hmark hy hc (ih y hmark hy hc)

/-! ### All parents -/

theorem readsAll_of_readsOne :
    ∀ (ps : List String) (m : Memo),
      (∀ (m' : Memo) (p : String), m.Grows m' → ReadsOne batch m' p) → ReadsAll batch m ps := by
  intro ps
  induction ps with
  | nil =>
      intro m _ x deepest fs
      rw [Memo.depthsOf_nil]
      exact follows_of_ok rfl rfl
  | cons p ps ih =>
      intro m hone x deepest fs
      have hfirst := hone m p (.refl m) x ps deepest fs
      have hgrows := (Memo.depthOf batch m p).grows
      rcases Memo.depthsOf_cons batch m p ps with ⟨e, hd, hall, hmemo⟩ | ⟨d, hd, hmemo, hrest⟩
      · refine follows_of_error hall ?_
        rw [hmemo]
        exact hfirst.error hd
      · rw [hfirst.ok hd]
        have hlater := ih (Memo.depthOf batch m p).memo
          (fun m' q h => hone m' q (hgrows.trans h)) x (max deepest d) fs
        rcases hrest with ⟨e, hds, hall⟩ | ⟨ds, hds, hall⟩
        · refine follows_of_error hall ?_
          rw [hmemo]
          exact hlater.error hds
        · refine follows_of_ok hall ?_
          rw [hmemo]
          exact hlater.ok hds

/-- **A frame reads its parents as the recursion asks for their depths.** -/
theorem readsAll (n : Nat) :
    ∀ (m : Memo) (ps : List String), Memo.unmarked batch m = n → ReadsAll batch m ps := by
  induction n using Nat.strong_induction_on with
  | _ n ih =>
      intro m ps hn
      refine readsAll_of_readsOne ps m fun m' p hgrows => readsOne fun x hmark hx _ => ?_
      have hle : Memo.unmarked batch m' ≤ Memo.unmarked batch m := Memo.unmarked_le hgrows
      have hlt := Memo.unmarked_mark_lt (k := .inProgress) hx hmark
      exact ih _ (by omega) _ _ rfl

/-! ### Starting points -/

/-- The state between two starting points, when no shard is open. -/
def idle (m : Memo) : Walk :=
  ⟨m.marks, [], m.settled⟩

theorem run_idle (m : Memo) : run (.ofBatch batch) (idle m) = (idle m, none) :=
  run_finished rfl

theorem follows_enter {x : Item} (hmark : m.marks[x.id]? = none)
    (hx : first? batch x.id = some x) :
    Follows (run (.ofBatch batch) (enter (.ofBatch batch) (idle m) x))
      (Memo.depthOf batch m x.id) fun _ => (idle (Memo.depthOf batch m x.id).memo, none) := by
  cases hc : x.completed with
  | true =>
      rw [idle, enter_completed hc, Memo.depthOf_completed hmark hx hc]
      exact follows_of_ok rfl (run_idle _)
  | false =>
      have hfollows := follows_depthOf [] hmark hx hc (readsAll _ _ _ rfl)
      cases hone : (Memo.depthOf batch m x.id).answer with
      | ok d => exact follows_of_ok hone ((hfollows.ok hone).trans (run_idle _))
      | error e => exact follows_of_error hone (hfollows.error hone)

/-- No shard is open, so a shard that has been entered has its depth. -/
theorem resolved_of_idle (h : Reached (.ofBatch batch) (idle m)) {id : String}
    (hid : m.marks.contains id = true) : ∃ d, m.marks[id]? = some (.resolved d) := by
  rw [Std.HashMap.contains_eq_isSome_getElem?] at hid
  obtain ⟨k, hk⟩ := Option.isSome_iff_exists.mp hid
  cases k with
  | inProgress =>
      obtain ⟨x, hx, -⟩ := (h.sound.inProgress id).mp hk
      simp [idle] at hx
  | resolved d => exact ⟨d, hk⟩

/-- One starting point, whether or not it has been entered before. -/
theorem follows_visit_cons {x : Item} (xs : List Item) (hx : first? batch x.id = some x)
    (h : Reached (.ofBatch batch) (idle m)) :
    Follows (visit (.ofBatch batch) (x :: xs) (idle m)) (Memo.depthOf batch m x.id)
        (fun _ => visit (.ofBatch batch) xs (idle (Memo.depthOf batch m x.id).memo)) ∧
      ∀ d, (Memo.depthOf batch m x.id).answer = .ok d →
        Reached (.ofBatch batch) (idle (Memo.depthOf batch m x.id).memo) := by
  by_cases hc : m.marks.contains x.id = true
  · obtain ⟨d, hd⟩ := resolved_of_idle h hc
    rw [Memo.depthOf_resolved hd, visit, if_pos (show (idle m).marks.contains x.id = true from hc)]
    exact ⟨follows_of_ok rfl rfl, fun _ _ => h⟩
  · have hmark : m.marks[x.id]? = none := by simpa using hc
    have hfollows := follows_enter hmark hx
    rw [visit, if_neg (show ¬ (idle m).marks.contains x.id = true from hc)]
    cases hone : (Memo.depthOf batch m x.id).answer with
    | ok d =>
        rw [hfollows.ok hone]
        refine ⟨follows_of_ok hone rfl, fun _ _ => ?_⟩
        obtain ⟨v, hv, -, hend⟩ := run_reached (h.enter rfl (Graph.mem_firsts.mpr hx) hmark)
        rw [hfollows.ok hone] at hend
        rcases hend with ⟨heq, -⟩ | ⟨v', id, heq, -⟩
        · rw [(Prod.mk.inj heq).1]
          exact hv
        · cases (Prod.mk.inj heq).2
    | error e =>
        obtain ⟨w, hrun, hsettled⟩ := hfollows.error hone
        rw [hrun]
        exact ⟨follows_of_error hone ⟨w, rfl, hsettled⟩, fun d hd => by cases hd⟩

/-- **The walk takes its starting points as the recursion takes a list of shards.** -/
theorem follows_visit :
    ∀ (xs : List Item) (m : Memo), (∀ x ∈ xs, first? batch x.id = some x) →
      Reached (.ofBatch batch) (idle m) →
        Follows (visit (.ofBatch batch) xs (idle m)) (Memo.depthsOf batch m (xs.map Item.id))
          fun _ => (idle (Memo.depthsOf batch m (xs.map Item.id)).memo, none) := by
  intro xs
  induction xs with
  | nil =>
      intro m _ _
      rw [List.map_nil, Memo.depthsOf_nil]
      exact follows_of_ok rfl rfl
  | cons x xs ih =>
      intro m hxs h
      obtain ⟨hfirst, hreached⟩ := follows_visit_cons xs (hxs x (by simp)) h
      rw [List.map_cons]
      rcases Memo.depthsOf_cons batch m x.id (xs.map Item.id) with ⟨e, hd, hall, hmemo⟩ |
        ⟨d, hd, hmemo, hrest⟩
      · refine follows_of_error hall ?_
        rw [hmemo]
        exact hfirst.error hd
      · rw [hfirst.ok hd]
        have hlater := ih _ (fun y hy => hxs y (by simp [hy])) (hreached d hd)
        rcases hrest with ⟨e, hds, hall⟩ | ⟨ds, hds, hall⟩
        · refine follows_of_error hall ?_
          rw [hmemo]
          exact hlater.error hds
        · refine follows_of_ok hall ?_
          rw [hmemo]
          exact hlater.ok hds

end Walk

/-! ### Whole batches -/

theorem map_id_firsts (batch : List Item) :
    (Graph.ofBatch batch).firsts.map Item.id = distinctIds batch := by
  rw [Graph.firsts, Graph.entries_ofBatch, List.filterMap_map, distinctIds, List.map_filterMap,
    ← List.filterMap_eq_map, List.filterMap_filter]
  refine List.filterMap_congr fun p _ => ?_
  by_cases h : isFresh batch p.2 p.1.id = true <;> simp [h]

/-- Warnings of repeats are no news of depths. -/
theorem filter_warnings (batch : List Item) :
    (Graph.ofBatch batch).warnings.filter (·.message = "Resolved shard depth") = [] := by
  refine List.filter_eq_nil_iff.mpr fun e he => ?_
  obtain ⟨entry, -, rfl⟩ := List.mem_map.mp he
  simp [Event.message]

theorem filter_settled (settled : List (String × Nat)) :
    (settled.map fun s => Event.resolved s.1 s.2).filter (·.message = "Resolved shard depth") =
      settled.map fun s => Event.resolved s.1 s.2 := by
  refine List.filter_eq_self.mpr fun e he => ?_
  obtain ⟨s, -, rfl⟩ := List.mem_map.mp he
  simp [Event.message]

/-- **The walk gives what the recursion gives**: the same depths or the same failure, and in
    both cases the same shards settle at the same depths in the same order. -/
theorem resolve_eq_recursive (batch : List Item) :
    (resolve batch).result = (resolveRecursively batch).result ∧
      (resolve batch).events.filter (·.message = "Resolved shard depth") =
        (resolveRecursively batch).events := by
  have hfollows := Walk.follows_visit (Graph.ofBatch batch).firsts .start
    (fun x hx => Graph.mem_firsts.mp hx) .start
  rw [map_id_firsts] at hfollows
  cases hr : (Memo.depthsOf batch .start (distinctIds batch)).answer with
  | ok ds =>
      have hwalk : Walk.ofGraph (.ofBatch batch) =
          (Walk.idle (Memo.depthsOf batch .start (distinctIds batch)).memo, none) :=
        hfollows.ok hr
      simp only [resolve, Graph.resolve, hwalk, resolveRecursively, hr, List.filter_append,
        filter_warnings, filter_settled, Graph.entries_ofBatch, List.map_map, List.nil_append]
      exact ⟨rfl, rfl⟩
  | error id =>
      obtain ⟨w, hwalk, hsettled⟩ := hfollows.error hr
      have hwalk : Walk.ofGraph (.ofBatch batch) = (w, some id) := hwalk
      simp only [resolve, Graph.resolve, hwalk, hsettled, resolveRecursively, hr,
        List.filter_append, filter_warnings, filter_settled, List.nil_append]
      exact ⟨trivial, trivial⟩

end LeaseOrder
