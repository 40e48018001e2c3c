/-
The log of settled depths.

The walk logs every open shard as it settles, and a shard settles when it has heard from all of
its parents.  So the log lists the shards parents first at any time, and not only when the walk
is over: `Topological` is kept by every turn, and a walk that is cut off at a cycle leaves the
log as the last turn left it.  From the log alone it follows that depths fall along parents of
logged shards, so no logged shard leads to a cycle.
-/
import LeaseOrder.Proofs.Depth.Resolve

namespace LeaseOrder

open Ancestry

/-- The depth that a log has for a shard, 0 where the shard is not in the log. -/
def loggedDepth (log : List (String × Nat)) (id : String) : Nat :=
  (log.lookup id).getD 0

/-- Open shards with their depths, each one after its open parents. -/
structure Topological (batch : List Item) (log : List (String × Nat)) : Prop where
  /-- Only open shards are logged. -/
  isOpen : ∀ id ∈ log.map Prod.fst, IsOpen batch id
  /-- No shard is logged twice. -/
  nodup : (log.map Prod.fst).Nodup
  /-- What a shard awaits is logged before it, and its depth goes by that. -/
  due : ∀ before id d after, log = before ++ (id, d) :: after →
    ∃ x, first? batch id = some x ∧
      (∀ p ∈ x.parents, IsOpen batch p → p ∈ before.map Prod.fst) ∧
      d = 1 + deepest batch (loggedDepth before) x

variable {batch : List Item} {log : List (String × Nat)}

/-! ### Looking a depth up -/

theorem loggedDepth_of_not_mem {id : String} (h : id ∉ log.map Prod.fst) :
    loggedDepth log id = 0 := by
  have hnone : log.lookup id = none := by
    refine List.lookup_eq_none_iff.mpr fun p hp => ?_
    have hne : id ≠ p.1 := fun heq => h (heq ▸ List.mem_map_of_mem hp)
    simpa using hne
  rw [loggedDepth, hnone, Option.getD_none]

theorem loggedDepth_of_mem (hnodup : (log.map Prod.fst).Nodup) {id : String} {d : Nat}
    (h : (id, d) ∈ log) : loggedDepth log id = d := by
  obtain ⟨before, after, rfl⟩ := List.append_of_mem h
  have hnew : id ∉ before.map Prod.fst := by
    intro hmem
    rw [List.map_append, List.map_cons, List.nodup_append] at hnodup
    exact hnodup.2.2 id hmem id List.mem_cons_self rfl
  have hsome : (before ++ (id, d) :: after).lookup id = some d := by
    refine List.lookup_eq_some_iff.mpr ⟨before, after, rfl, fun p hp => ?_⟩
    have hne : id ≠ p.1 := fun heq => hnew (heq ▸ List.mem_map_of_mem hp)
    simpa using hne
  rw [loggedDepth, hsome, Option.getD_some]

/-! ### Logs that grow -/

theorem topological_nil : Topological batch [] where
  isOpen := by simp
  nodup := List.nodup_nil
  due := by
    intro before id d after h
    simp at h

/-- A new shard joins the log once everything that it awaits is logged. -/
theorem Topological.concat (h : Topological batch log) {id : String} {x : Item}
    (hx : first? batch id = some x) (hopen : x.completed = false) (hnew : id ∉ log.map Prod.fst)
    (hparents : ∀ p ∈ x.parents, IsOpen batch p → p ∈ log.map Prod.fst) :
    Topological batch (log ++ [(id, 1 + deepest batch (loggedDepth log) x)]) where
  isOpen := by
    intro q hq
    rw [List.map_append, List.mem_append] at hq
    rcases hq with hq | hq
    · exact h.isOpen q hq
    · obtain rfl : q = id := by simpa using hq
      exact ⟨x, hx, hopen⟩
  nodup := by
    rw [List.map_append, List.map_singleton, ← List.concat_eq_append, List.nodup_concat]
    exact ⟨hnew, h.nodup⟩
  due := by
    intro before q d after hsplit
    rcases List.eq_nil_or_concat after with rfl | ⟨after, last, rfl⟩
    · -- The new entry itself.
      obtain ⟨rfl, hlast⟩ := List.append_inj' hsplit rfl
      obtain ⟨rfl, rfl⟩ : id = q ∧ 1 + deepest batch (loggedDepth log) x = d := by
        simpa using hlast
      exact ⟨x, hx, hparents, rfl⟩
    · -- An older one, of which the log said the same before.
      have hfront : log ++ [(id, 1 + deepest batch (loggedDepth log) x)] =
          (before ++ (q, d) :: after) ++ [last] := by
        simpa using hsplit
      exact h.due before q d after (List.append_inj' hfront rfl).1

/-! ### What a log rules out -/

/-- What a logged shard awaits is logged at a smaller depth. -/
theorem Topological.awaits (h : Topological batch log) {c p : String}
    (hc : c ∈ log.map Prod.fst) (hawaits : Awaits batch c p) :
    p ∈ log.map Prod.fst ∧ loggedDepth log p < loggedDepth log c := by
  obtain ⟨⟨id, d⟩, hmem, rfl⟩ := List.mem_map.mp hc
  obtain ⟨before, after, rfl⟩ := List.append_of_mem hmem
  obtain ⟨x, hx, hparents, rfl⟩ := h.due before id d after rfl
  obtain ⟨x', hx', -, hp, hpopen⟩ := hawaits
  obtain rfl := Option.some.inj (hx.symm.trans hx')
  have hbefore := hparents p hp hpopen
  obtain ⟨y, hy, -⟩ := hpopen
  obtain ⟨⟨q, e⟩, hq, rfl⟩ := List.mem_map.mp hbefore
  have hnodup := h.nodup
  have hfront : (before.map Prod.fst).Nodup := by
    rw [List.map_append] at hnodup
    exact hnodup.of_append_left
  have hall := List.mem_append_left ((id, 1 + deepest batch (loggedDepth before) x) :: after) hq
  refine ⟨List.mem_map_of_mem hall, ?_⟩
  have hle : loggedDepth before q ≤ deepest batch (loggedDepth before) x :=
    le_deepest hp (by rw [hy]; rfl)
  rw [loggedDepth_of_mem hnodup hall, loggedDepth_of_mem hnodup hmem]
  rw [loggedDepth_of_mem hfront hq] at hle
  omega

theorem Topological.transGen (h : Topological batch log) {c p : String}
    (hc : c ∈ log.map Prod.fst) (hpath : Relation.TransGen (Awaits batch) c p) :
    p ∈ log.map Prod.fst ∧ loggedDepth log p < loggedDepth log c := by
  induction hpath with
  | single hawaits => exact h.awaits hc hawaits
  | tail _ hawaits ih =>
      obtain ⟨hmem, hlt⟩ := h.awaits ih.1 hawaits
      exact ⟨hmem, Nat.lt_trans hlt ih.2⟩

/-- **No logged shard leads to a shard that awaits itself.** -/
theorem Topological.not_transGen_self (h : Topological batch log) {c p : String}
    (hc : c ∈ log.map Prod.fst) (hpath : Relation.ReflTransGen (Awaits batch) c p) :
    ¬ Relation.TransGen (Awaits batch) p p := by
  have hp : p ∈ log.map Prod.fst := by
    rcases Relation.reflTransGen_iff_eq_or_transGen.mp hpath with rfl | hpath
    · exact hc
    · exact (h.transGen hc hpath).1
  intro hcycle
  exact Nat.lt_irrefl _ (h.transGen hp hcycle).2

/-! ### The log of the walk -/

namespace Walk

/-- The log of a state: the open shards that have settled, in order. -/
structure Logs (batch : List Item) (w : Walk) : Prop where
  /-- An open shard is logged at the depth at which it has settled. -/
  mem_iff : ∀ id d, (id, d) ∈ w.settled ↔ IsOpen batch id ∧ w.marks[id]? = some (.resolved d)
  topological : Topological batch w.settled.reverse

variable {w w' : Walk}

theorem logs_start : Logs batch start where
  mem_iff := by simp [start]
  topological := topological_nil

theorem Logs.mem_map_fst (h : Logs batch w) {id : String} :
    id ∈ w.settled.reverse.map Prod.fst ↔
      IsOpen batch id ∧ ∃ d, w.marks[id]? = some (.resolved d) := by
  simp only [List.mem_map, List.mem_reverse, Prod.exists, exists_and_right, exists_eq_right,
    h.mem_iff, exists_and_left]

/-- The log knows the depth of every shard that has settled, be it completed or open. -/
theorem Logs.loggedDepth_eq (h : Logs batch w) (hsound : Sound batch w) {id : String} {d : Nat}
    (hmark : w.marks[id]? = some (.resolved d)) : loggedDepth w.settled.reverse id = d := by
  obtain ⟨x, hx, hdue⟩ := hsound.lawful id d hmark
  rcases hdue with ⟨hc, rfl⟩ | ⟨hopen, -⟩
  · refine loggedDepth_of_not_mem fun hmem => ?_
    obtain ⟨y, hy, hyopen⟩ := (h.mem_map_fst.mp hmem).1
    obtain rfl := Option.some.inj (hx.symm.trans hy)
    rw [hc] at hyopen
    cases hyopen
  · have hmem := (h.mem_iff id d).mpr ⟨⟨x, hx, hopen⟩, hmark⟩
    exact loggedDepth_of_mem h.topological.nodup (List.mem_reverse.mpr hmem)

/-- Entering a shard logs nothing. -/
theorem Logs.enter (h : Logs batch w) {x : Item} (hx : first? batch x.id = some x)
    (hmark : w.marks[x.id]? = none) : Logs batch (enter (.ofBatch batch) w x) := by
  have hkeep : ∀ m : Mark, (∀ d, m = .resolved d → x.completed = true) → ∀ id d,
      (id, d) ∈ w.settled ↔
        IsOpen batch id ∧ (w.marks.insert x.id m)[id]? = some (.resolved d) := by
    intro m hm id d
    rw [h.mem_iff, Std.HashMap.getElem?_insert]
    by_cases hid : x.id = id
    · subst hid
      rw [hmark]
      simp only [beq_self_eq_true, if_true, reduceCtorEq, and_false, Option.some.injEq, false_iff]
      intro hboth
      obtain ⟨⟨y, hy, hopen⟩, hresolved⟩ := hboth
      obtain rfl := Option.some.inj (hx.symm.trans hy)
      rw [hm d hresolved] at hopen
      cases hopen
    · rw [if_neg (by simpa using hid)]
  unfold Walk.enter
  split
  · rename_i hc
    exact ⟨hkeep _ fun _ _ => hc, h.topological⟩
  · exact ⟨hkeep _ (by simp), h.topological⟩

/-- A shard is logged as it settles, when all that it awaits is logged. -/
theorem Logs.settle {marks : Std.HashMap String Mark} {x : Item} {deepest : Nat}
    {fs : List Frame} {settled : List (String × Nat)}
    (h : Logs batch ⟨marks, ⟨x, [], deepest⟩ :: fs, settled⟩)
    (hsound : Sound batch ⟨marks, ⟨x, [], deepest⟩ :: fs, settled⟩) :
    Logs batch ⟨marks.insert x.id (.resolved (deepest + 1)), report (deepest + 1) fs,
      (x.id, deepest + 1) :: settled⟩ := by
  obtain ⟨hx, hopen⟩ := hsound.frames x (by simp)
  have hprogress : marks[x.id]? = some .inProgress :=
    (hsound.inProgress x.id).mpr ⟨x, by simp, rfl⟩
  obtain ⟨⟨read, hsplit, hheard⟩, -⟩ := hsound.reads
  rw [List.append_nil] at hsplit
  obtain rfl : (Graph.ofBatch batch).parents x = read := hsplit
  have hdeepest : Ancestry.deepest batch (loggedDepth settled.reverse) x = deepest := by
    refine Nat.le_antisymm (deepest_le fun p hp hin => ?_) ?_
    · obtain ⟨d, hle, hd⟩ := hheard.le p (Graph.mem_parents.mpr ⟨hp, hin⟩)
      rw [h.loggedDepth_eq hsound hd]
      exact hle
    · rcases hheard.attained with hzero | ⟨p, hp, hd⟩
      · exact Nat.le_trans (Nat.le_of_eq hzero) (Nat.zero_le _)
      · obtain ⟨hmem, hin⟩ := Graph.mem_parents.mp hp
        have hle : loggedDepth settled.reverse p ≤ _ := le_deepest hmem hin
        rwa [h.loggedDepth_eq hsound hd] at hle
  refine ⟨?_, ?_⟩
  · intro id d
    rw [List.mem_cons, Prod.mk.injEq, h.mem_iff, Std.HashMap.getElem?_insert]
    by_cases hid : x.id = id
    · subst hid
      have hisOpen : IsOpen batch x.id := ⟨x, hx, hopen⟩
      simp [hprogress, hisOpen, eq_comm]
    · rw [if_neg (by simpa using hid)]
      simp [Ne.symm hid]
  · have hnew : x.id ∉ settled.reverse.map Prod.fst := by
      intro hmem
      obtain ⟨-, d, hd⟩ := h.mem_map_fst.mp hmem
      cases hprogress.symm.trans hd
    have hparents : ∀ p ∈ x.parents, IsOpen batch p → p ∈ settled.reverse.map Prod.fst := by
      intro p hp hpopen
      obtain ⟨y, hy, -⟩ := id hpopen
      obtain ⟨d, -, hd⟩ := hheard.le p (Graph.mem_parents.mpr ⟨hp, by rw [hy]; rfl⟩)
      exact h.mem_map_fst.mpr ⟨hpopen, d, hd⟩
    have hgrown := h.topological.concat hx hopen hnew hparents
    rw [hdeepest, Nat.add_comm] at hgrown
    rw [List.reverse_cons]
    exact hgrown

/-- **Every turn keeps the log in order.** -/
theorem Logs.step (h : Logs batch w) (hsound : Sound batch w)
    (hstep : Walk.step (.ofBatch batch) w = .next w') : Logs batch w' := by
  cases advance_of_step hstep with
  | settle => exact h.settle hsound
  | hear _ => exact ⟨h.mem_iff, h.topological⟩
  | @meet marks x y p ps deepest fs settled hmark hy =>
      rw [Graph.table_ofBatch] at hy
      obtain rfl := id_of_first? hy
      have hread : Logs batch ⟨marks, ⟨x, ps, deepest⟩ :: fs, settled⟩ :=
        ⟨h.mem_iff, h.topological⟩
      exact hread.enter hy hmark
  | skip _ _ => exact ⟨h.mem_iff, h.topological⟩

theorem Reached.logs (h : Reached (.ofBatch batch) w) : Logs batch w := by
  induction h with
  | start => exact logs_start
  | enter _ _ hx hmark ih => exact ih.enter (Graph.mem_firsts.mp hx) hmark
  | turn hreached hstep ih => exact ih.step hreached.sound hstep

/-- **The log of the whole walk is that of a reached state**, in which every shard has settled
    if the walk does not fail. -/
theorem ofGraph_logs (batch : List Item) :
    ∃ v, Logs batch v ∧ (ofGraph (.ofBatch batch)).1.settled = v.settled ∧
      ((ofGraph (.ofBatch batch)).2 = none → ∀ id, (first? batch id).isSome = true →
        ∃ d, v.marks[id]? = some (.resolved d)) := by
  obtain ⟨v, hv, -, hend⟩ :=
    visit_reached (g := .ofBatch batch) _ (fun x hx => hx) Reached.start rfl
  refine ⟨v, hv.logs, ?_⟩
  rcases hend with ⟨hvisit, hidle, hall⟩ | ⟨v', named, hvisit, hstep⟩
  · rw [ofGraph, hvisit]
    refine ⟨rfl, fun _ id hid => ?_⟩
    obtain ⟨x, hx⟩ := Option.isSome_iff_exists.mp hid
    obtain rfl := id_of_first? hx
    obtain ⟨d, hd, -⟩ := hv.sound.due_of_contains hidle hx (hall x (Graph.mem_firsts.mpr hx))
    exact ⟨d, hd⟩
  · obtain ⟨x, ps, deepest, fs, -, rfl⟩ := eq_of_cycle hstep
    rw [ofGraph, hvisit]
    exact ⟨rfl, fun hnone => by cases hnone⟩

end Walk

/-! ### The events -/

/-- The shards that have settled with their depths, as the events tell of them. -/
def resolutions (events : List Event) : List (String × Nat) :=
  events.filterMap fun e => match e with
    | .resolved id d => some (id, d)
    | _ => none

theorem resolutions_resolve (batch : List Item) :
    resolutions (resolve batch).events = (Walk.ofGraph (.ofBatch batch)).1.settled.reverse := by
  have hwarnings : (Graph.ofBatch batch).warnings.filterMap (fun e => match e with
      | .resolved id d => some (id, d)
      | _ => none) = ([] : List (String × Nat)) := by
    refine List.filterMap_eq_nil_iff.mpr fun e he => ?_
    obtain ⟨entry, -, rfl⟩ := List.mem_map.mp he
    rfl
  show resolutions ((Graph.ofBatch batch).warnings ++ _) = _
  rw [resolutions, List.filterMap_append, hwarnings, List.nil_append, List.filterMap_map]
  exact List.filterMap_some

/-- **The resolutions that are logged are a part of the batch in topological order**, also where
    the batch fails: open shards, none of them twice, each after everything that it awaits and
    at the depth that goes by that.  A batch that does not fail has logged all of its open
    shards; one that fails has logged none that leads to a cycle. -/
theorem resolutions_topological (batch : List Item) :
    Topological batch (resolutions (resolve batch).events) ∧
      ((∃ depths, (resolve batch).result = .ok depths ∧
          ∀ id, id ∈ (resolutions (resolve batch).events).map Prod.fst ↔ IsOpen batch id) ∨
        ∃ e, (resolve batch).result = .error e ∧
          ∀ id ∈ (resolutions (resolve batch).events).map Prod.fst,
            ∀ q, Relation.ReflTransGen (Awaits batch) id q →
              ¬ Relation.TransGen (Awaits batch) q q) := by
  obtain ⟨v, hlogs, hsettled, hall⟩ := Walk.ofGraph_logs batch
  rw [resolutions_resolve, hsettled]
  refine ⟨hlogs.topological, ?_⟩
  rcases hwalk : Walk.ofGraph (.ofBatch batch) with ⟨w, o⟩
  cases o with
  | none =>
      rw [hwalk] at hall
      have hok : ∃ depths, (resolve batch).result = .ok depths := by
        simp only [resolve, Graph.resolve, hwalk]
        exact ⟨_, rfl⟩
      obtain ⟨depths, hok⟩ := hok
      refine Or.inl ⟨depths, hok, fun id => ?_⟩
      rw [hlogs.mem_map_fst]
      refine ⟨fun h => h.1, fun hopen => ⟨hopen, ?_⟩⟩
      obtain ⟨x, hx, -⟩ := hopen
      exact hall rfl id (by rw [hx]; rfl)
  | some named =>
      refine Or.inr ⟨.circularDependency named, by simp only [resolve, Graph.resolve, hwalk], ?_⟩
      intro id hid q hpath
      exact hlogs.topological.not_transGen_self hid hpath

/-- Three shards are logged, the child after the parents that it lists. -/
theorem resolutions_topological_threeGenerations :
    ((resolutions (resolve threeGenerations).events).map Prod.fst).Perm ["c", "b", "a"] ∧
      ∃ before d after, resolutions (resolve threeGenerations).events =
          before ++ ("c", d) :: after ∧
        "a" ∈ before.map Prod.fst ∧ "b" ∈ before.map Prod.fst := by
  obtain ⟨htopological, ⟨-, -, hall⟩ | ⟨e, herr, -⟩⟩ := resolutions_topological threeGenerations
  · have hopen : openIds threeGenerations = ["c", "b", "a"] := by decide
    have hids : ∀ id, id ∈ (resolutions (resolve threeGenerations).events).map Prod.fst ↔
        id ∈ ["c", "b", "a"] := by
      intro id
      rw [hall, ← hopen, mem_openIds]
    refine ⟨(List.perm_ext_iff_of_nodup htopological.nodup (by decide)).mpr hids, ?_⟩
    obtain ⟨⟨id, d⟩, hmem, rfl⟩ := List.mem_map.mp ((hids "c").mpr (by decide))
    obtain ⟨before, after, hsplit⟩ := List.append_of_mem hmem
    obtain ⟨x, hx, hparents, -⟩ := htopological.due _ _ _ _ hsplit
    obtain rfl : ⟨"c", ["a", "b"], false⟩ = x := Option.some.inj hx
    refine ⟨before, d, after, hsplit, ?_, ?_⟩
    · exact hparents "a" (by decide) (mem_openIds.mp (by rw [hopen]; decide))
    · exact hparents "b" (by decide) (mem_openIds.mp (by rw [hopen]; decide))
  · cases (resolve_of_law law_threeGenerations).symm.trans herr

end LeaseOrder
