/-
What the walk knows while it runs.

`Sound` is the invariant of every state of the walk.  The frames on the stack are open
shards, each of them a parent of the one below it, and they are exactly the shards
marked as in progress.  A frame has split the parents of its shard into those that it
has heard from, whose greatest depth it keeps, and those still to be read; a frame that
is not on top waits for one parent more, the shard above it.  A shard with a settled
depth has the depth that its parents call for.

Every turn keeps the invariant, and where the walk meets an open shard again the frames
from that shard up are a cycle of open shards.
-/
import LeaseOrder.Depth.Walk
import LeaseOrder.Proofs.Depth.Graph

namespace LeaseOrder.Walk

open Ancestry

/-! ### One turn -/

/-- What a turn does when the walk goes on. -/
inductive Advance (g : Graph) : Walk → Walk → Prop
  | settle {marks : Std.HashMap String Mark} {x : Item} {deepest : Nat} {fs : List Frame}
      {settled : List (String × Nat)} :
      Advance g ⟨marks, ⟨x, [], deepest⟩ :: fs, settled⟩
        ⟨marks.insert x.id (.resolved (deepest + 1)), report (deepest + 1) fs,
          (x.id, deepest + 1) :: settled⟩
  | hear {marks : Std.HashMap String Mark} {x : Item} {p : String} {ps : List String}
      {deepest d : Nat} {fs : List Frame} {settled : List (String × Nat)}
      (hmark : marks[p]? = some (.resolved d)) :
      Advance g ⟨marks, ⟨x, p :: ps, deepest⟩ :: fs, settled⟩
        ⟨marks, ⟨x, ps, max deepest d⟩ :: fs, settled⟩
  | meet {marks : Std.HashMap String Mark} {x y : Item} {p : String} {ps : List String}
      {deepest : Nat} {fs : List Frame} {settled : List (String × Nat)}
      (hmark : marks[p]? = none) (hy : g.table[p]? = some y) :
      Advance g ⟨marks, ⟨x, p :: ps, deepest⟩ :: fs, settled⟩
        (enter g ⟨marks, ⟨x, ps, deepest⟩ :: fs, settled⟩ y)
  | skip {marks : Std.HashMap String Mark} {x : Item} {p : String} {ps : List String}
      {deepest : Nat} {fs : List Frame} {settled : List (String × Nat)}
      (hmark : marks[p]? = none) (hy : g.table[p]? = none) :
      Advance g ⟨marks, ⟨x, p :: ps, deepest⟩ :: fs, settled⟩
        ⟨marks, ⟨x, ps, deepest⟩ :: fs, settled⟩

theorem advance_of_step {g : Graph} {w w' : Walk} (h : step g w = .next w') :
    Advance g w w' := by
  obtain ⟨marks, stack, settled⟩ := w
  match stack with
  | [] => simp [step] at h
  | ⟨x, [], deepest⟩ :: fs =>
      simp only [step, Turn.next.injEq] at h
      subst h
      exact .settle
  | ⟨x, p :: ps, deepest⟩ :: fs =>
      simp only [step] at h
      split at h
      · rename_i d hmark
        simp only [Turn.next.injEq] at h
        subst h
        exact .hear hmark
      · simp at h
      · rename_i hmark
        split at h <;> simp only [Turn.next.injEq] at h <;> subst h
        · rename_i y hy
          exact .meet hmark hy
        · rename_i hy
          exact .skip hmark hy

/-- The walk fails where the next parent of the topmost shard is in progress. -/
theorem step_cycle {g : Graph} {w w' : Walk} {id : String} (h : step g w = .cycle w' id) :
    ∃ x ps deepest fs, w.stack = ⟨x, id :: ps, deepest⟩ :: fs ∧
      w.marks[id]? = some .inProgress := by
  obtain ⟨marks, stack, settled⟩ := w
  match stack with
  | [] => simp [step] at h
  | ⟨x, [], deepest⟩ :: fs => simp [step] at h
  | ⟨x, p :: ps, deepest⟩ :: fs =>
      simp only [step] at h
      split at h
      · simp at h
      · rename_i hmark
        simp only [Turn.cycle.injEq] at h
        obtain ⟨-, rfl⟩ := h
        exact ⟨x, ps, deepest, fs, rfl, hmark⟩
      · split at h <;> simp at h

/-! ### Settled depths -/

variable {marks marks' : Std.HashMap String Mark}

/-- The depths that some marks record are recorded by others. -/
def Keeps (marks marks' : Std.HashMap String Mark) : Prop :=
  ∀ (id : String) (d : Nat), marks[id]? = some (.resolved d) → marks'[id]? = some (.resolved d)

/-- Marking a shard that has no depth keeps the depths of the others. -/
theorem keeps_insert {id : String} {m : Mark} (hnone : ∀ d, marks[id]? ≠ some (.resolved d)) :
    Keeps marks (marks.insert id m) := by
  intro q d hq
  have hne : id ≠ q := by
    intro h
    subst h
    exact hnone d hq
  rw [Std.HashMap.getElem?_insert, if_neg (by simpa using hne)]
  exact hq

/-! ### Frames -/

/-- The parents that have been read are settled, and the greatest of their depths is known. -/
structure Heard (marks : Std.HashMap String Mark) (read : List String) (deepest : Nat) :
    Prop where
  le : ∀ p ∈ read, ∃ d ≤ deepest, marks[p]? = some (.resolved d)
  attained : deepest = 0 ∨ ∃ p ∈ read, marks[p]? = some (.resolved deepest)

/-- Each frame waits for the shard above it, the topmost frame for `next`. -/
def Waits (g : Graph) (marks : Std.HashMap String Mark) : String → List Frame → Prop
  | _, [] => True
  | next, f :: fs =>
    (∃ read, g.parents f.item = read ++ next :: f.unread ∧ Heard marks read f.deepest) ∧
      Waits g marks f.item.id fs

/-- The topmost frame has heard from every parent that it has read. -/
def Reads (g : Graph) (marks : Std.HashMap String Mark) : List Frame → Prop
  | [] => True
  | f :: fs =>
    (∃ read, g.parents f.item = read ++ f.unread ∧ Heard marks read f.deepest) ∧
      Waits g marks f.item.id fs

/-- The depth that an item is due, going by the settled depths of its parents. -/
def Due (g : Graph) (marks : Std.HashMap String Mark) (x : Item) (d : Nat) : Prop :=
  (x.completed = true ∧ d = 0) ∨
    (x.completed = false ∧ ∃ deepest, d = deepest + 1 ∧ Heard marks (g.parents x) deepest)

theorem Heard.mono (hk : Keeps marks marks') {read : List String} {deepest : Nat}
    (h : Heard marks read deepest) : Heard marks' read deepest := by
  refine ⟨?_, ?_⟩
  · intro p hp
    obtain ⟨d, hle, hd⟩ := h.le p hp
    exact ⟨d, hle, hk p d hd⟩
  · rcases h.attained with hzero | ⟨p, hp, hd⟩
    · exact Or.inl hzero
    · exact Or.inr ⟨p, hp, hk p _ hd⟩

/-- One more parent with a settled depth. -/
theorem Heard.concat {read : List String} {deepest d : Nat} {p : String}
    (h : Heard marks read deepest) (hp : marks[p]? = some (.resolved d)) :
    Heard marks (read ++ [p]) (max deepest d) := by
  refine ⟨?_, ?_⟩
  · intro q hq
    rcases List.mem_append.mp hq with hq | hq
    · obtain ⟨e, hle, he⟩ := h.le q hq
      exact ⟨e, by omega, he⟩
    · rw [List.mem_singleton.mp hq]
      exact ⟨d, by omega, hp⟩
  · rcases Nat.le_total deepest d with hle | hle
    · rw [Nat.max_eq_right hle]
      exact Or.inr ⟨p, by simp, hp⟩
    · rw [Nat.max_eq_left hle]
      rcases h.attained with hzero | ⟨q, hq, he⟩
      · exact Or.inl hzero
      · exact Or.inr ⟨q, by simp [hq], he⟩

variable {g : Graph}

theorem Waits.mono (hk : Keeps marks marks') :
    ∀ {fs : List Frame} {next : String}, Waits g marks next fs → Waits g marks' next fs := by
  intro fs
  induction fs with
  | nil => intro next h; exact h
  | cons f fs ih =>
      intro next h
      obtain ⟨⟨read, hsplit, hheard⟩, hrest⟩ := h
      exact ⟨⟨read, hsplit, hheard.mono hk⟩, ih hrest⟩

theorem Due.mono (hk : Keeps marks marks') {x : Item} {d : Nat} (h : Due g marks x d) :
    Due g marks' x d := by
  rcases h with h | ⟨hopen, m, hd, hheard⟩
  · exact Or.inl h
  · exact Or.inr ⟨hopen, m, hd, hheard.mono hk⟩

/-- Once the awaited shard has its depth, the topmost frame has heard from it. -/
theorem reads_report {next : String} {d : Nat} (hd : marks[next]? = some (.resolved d)) :
    ∀ {fs : List Frame}, Waits g marks next fs → Reads g marks (report d fs) := by
  intro fs h
  cases fs with
  | nil => trivial
  | cons f fs =>
      obtain ⟨⟨read, hsplit, hheard⟩, hrest⟩ := h
      exact ⟨⟨read ++ [next], by simpa using hsplit, hheard.concat hd⟩, hrest⟩

@[simp] theorem report_zero (fs : List Frame) : report 0 fs = fs := by
  cases fs with
  | nil => rfl
  | cons f fs => simp [report]

/-- A report changes what a frame has heard, not which shard it is. -/
@[simp] theorem items_report (d : Nat) (fs : List Frame) :
    (report d fs).map Frame.item = fs.map Frame.item := by
  cases fs with
  | nil => rfl
  | cons f fs => rfl

/-! ### The invariant -/

/-- What the stack and the marks of a state of the walk say about the batch. -/
structure Consistent (batch : List Item) (w : Walk) : Prop where
  /-- The shards on the stack are open. -/
  frames : ∀ x ∈ w.stack.map Frame.item, first? batch x.id = some x ∧ x.completed = false
  /-- A shard is in progress as long as it is on the stack. -/
  inProgress : ∀ id, w.marks[id]? = some .inProgress ↔ ∃ x ∈ w.stack.map Frame.item, x.id = id
  /-- No shard is on the stack twice. -/
  nodup : ((w.stack.map Frame.item).map Item.id).Nodup
  /-- A settled depth is the one that is due. -/
  lawful : ∀ id d, w.marks[id]? = some (.resolved d) →
    ∃ x, first? batch id = some x ∧ Due (.ofBatch batch) w.marks x d

/-- What holds of every state of the walk over a batch. -/
structure Sound (batch : List Item) (w : Walk) : Prop extends Consistent batch w where
  /-- The frames know the depths of the parents that they have read. -/
  reads : Reads (.ofBatch batch) w.marks w.stack

variable {batch : List Item}

theorem sound_start : Sound batch start where
  frames := by simp [start]
  inProgress := by simp [start]
  nodup := by simp [start]
  lawful := by simp [start]
  reads := trivial

/-- Settling a depth that is due keeps the depths lawful. -/
theorem lawful_insert
    (h : ∀ (id : String) (d : Nat), marks[id]? = some (.resolved d) →
      ∃ x, first? batch id = some x ∧ Due (.ofBatch batch) marks x d)
    {x : Item} {m : Mark} (hx : first? batch x.id = some x)
    (hnone : ∀ d, marks[x.id]? ≠ some (.resolved d))
    (hdue : ∀ d, m = .resolved d → Due (.ofBatch batch) marks x d) :
    ∀ (id : String) (d : Nat), (marks.insert x.id m)[id]? = some (.resolved d) →
      ∃ y, first? batch id = some y ∧ Due (.ofBatch batch) (marks.insert x.id m) y d := by
  intro id d hd
  have hk : Keeps marks (marks.insert x.id m) := keeps_insert hnone
  rw [Std.HashMap.getElem?_insert] at hd
  by_cases hid : x.id = id
  · subst hid
    simp only [beq_self_eq_true, if_true, Option.some.injEq] at hd
    exact ⟨x, hx, (hdue d hd).mono hk⟩
  · rw [if_neg (by simpa using hid)] at hd
    obtain ⟨y, hy, hdy⟩ := h id d hd
    exact ⟨y, hy, hdy.mono hk⟩

/-- Entering a shard that is new to the walk, from the stack that waits for it. -/
theorem enter_sound {w : Walk} (h : Consistent batch w) {y : Item}
    (hwait : Waits (.ofBatch batch) w.marks y.id w.stack) (hy : first? batch y.id = some y)
    (hmark : w.marks[y.id]? = none) : Sound batch (enter (.ofBatch batch) w y) := by
  have hnone : ∀ d, w.marks[y.id]? ≠ some (.resolved d) := by simp [hmark]
  have hfresh : ¬ ∃ x ∈ w.stack.map Frame.item, x.id = y.id := by
    rw [← h.inProgress, hmark]
    simp
  unfold enter
  split
  · rename_i hc
    refine ⟨⟨h.frames, ?_, h.nodup, lawful_insert h.lawful hy hnone ?_⟩, ?_⟩
    · intro id
      rw [Std.HashMap.getElem?_insert]
      by_cases hid : y.id = id
      · subst hid
        simpa using hfresh
      · rw [if_neg (by simpa using hid)]
        exact h.inProgress id
    · intro d hd
      exact Or.inl ⟨hc, (Mark.resolved.inj hd).symm⟩
    · have hzero : (w.marks.insert y.id (.resolved 0))[y.id]? = some (.resolved 0) := by simp
      have hreads := reads_report hzero (hwait.mono (keeps_insert hnone))
      rwa [report_zero] at hreads
  · rename_i hc
    refine ⟨⟨?_, ?_, ?_, lawful_insert h.lawful hy hnone (by simp)⟩,
      ⟨⟨[], rfl, by simp, Or.inl rfl⟩, hwait.mono (keeps_insert hnone)⟩⟩
    · intro x hx
      rcases List.mem_cons.mp hx with rfl | hx
      · exact ⟨hy, by simpa using hc⟩
      · exact h.frames x hx
    · intro id
      rw [Std.HashMap.getElem?_insert]
      by_cases hid : y.id = id
      · simp [hid]
      · rw [if_neg (by simpa using hid), h.inProgress id]
        simp [hid]
    · rw [List.map_cons, List.map_cons, List.nodup_cons]
      exact ⟨fun hmem => hfresh (by simpa using hmem), h.nodup⟩

/-- Taking the topmost shard off the stack at the depth that it is due. -/
theorem settle_sound {x : Item} {deepest : Nat} {fs : List Frame}
    {settled : List (String × Nat)} (h : Sound batch ⟨marks, ⟨x, [], deepest⟩ :: fs, settled⟩) :
    Sound batch ⟨marks.insert x.id (.resolved (deepest + 1)), report (deepest + 1) fs,
      (x.id, deepest + 1) :: settled⟩ := by
  obtain ⟨⟨hframes, hprogress, hnodup, hlawful⟩, ⟨read, hsplit, hheard⟩, hwait⟩ := h
  obtain ⟨hx, hopen⟩ := hframes x (by simp)
  have hmark : marks[x.id]? = some .inProgress := (hprogress x.id).mpr ⟨x, by simp, rfl⟩
  have hnone : ∀ d, marks[x.id]? ≠ some (.resolved d) := by simp [hmark]
  simp only [List.map_cons, List.nodup_cons] at hnodup
  refine ⟨⟨?_, ?_, ?_, lawful_insert hlawful hx hnone ?_⟩, ?_⟩
  · intro y hy
    rw [items_report] at hy
    exact hframes y (by simp [hy])
  · intro id
    rw [items_report, Std.HashMap.getElem?_insert]
    by_cases hid : x.id = id
    · subst hid
      -- The shard was on the stack once, so it is not there any more.
      simpa using hnodup.1
    · rw [if_neg (by simpa using hid), hprogress id]
      simp [hid]
  · rw [items_report]
    exact hnodup.2
  · intro d hd
    refine Or.inr ⟨hopen, deepest, (Mark.resolved.inj hd).symm, ?_⟩
    rw [hsplit, List.append_nil]
    exact hheard
  · exact reads_report (by simp) (hwait.mono (keeps_insert hnone))

/-- **Every turn keeps the invariant.** -/
theorem Sound.step {w w' : Walk} (h : Sound batch w)
    (hstep : Walk.step (.ofBatch batch) w = .next w') : Sound batch w' := by
  cases advance_of_step hstep with
  | settle => exact settle_sound h
  | @hear marks x p ps deepest d fs settled hmark =>
      obtain ⟨⟨hframes, hprogress, hnodup, hlawful⟩, hreads⟩ := h
      have hwait : Waits (.ofBatch batch) marks p (⟨x, ps, deepest⟩ :: fs) := hreads
      exact ⟨⟨hframes, hprogress, hnodup, hlawful⟩, reads_report hmark hwait⟩
  | @meet marks x y p ps deepest fs settled hmark hy =>
      obtain ⟨⟨hframes, hprogress, hnodup, hlawful⟩, hreads⟩ := h
      rw [Graph.table_ofBatch] at hy
      obtain rfl := id_of_first? hy
      have hread : Consistent batch ⟨marks, ⟨x, ps, deepest⟩ :: fs, settled⟩ :=
        ⟨hframes, hprogress, hnodup, hlawful⟩
      exact enter_sound hread hreads hy hmark
  | @skip marks x p ps deepest fs settled hmark hy =>
      -- A parent that is still to be read is in the batch, so this does not happen.
      obtain ⟨-, ⟨read, hsplit, -⟩, -⟩ := h
      have hp : p ∈ (Graph.ofBatch batch).parents x := by
        rw [hsplit]
        simp
      have hin := (Graph.mem_parents.mp hp).2
      rw [← Graph.table_ofBatch, hy] at hin
      simp at hin

/-! ### A cycle on the stack

Where the next parent of the topmost shard is on the stack already, every frame from
that parent up awaits the shard above it, and the topmost one awaits the parent again.
-/

/-- Every shard on the stack awaits the one that the topmost frame waits for. -/
theorem transGen_of_waits :
    ∀ {fs : List Frame} {next : String},
      (∀ x ∈ fs.map Frame.item, first? batch x.id = some x ∧ x.completed = false) →
      IsOpen batch next → Waits (.ofBatch batch) marks next fs →
      ∀ x ∈ fs.map Frame.item, Relation.TransGen (Awaits batch) x.id next := by
  intro fs
  induction fs with
  | nil => intro next _ _ _ x hx; simp at hx
  | cons f fs ih =>
      intro next hframes hnext hwait x hx
      obtain ⟨⟨read, hsplit, -⟩, hrest⟩ := hwait
      obtain ⟨hf, hopen⟩ := hframes f.item (by simp)
      have hmem : next ∈ (Graph.ofBatch batch).parents f.item := by
        rw [hsplit]
        simp
      have hawaits : Awaits batch f.item.id next :=
        ⟨f.item, hf, hopen, (Graph.mem_parents.mp hmem).1, hnext⟩
      rcases List.mem_cons.mp hx with rfl | hx
      · exact .single hawaits
      · have habove := ih (fun y hy => hframes y (by simp [hy])) ⟨f.item, hf, hopen⟩ hrest x hx
        exact habove.tail hawaits

/-- **The shard that the walk names awaits itself.** -/
theorem Sound.transGen_of_cycle {w w' : Walk} {id : String} (h : Sound batch w)
    (hstep : Walk.step (.ofBatch batch) w = .cycle w' id) :
    Relation.TransGen (Awaits batch) id id := by
  obtain ⟨x, ps, deepest, fs, hstack, hmark⟩ := step_cycle hstep
  obtain ⟨y, hy, rfl⟩ := (h.inProgress id).mp hmark
  obtain ⟨hfirst, hopen⟩ := h.frames y hy
  have hreads := h.reads
  have hframes := h.frames
  rw [hstack] at hreads hframes hy
  have hwait : Waits (.ofBatch batch) w.marks y.id (⟨x, ps, deepest⟩ :: fs) := hreads
  refine transGen_of_waits ?_ ⟨y, hfirst, hopen⟩ hwait y hy
  exact hframes

end LeaseOrder.Walk
