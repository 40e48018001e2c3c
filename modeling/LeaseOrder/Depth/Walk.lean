/-
The depth-first walk that settles the depth of every shard of a graph.

The walk keeps its open shards on a stack of its own, so a long chain of ancestors
costs memory only.  One turn of `step` reads one parent of the topmost shard or, when
all are read, settles it at one more than its deepest parent.  An open shard met again
is its own ancestor.

`run` ends because every turn uses up work: `work` counts the parents still to be read
on the stack, and what the shards that are not yet entered will put there.
-/
import LeaseOrder.Depth.Graph

namespace LeaseOrder

/-- What is known of a shard that the walk has entered. -/
inductive Mark where
  /-- The shard is on the stack. -/
  | inProgress
  /-- The depth of the shard is settled. -/
  | resolved (depth : Nat)
deriving DecidableEq, Repr

/-- An open shard: the parents still to be read and the greatest depth among those read. -/
structure Frame where
  item : Item
  unread : List String
  deepest : Nat

/-- The state of the walk. -/
structure Walk where
  /-- What is known so far; a shard that has not been entered has no mark. -/
  marks : Std.HashMap String Mark
  /-- The open shards, each a parent of the one below it. -/
  stack : List Frame
  /-- The shards settled by the walk with their depths, latest first. -/
  settled : List (String × Nat)

/-- The outcome of one turn. -/
inductive Walk.Turn where
  /-- No shard is open. -/
  | finished (w : Walk)
  /-- The open shard with this ID has been met again. -/
  | cycle (w : Walk) (id : String)
  /-- The walk goes on. -/
  | next (w : Walk)

namespace Walk

/-- The state before the first shard is entered. -/
def start : Walk := ⟨∅, [], []⟩

/-- Enters a shard: a completed one is settled at once, any other one is opened. -/
def enter (g : Graph) (w : Walk) (x : Item) : Walk :=
  if x.completed then
    { w with marks := w.marks.insert x.id (.resolved 0) }
  else
    { w with
      marks := w.marks.insert x.id .inProgress
      stack := ⟨x, g.parents x, 0⟩ :: w.stack }

/-- Tells the topmost open shard the depth of one of its parents. -/
def report (depth : Nat) : List Frame → List Frame
  | [] => []
  | f :: fs => { f with deepest := max f.deepest depth } :: fs

/-- One turn of the walk. -/
def step (g : Graph) : Walk → Turn
  | ⟨marks, [], settled⟩ => .finished ⟨marks, [], settled⟩
  | ⟨marks, ⟨x, [], deepest⟩ :: fs, settled⟩ =>
    .next ⟨marks.insert x.id (.resolved (deepest + 1)), report (deepest + 1) fs,
      (x.id, deepest + 1) :: settled⟩
  | ⟨marks, ⟨x, p :: ps, deepest⟩ :: fs, settled⟩ =>
    match marks[p]? with
    | some (.resolved d) => .next ⟨marks, ⟨x, ps, max deepest d⟩ :: fs, settled⟩
    | some .inProgress => .cycle ⟨marks, ⟨x, ps, deepest⟩ :: fs, settled⟩ p
    | none =>
      match g.table[p]? with
      | some y => .next (enter g ⟨marks, ⟨x, ps, deepest⟩ :: fs, settled⟩ y)
      | none => .next ⟨marks, ⟨x, ps, deepest⟩ :: fs, settled⟩

/-! ### The work that is left -/

/-- The turns that a list of shards will take, those with a mark left out. -/
def pending (g : Graph) (marks : Std.HashMap String Mark) (xs : List Item) : Nat :=
  xs.foldr (fun x n => (if marks.contains x.id then 0 else 1 + (g.parents x).length) + n) 0

/-- The turns that the open shards will take. -/
def opened (fs : List Frame) : Nat :=
  fs.foldr (fun f n => (1 + f.unread.length) + n) 0

/-- A bound on the turns that are left. -/
def work (g : Graph) (w : Walk) : Nat :=
  pending g w.marks g.firsts + opened w.stack

theorem pending_insert_le (g : Graph) (marks : Std.HashMap String Mark) (id : String) (m : Mark)
    (xs : List Item) : pending g (marks.insert id m) xs ≤ pending g marks xs := by
  induction xs with
  | nil => simp [pending]
  | cons x xs ih =>
    simp only [pending, List.foldr_cons, Std.HashMap.contains_insert] at ih ⊢
    refine Nat.add_le_add ?_ ih
    by_cases h : marks.contains x.id <;> simp [h]
    split <;> omega

theorem pending_insert_lt (g : Graph) {marks : Std.HashMap String Mark} {x : Item} (m : Mark)
    (hx : marks.contains x.id = false) {xs : List Item} (hmem : x ∈ xs) :
    pending g (marks.insert x.id m) xs + (1 + (g.parents x).length) ≤ pending g marks xs := by
  induction xs with
  | nil => simp at hmem
  | cons y ys ih =>
    have hle := pending_insert_le g marks x.id m ys
    rcases List.mem_cons.mp hmem with rfl | hmem
    · simp only [pending, List.foldr_cons, Std.HashMap.contains_insert_self, hx] at hle ⊢
      simp only [if_true, Bool.false_eq_true, if_false]
      omega
    · have := ih hmem
      simp only [pending, List.foldr_cons] at this ⊢
      have hy : (if (marks.insert x.id m).contains y.id then 0 else 1 + (g.parents y).length) ≤
          if marks.contains y.id then 0 else 1 + (g.parents y).length := by
        rw [Std.HashMap.contains_insert]
        by_cases h : marks.contains y.id <;> simp [h]
        split <;> omega
      omega

@[simp] theorem opened_report (d : Nat) (fs : List Frame) : opened (report d fs) = opened fs := by
  cases fs <;> rfl

/-- Every turn uses up work. -/
theorem work_step_lt {g : Graph} {w w' : Walk} (h : step g w = .next w') : work g w' < work g w := by
  obtain ⟨marks, stack, settled⟩ := w
  match stack with
  | [] => simp [step] at h
  | ⟨x, [], deepest⟩ :: fs =>
    simp only [step, Turn.next.injEq] at h
    subst h
    have := pending_insert_le g marks x.id (.resolved (deepest + 1)) g.firsts
    simp only [work, opened_report]
    simp only [opened, List.foldr_cons, List.length_nil] at this ⊢
    omega
  | ⟨x, p :: ps, deepest⟩ :: fs =>
    simp only [step] at h
    split at h
    · simp only [Turn.next.injEq] at h
      subst h
      simp only [work, opened, List.foldr_cons, List.length_cons]
      omega
    · simp at h
    · rename_i hmark
      split at h
      · rename_i y hy
        obtain ⟨hmem, rfl⟩ := Graph.mem_firsts_of_table hy
        simp only [Turn.next.injEq] at h
        subst h
        simp only [enter]
        have hx : marks.contains y.id = false := by
          rw [Std.HashMap.contains_eq_isSome_getElem?, hmark]
          rfl
        split
        · have := pending_insert_le g marks y.id (.resolved 0) g.firsts
          simp only [work, opened, List.foldr_cons, List.length_cons]
          omega
        · have := pending_insert_lt g .inProgress hx hmem
          simp only [work, opened, List.foldr_cons, List.length_cons]
          omega
      · simp only [Turn.next.injEq] at h
        subst h
        simp only [work, opened, List.foldr_cons, List.length_cons]
        omega

/-! ### Whole runs -/

/-- Turns until no shard is open, or until an open shard is met again, which is then named. -/
def run (g : Graph) (w : Walk) : Walk × Option String :=
  match _h : step g w with
  | .finished w' => (w', none)
  | .cycle w' id => (w', some id)
  | .next w' => run g w'
termination_by work g w
decreasing_by exact work_step_lt _h

/-- Walks from every listed shard that has not been entered yet. -/
def visit (g : Graph) : List Item → Walk → Walk × Option String
  | [], w => (w, none)
  | x :: xs, w =>
    if w.marks.contains x.id then visit g xs w
    else match run g (enter g w x) with
      | (w', none) => visit g xs w'
      | (w', some id) => (w', some id)

/-- The whole walk, with the shards of the batch as starting points in their order. -/
def ofGraph (g : Graph) : Walk × Option String :=
  visit g g.firsts start

/-- The settled depth of a shard. -/
def depth? (w : Walk) (id : String) : Option Nat :=
  match w.marks[id]? with
  | some (.resolved d) => some d
  | _ => none

end Walk

end LeaseOrder
