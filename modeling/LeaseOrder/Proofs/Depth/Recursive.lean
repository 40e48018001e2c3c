/-
Depths by plain recursion.

`depthOf` says what the depth of a shard is without a stack of its own: a shard that is
marked is looked up, a completed one has depth 0, and any other one is marked as in progress,
asks its parents one after the other, and settles one deeper than the deepest of them.  What
is found out is kept in a `Memo`, which every call hands on to the next.

The recursion ends because a call that goes on to parents has marked one shard more.  No mark
is ever taken away, also not by the calls in between, so `Outcome` carries that fact along.
-/
import Mathlib.Data.Finset.Card
import Mathlib.Data.List.Basic
import Mathlib.Data.Finset.Dedup
import LeaseOrder.Depth.Resolve
import LeaseOrder.Proofs.Ancestry

namespace LeaseOrder

open Ancestry

/-- What has been found out so far. -/
structure Memo where
  /-- A shard that has not been asked for yet has no mark. -/
  marks : Std.HashMap String Mark
  /-- The shards that have been worked out with their depths, latest first. -/
  settled : List (String × Nat)

namespace Memo

/-- Nothing has been found out. -/
def start : Memo := ⟨∅, []⟩

/-- The memo with a mark. -/
def mark (m : Memo) (id : String) (k : Mark) : Memo :=
  { m with marks := m.marks.insert id k }

/-- The memo with a shard that has been worked out. -/
def settle (m : Memo) (id : String) (depth : Nat) : Memo :=
  ⟨m.marks.insert id (.resolved depth), (id, depth) :: m.settled⟩

/-- Whatever is marked in one memo is marked in the other. -/
def Grows (m m' : Memo) : Prop :=
  ∀ id, m.marks.contains id = true → m'.marks.contains id = true

theorem Grows.refl (m : Memo) : m.Grows m := fun _ h => h

theorem Grows.trans {m m' m'' : Memo} (h : m.Grows m') (h' : m'.Grows m'') : m.Grows m'' :=
  fun id hid => h' id (h id hid)

theorem grows_mark (m : Memo) (id : String) (k : Mark) : m.Grows (m.mark id k) := by
  intro q hq
  simp [mark, hq]

theorem grows_settle (m : Memo) (id : String) (d : Nat) : m.Grows (m.settle id d) :=
  grows_mark m id (.resolved d)

/-- What a call leaves behind, and its answer or the ID of the shard that it met again. -/
structure Outcome (m : Memo) (α : Type) where
  memo : Memo
  answer : Except String α
  grows : m.Grows memo

/-! ### What is left to mark -/

/-- The number of shards of a batch that have no mark yet. -/
def unmarked (batch : List Item) (m : Memo) : Nat :=
  ((batch.map Item.id).toFinset.filter fun id => m.marks.contains id = false).card

theorem unmarked_le {batch : List Item} {m m' : Memo} (h : m.Grows m') :
    unmarked batch m' ≤ unmarked batch m := by
  refine Finset.card_le_card fun id hid => ?_
  obtain ⟨hin, hnone⟩ := Finset.mem_filter.mp hid
  refine Finset.mem_filter.mpr ⟨hin, ?_⟩
  by_contra hc
  rw [h id (by simpa using hc)] at hnone
  exact nomatch hnone

theorem unmarked_mark_lt {batch : List Item} {m : Memo} {id : String} {x : Item} {k : Mark}
    (hx : first? batch id = some x) (hmark : m.marks[id]? = none) :
    unmarked batch (m.mark id k) < unmarked batch m := by
  refine Finset.card_lt_card ⟨fun q hq => ?_, fun hsub => ?_⟩
  · obtain ⟨hin, hnone⟩ := Finset.mem_filter.mp hq
    refine Finset.mem_filter.mpr ⟨hin, ?_⟩
    simp only [mark, Std.HashMap.contains_insert, Bool.or_eq_false_iff] at hnone
    exact hnone.2
  · have hid : id ∈ (batch.map Item.id).toFinset.filter fun q => m.marks.contains q = false := by
      obtain ⟨y, hy, hyid⟩ := isSome_first?.mp (by rw [hx]; rfl)
      refine Finset.mem_filter.mpr ⟨List.mem_toFinset.mpr (List.mem_map.mpr ⟨y, hy, hyid⟩), ?_⟩
      rw [Std.HashMap.contains_eq_isSome_getElem?, hmark]
      rfl
    obtain ⟨-, hnone⟩ := Finset.mem_filter.mp (hsub hid)
    simp [mark] at hnone

/-! ### The recursion -/

/-- The parents of an item that are in the batch, the last one listed first. -/
def parentsIn (batch : List Item) (x : Item) : List String :=
  (x.parents.filter fun p => (first? batch p).isSome).reverse

mutual

/-- The depth of a shard. -/
def depthOf (batch : List Item) (m : Memo) (id : String) : Outcome m Nat :=
  match _hmark : m.marks[id]? with
  | some (.resolved d) => ⟨m, .ok d, .refl m⟩
  | some .inProgress => ⟨m, .error id, .refl m⟩
  | none =>
    match _hx : first? batch id with
    | none => ⟨m, .ok 0, .refl m⟩
    | some x =>
      if x.completed then ⟨m.mark id (.resolved 0), .ok 0, grows_mark m id _⟩
      else
        let r := depthsOf batch (m.mark id .inProgress) (parentsIn batch x)
        match r.answer with
        | .ok ds =>
          ⟨r.memo.settle id (ds.foldl max 0 + 1), .ok (ds.foldl max 0 + 1),
            ((grows_mark m id _).trans r.grows).trans (grows_settle _ id _)⟩
        | .error e => ⟨r.memo, .error e, (grows_mark m id _).trans r.grows⟩
termination_by (unmarked batch m, 0)
decreasing_by exact .left _ _ (unmarked_mark_lt _hx _hmark)

/-- The depths of some shards, one after the other. -/
def depthsOf (batch : List Item) (m : Memo) (ids : List String) : Outcome m (List Nat) :=
  match ids with
  | [] => ⟨m, .ok [], .refl m⟩
  | id :: ids =>
    let r := depthOf batch m id
    match r.answer with
    | .ok d =>
      let rest := depthsOf batch r.memo ids
      ⟨rest.memo, rest.answer.map (d :: ·), r.grows.trans rest.grows⟩
    | .error e => ⟨r.memo, .error e, r.grows⟩
termination_by (unmarked batch m, ids.length + 1)
decreasing_by
  · exact .right _ (by omega)
  · rcases Nat.lt_or_eq_of_le (unmarked_le r.grows) with hlt | heq
    · exact .left _ _ hlt
    · rw [heq]
      exact .right _ (by simp)

end

/-! ### What a call comes to -/

variable {batch : List Item} {m : Memo} {id : String}

theorem depthOf_resolved {d : Nat} (h : m.marks[id]? = some (.resolved d)) :
    depthOf batch m id = ⟨m, .ok d, .refl m⟩ := by
  unfold depthOf
  split <;> simp_all

theorem depthOf_inProgress (h : m.marks[id]? = some .inProgress) :
    depthOf batch m id = ⟨m, .error id, .refl m⟩ := by
  unfold depthOf
  split <;> simp_all

theorem depthOf_absent (h : m.marks[id]? = none) (hx : first? batch id = none) :
    depthOf batch m id = ⟨m, .ok 0, .refl m⟩ := by
  unfold depthOf
  split <;> simp_all
  split <;> simp_all

variable {x : Item}

theorem depthOf_completed (h : m.marks[id]? = none) (hx : first? batch id = some x)
    (hc : x.completed = true) :
    depthOf batch m id = ⟨m.mark id (.resolved 0), .ok 0, grows_mark m id _⟩ := by
  unfold depthOf
  split <;> simp_all
  split <;> simp_all

/-- An open shard that has no mark yet fails with its parents or settles one deeper. -/
theorem depthOf_open (h : m.marks[id]? = none) (hx : first? batch id = some x)
    (hopen : x.completed = false) :
    let parents := depthsOf batch (m.mark id .inProgress) (parentsIn batch x)
    let one := depthOf batch m id
    (∃ e, parents.answer = .error e ∧ one.answer = .error e ∧ one.memo = parents.memo) ∨
      ∃ ds, parents.answer = .ok ds ∧ one.answer = .ok (ds.foldl max 0 + 1) ∧
        one.memo = parents.memo.settle id (ds.foldl max 0 + 1) := by
  intro parents one
  have hone : one.answer = parents.answer.map (fun ds => ds.foldl max 0 + 1) ∧
      one.memo = match parents.answer with
        | .ok ds => parents.memo.settle id (ds.foldl max 0 + 1)
        | .error _ => parents.memo := by
    simp only [one]
    unfold depthOf
    split
    · simp_all
    · simp_all
    · split
      · simp_all
      · rename_i y hy
        obtain rfl := Option.some.inj (hx.symm.trans hy)
        rw [if_neg (by simp [hopen])]
        cases hp : parents.answer with
        | ok ds => exact ⟨by simp [parents, hp, Except.map], by simp [parents, hp]⟩
        | error e => exact ⟨by simp [parents, hp, Except.map], by simp [parents, hp]⟩
  obtain ⟨hanswer, hmemo⟩ := hone
  cases hp : parents.answer with
  | error e =>
      rw [hp] at hanswer hmemo
      exact Or.inl ⟨e, rfl, hanswer, hmemo⟩
  | ok ds =>
      rw [hp] at hanswer hmemo
      exact Or.inr ⟨ds, rfl, hanswer, hmemo⟩

theorem depthsOf_nil : depthsOf batch m [] = ⟨m, .ok [], .refl m⟩ := by
  unfold depthsOf
  rfl

/-- A list of shards fails at its first one, or later, or not at all. -/
theorem depthsOf_cons (batch : List Item) (m : Memo) (id : String) (ids : List String) :
    let one := depthOf batch m id
    let rest := depthsOf batch one.memo ids
    let all := depthsOf batch m (id :: ids)
    (∃ e, one.answer = .error e ∧ all.answer = .error e ∧ all.memo = one.memo) ∨
      ∃ d, one.answer = .ok d ∧ all.memo = rest.memo ∧
        ((∃ e, rest.answer = .error e ∧ all.answer = .error e) ∨
          ∃ ds, rest.answer = .ok ds ∧ all.answer = .ok (d :: ds)) := by
  intro one rest all
  cases hone : one.answer with
  | error e =>
      refine Or.inl ⟨e, rfl, ?_, ?_⟩
      · simp_all [all, one, depthsOf]
      · simp_all [all, one, depthsOf]
  | ok d =>
      have hall : all.memo = rest.memo ∧ all.answer = rest.answer.map (d :: ·) := by
        simp_all [all, rest, one, depthsOf]
      refine Or.inr ⟨d, rfl, hall.1, ?_⟩
      cases hrest : rest.answer with
      | error e => exact Or.inl ⟨e, rfl, by rw [hall.2, hrest]; rfl⟩
      | ok ds => exact Or.inr ⟨ds, rfl, by rw [hall.2, hrest]; rfl⟩

/-- The settled depth of a shard. -/
def depth? (m : Memo) (id : String) : Option Nat :=
  match m.marks[id]? with
  | some (.resolved d) => some d
  | _ => none

end Memo

/-! ### Whole batches -/

/-- The distinct IDs of a batch, in the order of their first occurrences. -/
def distinctIds (batch : List Item) : List String :=
  (batch.zipIdx.filter fun p => isFresh batch p.2 p.1.id).map fun p => p.1.id

/-- The depths of a batch by recursion, with the shards in the order in which they settle. -/
def resolveRecursively (batch : List Item) : Logged Depths :=
  let r := Memo.depthsOf batch .start (distinctIds batch)
  { events := r.memo.settled.reverse.map fun s => .resolved s.1 s.2
    result := match r.answer with
      | .ok _ => .ok ⟨batch.zipIdx.map fun p =>
          if isFresh batch p.2 p.1.id then r.memo.depth? p.1.id else none⟩
      | .error id => .error (.circularDependency id) }

end LeaseOrder
