/-
Shards that arrive later.

A batch grows at its end.  Where no open shard of it has a parent that only arrives later, the
old part is closed: what an old shard awaits is old.  The walk takes its starting points in
batch order, so it goes through the old part first, turn by turn as if nothing had arrived, and
a cycle there is found before anything new is looked at.  A cycle that appears with the new
shards runs among new shards only, and the law of depths is the same equation as before for
every old one.  A late item with an old ID is a repeat, and counts for nothing.
-/
import LeaseOrder.Proofs.Order.Repeats

namespace LeaseOrder

open Ancestry Prioritizable

/-- No open shard of a batch has a parent that arrives later only. -/
def Precedes (batch later : List Item) : Prop :=
  ∀ x ∈ batch, first? batch x.id = some x → x.completed = false →
    ∀ p ∈ x.parents, (first? later p).isSome = true → (first? batch p).isSome = true

instance (batch later : List Item) : Decidable (Precedes batch later) :=
  inferInstanceAs (Decidable (∀ x ∈ batch, first? batch x.id = some x → x.completed = false →
    ∀ p ∈ x.parents, (first? later p).isSome = true → (first? batch p).isSome = true))

/-- The items that arrive later under IDs of their own. -/
def arrivals (batch later : List Item) : List Item :=
  later.filter fun y => (first? batch y.id).isNone

variable {batch later : List Item} {depth : String → Nat}

/-! ### The old part -/

/-- What stands for an ID goes on standing for it. -/
theorem first?_append_of_some {id : String} {x : Item} (hx : first? batch id = some x) :
    first? (batch ++ later) id = some x := by
  rw [first?_append, hx, Option.some_or]

theorem firstAt_append {i : Nat} (hi : i < batch.length) {x : Item} :
    FirstAt (batch ++ later) i x ↔ FirstAt batch i x := by
  rw [firstAt_iff, firstAt_iff, List.getElem?_append_left hi, isFresh, isFresh,
    List.take_append_of_le_length (Nat.le_of_lt hi)]

theorem layout_append {i : Nat} (hi : i < batch.length) :
    (Depths.layout (batch ++ later) depth).get i = (Depths.layout batch depth).get i := by
  refine Option.ext fun d => ?_
  rw [Depths.get_layout, Depths.get_layout]
  simp only [firstAt_append hi]

@[simp] theorem map_item (xs : List Item) : xs.map item = xs :=
  List.map_id' xs

/-- The first records of the joined batch are the old ones, then those that have arrived. -/
theorem firstRecords_arrivals (batch later : List Item) :
    firstRecords (batch ++ later) = firstRecords batch ++ firstRecords (arrivals batch later) := by
  rw [firstRecords_append, map_item]
  congr 1
  exact (firstRecords_filter (fun id => (first? batch id).isNone) later).symm

namespace Precedes

variable (h : Precedes batch later)

include h

/-- The parents of an old open shard are old, or they do not arrive at all. -/
theorem isSome_first? {id p : String} {x : Item} (hx : first? batch id = some x)
    (hopen : x.completed = false) (hp : p ∈ x.parents)
    (hin : (first? (batch ++ later) p).isSome = true) : (first? batch p).isSome = true := by
  obtain rfl := id_of_first? hx
  rw [first?_append, Option.isSome_or, Bool.or_eq_true] at hin
  rcases hin with hin | hin
  · exact hin
  · exact h x (List.mem_of_find?_eq_some hx) hx hopen p hp hin

/-- The joined batch shows the old one as it is. -/
theorem mirrors : Mirrors (fun id => id) (fun _ => true) batch (batch ++ later) where
  first := by
    intro id x hx _
    simp [first?_append_of_some hx]
  hidden := fun _ _ _ hhidden => Bool.noConfusion hhidden
  parents := fun _ _ hx hopen _ hp hin => ⟨h.isSome_first? hx hopen hp hin, rfl⟩
  inj := fun _ _ _ _ _ _ hname => hname

/-- Depths of the joined batch are depths of the old one. -/
theorem law (law : DepthLaw (batch ++ later) depth) : DepthLaw batch depth := by
  refine law.of_closed (fun id x hx => first?_append_of_some hx) ?_
  intro id x hx hopen p hp hpopen
  obtain ⟨y, hy, -⟩ := hpopen
  exact h.isSome_first? hx hopen hp (by rw [hy]; rfl)

/-- What an old shard awaits, it awaited before. -/
theorem awaits {c p : String} (hc : (first? batch c).isSome = true)
    (hawaits : Awaits (batch ++ later) c p) : Awaits batch c p := by
  obtain ⟨x, hx, hopen, hp, y, hy, hyopen⟩ := hawaits
  obtain ⟨x', hx'⟩ := Option.isSome_iff_exists.mp hc
  obtain rfl := Option.some.inj ((first?_append_of_some hx').symm.trans hx)
  obtain ⟨y', hy'⟩ := Option.isSome_iff_exists.mp
    (h.isSome_first? hx' hopen hp (by rw [hy]; rfl))
  obtain rfl := Option.some.inj ((first?_append_of_some hy').symm.trans hy)
  exact ⟨_, hx', hopen, hp, _, hy', hyopen⟩

theorem transGen {c q : String} (hc : (first? batch c).isSome = true)
    (hpath : Relation.TransGen (Awaits (batch ++ later)) c q) :
    Relation.TransGen (Awaits batch) c q := by
  induction hpath with
  | single hawaits => exact .single (h.awaits hc hawaits)
  | tail _ hawaits ih =>
      -- The shard before the last step was reached among old shards.
      obtain ⟨b, -, hlast⟩ := Relation.TransGen.tail'_iff.mp ih
      obtain ⟨y, hy, -⟩ := hlast.parent_isOpen
      exact ih.tail (h.awaits (by rw [hy]; rfl) hawaits)

end Precedes

/-! ### The walk through the joined batch -/

/-- A walk that fails at one of its starting points does not come to those behind it. -/
theorem Walk.visit_append_of_cycle {g : Graph} {id : String} (ys : List Item) :
    ∀ (xs : List Item) {w v : Walk}, visit g xs w = (v, some id) →
      visit g (xs ++ ys) w = (v, some id) := by
  intro xs
  induction xs with
  | nil => intro w v hvisit; cases hvisit
  | cons x xs ih =>
      intro w v hvisit
      rw [List.cons_append]
      by_cases hc : w.marks.contains x.id = true
      · rw [visit_marked hc] at hvisit ⊢
        exact ih hvisit
      · rcases hrun : run g (enter g w x) with ⟨u, o⟩
        cases o with
        | none =>
            rw [visit_ok hc hrun] at hvisit ⊢
            exact ih hvisit
        | some id' =>
            rw [visit_cycle hc hrun] at hvisit ⊢
            exact hvisit

/-- The old first occurrences come before the new ones. -/
theorem exists_firsts_append (batch later : List Item) :
    ∃ rest, (Graph.ofBatch (batch ++ later)).firsts = (Graph.ofBatch batch).firsts ++ rest := by
  have hfirsts := firsts_ofBatch (batch ++ later)
  have hold := firsts_ofBatch batch
  simp only [map_item] at hfirsts hold
  exact ⟨_, by rw [hfirsts, firstRecords_arrivals, hold]⟩

/-- **A cycle among the old shards is found as it was before.** -/
theorem Precedes.resolve_error (h : Precedes batch later) {e : OrderError}
    (herr : (resolve batch).result = .error e) : (resolve (batch ++ later)).result = .error e := by
  obtain ⟨hname, -⟩ := Walk.visit_tracks h.mirrors (Graph.ofBatch batch).firsts
    (fun x hx => Graph.mem_firsts.mp hx) Walk.reflects_start rfl
  rw [List.filter_true, Item.map_rename_same] at hname
  rcases hold : Walk.visit (.ofBatch batch) (Graph.ofBatch batch).firsts .start with ⟨w, o⟩
  rcases hnew : Walk.visit (.ofBatch (batch ++ later)) (Graph.ofBatch batch).firsts .start
    with ⟨w', o'⟩
  rw [hold, hnew] at hname
  have hwalk : Walk.ofGraph (.ofBatch batch) = (w, o) := hold
  simp only [resolve, Graph.resolve, hwalk] at herr
  cases o with
  | none => cases herr
  | some id =>
      obtain rfl : o' = some id := hname
      have hwalk' : Walk.ofGraph (.ofBatch (batch ++ later)) = (w', some id) := by
        obtain ⟨rest, hrest⟩ := exists_firsts_append batch later
        rw [Walk.ofGraph, hrest]
        exact Walk.visit_append_of_cycle _ _ hnew
      simp only [resolve, Graph.resolve, hwalk']
      exact herr

/-! ### Repeats among what arrives -/

/-- The table by ID lists the first records. -/
theorem depthTable_eq (batch : List Item) (depth : String → Nat) :
    depthTable batch depth = (firstRecords batch).map fun x => (x.id, depth x.id) := by
  rw [depthTable, firstRecords, List.map_filterMap, ← List.filterMap_eq_map,
    List.filterMap_filter, map_item]
  refine List.filterMap_congr fun p _ => ?_
  by_cases hfresh : isFresh batch p.2 p.1.id = true
  · simp [hfresh, item]
  · simp [hfresh, item]

theorem resolveById_of_firstRecords_eq {other : List Item}
    (h : firstRecords other = firstRecords batch) : resolveById other = resolveById batch := by
  have hspec := resolve_of_firstRecords_eq h
  simp only [map_item] at hspec
  rcases hspec with ⟨depth, law, law'⟩ | ⟨id, herr, herr'⟩
  · rw [resolveById_of_law law, resolveById_of_law law', depthTable_eq, depthTable_eq, h]
  · rw [resolveById, resolveById, herr, herr']
    rfl

/-- **What arrives later does not disturb what is there**, as long as no open shard has a parent
    that only arrives later.  A batch that fails goes on failing at the same shard.  A batch
    that does not fail keeps its depths, or a shard that has only just arrived is named.
    Items that arrive under old IDs have no effect on the depths nor on the failure. -/
theorem resolve_arrivals (h : Precedes batch later) :
    (∀ e, (resolve batch).result = .error e → (resolve (batch ++ later)).result = .error e) ∧
      (∀ depths depths', (resolve batch).result = .ok depths →
        (resolve (batch ++ later)).result = .ok depths' →
          ∀ i < batch.length, depths'.get i = depths.get i) ∧
      (∀ depths e, (resolve batch).result = .ok depths →
        (resolve (batch ++ later)).result = .error e →
          ∃ id, e = .circularDependency id ∧ id ∈ later.map Item.id ∧
            id ∉ batch.map Item.id) ∧
      ∀ other, arrivals batch other = arrivals batch later →
        resolveById (batch ++ other) = resolveById (batch ++ later) := by
  refine ⟨fun e herr => h.resolve_error herr, ?_, ?_, ?_⟩
  · intro depths depths' hok hok' i hi
    obtain ⟨depth, law, rfl⟩ := resolve_ok hok'
    obtain rfl := Except.ok.inj ((resolve_of_law (h.law law)).symm.trans hok)
    exact layout_append hi
  · intro depths e hok herr
    obtain ⟨depth, law, -⟩ := resolve_ok hok
    obtain ⟨id, rfl, hcycle⟩ := LeaseOrder.resolve_error herr
    have hold : ¬ (first? batch id).isSome = true := fun hin =>
      law.not_transGen_self id (h.transGen hin hcycle)
    obtain ⟨c, -, hlast⟩ := Relation.TransGen.tail'_iff.mp hcycle
    obtain ⟨x, hx, -⟩ := hlast.parent_isOpen
    have hlater : (first? later id).isSome = true := by
      rw [first?_append, Option.not_isSome_iff_eq_none.mp hold, Option.none_or] at hx
      rw [hx]
      rfl
    rw [Ancestry.isSome_first?, ← List.mem_map] at hold hlater
    exact ⟨id, rfl, hlater, hold⟩
  · intro other hsame
    refine resolveById_of_firstRecords_eq ?_
    rw [firstRecords_arrivals, firstRecords_arrivals, hsame]

/-- Two shards that are each other's parents, and an old ID once more. -/
def lateCycle : List Item :=
  [⟨"e", ["c", "f"], false⟩, ⟨"f", ["e"], false⟩, ⟨"a", ["c"], false⟩]

/-- A shard of the next generation, and the same old ID. -/
def lateChild : List Item :=
  [⟨"e", ["c", "f"], false⟩, ⟨"a", ["c"], false⟩]

/-- What arrives may form a cycle, which is then its own; if it does not, the old depths stay. -/
theorem resolve_arrivals_lateCycle :
    (Precedes threeGenerations lateCycle ∧
      ∃ id, (resolve (threeGenerations ++ lateCycle)).result =
          .error (.circularDependency id) ∧
        id ∈ lateCycle.map Item.id ∧ id ∉ threeGenerations.map Item.id) ∧
    Precedes threeGenerations lateChild ∧
      ∃ depths, (resolve (threeGenerations ++ lateChild)).result = .ok depths ∧
        depths.get 5 = some 4 ∧
        ∀ i < 5, depths.get i = (Depths.layout threeGenerations generation).get i := by
  have hok : (resolve threeGenerations).result = .ok (.layout threeGenerations generation) :=
    resolve_of_law law_threeGenerations
  refine ⟨?_, ?_⟩
  · have h : Precedes threeGenerations lateCycle := by decide
    have hout : Awaits (threeGenerations ++ lateCycle) "e" "f" :=
      ⟨⟨"e", ["c", "f"], false⟩, by decide, rfl, by decide, ⟨"f", ["e"], false⟩, by decide, rfl⟩
    have hback : Awaits (threeGenerations ++ lateCycle) "f" "e" :=
      ⟨⟨"f", ["e"], false⟩, by decide, rfl, by decide, ⟨"e", ["c", "f"], false⟩, by decide, rfl⟩
    obtain ⟨e, herr⟩ := (resolve_fails_iff (threeGenerations ++ lateCycle)).mpr
      ⟨"e", (Relation.TransGen.single hout).tail hback⟩
    obtain ⟨-, -, hnew, -⟩ := resolve_arrivals h
    obtain ⟨id, rfl, hlater, hold⟩ := hnew _ e hok herr
    exact ⟨h, id, herr, hlater, hold⟩
  · have h : Precedes threeGenerations lateChild := by decide
    have law : DepthLaw (threeGenerations ++ lateChild)
        (fun id => if id = "e" then 4 else generation id) := by decide
    have hok' := resolve_of_law law
    obtain ⟨-, hsame, -⟩ := resolve_arrivals h
    exact ⟨h, _, hok', by decide, hsame _ _ hok hok'⟩

end LeaseOrder
