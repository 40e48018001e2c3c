/-
What the graph of a batch holds.

`Graph.ofBatch` reads the batch item by item and keeps the first occurrence of each ID
in a table.  Whatever the walk asks of the graph is answered here in terms of the batch
alone: a look-up in the table finds the first occurrence, an entry is marked as first
where no earlier item has its ID, and the parents of an item are the listed ones that
occur in the batch.
-/
import LeaseOrder.Depth.Graph
import LeaseOrder.Proofs.Ancestry

namespace LeaseOrder.Graph

open Ancestry

/-! ### One more item -/

theorem ofBatch_concat (batch : List Item) (x : Item) :
    ofBatch (batch ++ [x]) = (ofBatch batch).add batch.length x := by
  simp [ofBatch, List.zipIdx_append]

/-- An item enters the table unless its ID is there already. -/
theorem table_add (g : Graph) (i : Nat) (x : Item) (id : String) :
    (g.add i x).table[id]? = g.table[id]?.or (if x.id = id then some x else none) := by
  unfold add
  split
  · rename_i hc
    show g.table[id]? = _
    by_cases hid : x.id = id
    · subst hid
      rw [Std.HashMap.contains_eq_isSome_getElem?] at hc
      obtain ⟨y, hy⟩ := Option.isSome_iff_exists.mp hc
      rw [hy, Option.some_or]
    · rw [if_neg hid, Option.or_none]
  · rename_i hc
    show (g.table.insert x.id x)[id]? = _
    rw [Std.HashMap.getElem?_insert]
    by_cases hid : x.id = id
    · subst hid
      rw [Std.HashMap.contains_eq_isSome_getElem?] at hc
      simp [Option.not_isSome_iff_eq_none.mp hc]
    · simp [hid]

theorem entries_add (g : Graph) (i : Nat) (x : Item) :
    (g.add i x).entries = g.entries ++ [⟨i, x, !g.table.contains x.id⟩] := by
  unfold add entries
  split <;> simp_all

/-! ### Whole batches -/

/-- **The table holds the first occurrence of every ID of the batch.** -/
@[simp] theorem table_ofBatch (batch : List Item) (id : String) :
    (ofBatch batch).table[id]? = first? batch id := by
  induction batch using List.reverseRecOn with
  | nil => simp [ofBatch, empty, first?]
  | append_singleton batch x ih =>
      rw [ofBatch_concat, table_add, ih]
      simp only [first?, List.find?_append, List.find?_singleton, beq_iff_eq]

@[simp] theorem contains_ofBatch (batch : List Item) (id : String) :
    (ofBatch batch).table.contains id = (first? batch id).isSome := by
  rw [Std.HashMap.contains_eq_isSome_getElem?, table_ofBatch]

/-- The entries are the items in order, marked where an ID is new. -/
theorem entries_ofBatch (batch : List Item) :
    (ofBatch batch).entries =
      batch.zipIdx.map fun p => ⟨p.2, p.1, isFresh batch p.2 p.1.id⟩ := by
  induction batch using List.reverseRecOn with
  | nil => rfl
  | append_singleton batch x ih =>
      rw [ofBatch_concat, entries_add, ih, contains_ofBatch, List.zipIdx_append, List.map_append]
      congr 1
      · -- What comes before a position of the old batch is what came before it.
        refine List.map_congr_left fun p hp => ?_
        have hlt : p.2 < batch.length := by simpa using List.snd_lt_of_mem_zipIdx hp
        simp [isFresh, List.take_append_of_le_length (Nat.le_of_lt hlt)]
      · simp [isFresh]

@[simp] theorem mem_firsts {batch : List Item} {x : Item} :
    x ∈ (ofBatch batch).firsts ↔ first? batch x.id = some x := by
  have hpos : first? batch x.id = some x ↔ ∃ i, FirstAt batch i x := by
    rw [first?_eq_some_iff]
    exact and_iff_right rfl
  rw [hpos, firsts, entries_ofBatch]
  simp only [firstAt_iff, List.mem_filterMap, List.mem_map, Prod.exists]
  refine ⟨?_, ?_⟩
  · intro h
    obtain ⟨e, ⟨y, i, hmem, rfl⟩, he⟩ := h
    simp only [Option.ite_none_right_eq_some, Option.some.injEq] at he
    obtain ⟨hfresh, rfl⟩ := he
    exact ⟨i, by simpa [List.mem_zipIdx_iff_getElem?] using hmem, hfresh⟩
  · intro h
    obtain ⟨i, hget, hfresh⟩ := h
    exact ⟨_, ⟨x, i, by simpa [List.mem_zipIdx_iff_getElem?] using hget, rfl⟩, by simp [hfresh]⟩

theorem parents_ofBatch (batch : List Item) (x : Item) :
    (ofBatch batch).parents x =
      (x.parents.filter fun p => (first? batch p).isSome).reverse := by
  have hin : (ofBatch batch).table.contains = fun p => (first? batch p).isSome :=
    funext (contains_ofBatch batch)
  rw [parents, hin]

@[simp] theorem mem_parents {batch : List Item} {x : Item} {p : String} :
    p ∈ (ofBatch batch).parents x ↔ p ∈ x.parents ∧ (first? batch p).isSome = true := by
  rw [parents_ofBatch, List.mem_reverse, List.mem_filter]

end LeaseOrder.Graph
