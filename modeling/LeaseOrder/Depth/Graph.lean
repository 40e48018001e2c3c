/-
A batch as a graph of shards.

The first occurrence of an ID stands for it; a later one is kept as a repeat and takes
no part in anything else.  Parents outside the batch count as retired and are left out
of `Graph.parents`.
-/
import Std.Data.HashMap
import LeaseOrder.Order.Basic

namespace LeaseOrder

/-- An item at its place in a batch. -/
structure Entry where
  position : Nat
  item : Item
  /-- No earlier item of the batch has the same ID. -/
  isFirst : Bool

/-- A batch with its first occurrences at hand. -/
structure Graph where
  /-- The batch, latest item first. -/
  latest : List Entry
  /-- The first occurrence of each ID. -/
  table : Std.HashMap String Item
  /-- The table holds first occurrences only, each under its own ID. -/
  table_sound : ∀ id x, table[id]? = some x → x.id = id ∧ ∃ e ∈ latest, e.isFirst = true ∧ e.item = x

namespace Graph

/-- The graph of the empty batch. -/
def empty : Graph := ⟨[], ∅, by simp⟩

/-- The graph with one more item at the end of the batch. -/
def add (g : Graph) (position : Nat) (x : Item) : Graph :=
  if g.table.contains x.id then
    { g with
      latest := ⟨position, x, false⟩ :: g.latest
      table_sound := fun id y h => by
        obtain ⟨hid, e, he, hf⟩ := g.table_sound id y h
        exact ⟨hid, e, .tail _ he, hf⟩ }
  else
    { latest := ⟨position, x, true⟩ :: g.latest
      table := g.table.insert x.id x
      table_sound := fun id y h => by
        rw [Std.HashMap.getElem?_insert] at h
        split at h
        · rename_i heq
          simp only [Option.some.injEq] at h
          subst h
          exact ⟨by simpa using heq, _, .head _, rfl, rfl⟩
        · obtain ⟨hid, e, he, hf⟩ := g.table_sound id y h
          exact ⟨hid, e, .tail _ he, hf⟩ }

/-- The graph of a batch. -/
def ofBatch (batch : List Item) : Graph :=
  batch.zipIdx.foldl (fun g p => g.add p.2 p.1) empty

/-- The items of the batch in order. -/
def entries (g : Graph) : List Entry :=
  g.latest.reverse

/-- The first occurrences, in batch order. -/
def firsts (g : Graph) : List Item :=
  g.entries.filterMap fun e => if e.isFirst then some e.item else none

/-- The later occurrences, in batch order. -/
def repeats (g : Graph) : List Entry :=
  g.entries.filter fun e => !e.isFirst

/-- The number of distinct IDs. -/
def size (g : Graph) : Nat :=
  g.table.size

/-- The parents of an item that are in the batch, in the reverse of their listed order. -/
def parents (g : Graph) (x : Item) : List String :=
  (x.parents.filter g.table.contains).reverse

theorem mem_firsts_of_table {g : Graph} {id : String} {x : Item} (h : g.table[id]? = some x) :
    x ∈ g.firsts ∧ x.id = id := by
  obtain ⟨hid, e, he, hf, rfl⟩ := g.table_sound id x h
  exact ⟨List.mem_filterMap.mpr ⟨e, by simpa [entries] using he, by simp [hf]⟩, hid⟩

end Graph

end LeaseOrder
