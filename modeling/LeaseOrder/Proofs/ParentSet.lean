/-
Sets of parents as lists of texts.

A set is made of IDs in any order, with repeats, and keeps each of them once.  Its texts are
listed in the order of their bytes, and which texts they are depends on the IDs alone, not on
the way the set came about.
-/
import Mathlib.Data.List.Basic
import LeaseOrder.Proofs.ByteOrder
import LeaseOrder.Shard.ParentSet

namespace LeaseOrder

theorem ShardId.text_injective : Function.Injective ShardId.text := by
  intro a b h
  cases a
  cases b
  cases h
  rfl

/-- Of two IDs one is the smaller, or they are the same. -/
theorem ShardId.eq_of_not_lt {a b : ShardId} (hab : ¬ a < b) (hba : ¬ b < a) : a = b :=
  text_injective (String.le_antisymm hba hab)

namespace ParentSet

variable {s : ParentSet} {ids xs : List ShardId} {id y : ShardId} {t : String}

/-! ### Members -/

@[simp] theorem mem_insertSorted : y ∈ insertSorted id xs ↔ y = id ∨ y ∈ xs := by
  induction xs with
  | nil => simp [insertSorted]
  | cons x xs ih =>
    rw [insertSorted]
    by_cases hlt : id < x
    · rw [if_pos hlt, List.mem_cons]
    rw [if_neg hlt]
    by_cases hgt : x < id
    · rw [if_pos hgt, List.mem_cons, ih, List.mem_cons]
      exact or_left_comm
    · -- The ID is there already, and stays there once.
      rw [if_neg hgt, ShardId.eq_of_not_lt hlt hgt]
      simp

@[simp] theorem mem_ids_insert : y ∈ (s.insert id).ids ↔ y = id ∨ y ∈ s.ids :=
  mem_insertSorted

theorem mem_foldl_insert : y ∈ (ids.foldl insert s).ids ↔ y ∈ s.ids ∨ y ∈ ids := by
  induction ids generalizing s with
  | nil => simp
  | cons id ids ih =>
    rw [List.foldl_cons, ih, mem_ids_insert, List.mem_cons, or_assoc]
    exact or_left_comm

@[simp] theorem mem_ids_ofList : y ∈ (ofList ids).ids ↔ y ∈ ids := by
  rw [ofList, mem_foldl_insert]
  simp [empty]

/-! ### Texts -/

@[simp] theorem mem_texts_iff : id.text ∈ s.texts ↔ id ∈ s :=
  List.mem_map_of_injective ShardId.text_injective

theorem valid_of_mem_texts (h : t ∈ s.texts) : ShardId.Valid t := by
  obtain ⟨id, -, rfl⟩ := List.mem_map.mp h
  exact id.valid

@[simp] theorem mem_texts_ofList : t ∈ (ofList ids).texts ↔ t ∈ ids.map ShardId.text := by
  simp [texts]

@[simp] theorem mem_texts_insert : t ∈ (s.insert id).texts ↔ t ∈ s.texts ∨ t = id.text := by
  rw [texts, texts, List.mem_map, List.mem_map]
  simp only [mem_ids_insert]
  refine ⟨?_, ?_⟩
  · rintro ⟨y, rfl | hy, rfl⟩
    · exact .inr rfl
    · exact .inl ⟨y, hy, rfl⟩
  · rintro (⟨y, hy, rfl⟩ | rfl)
    · exact ⟨y, .inr hy, rfl⟩
    · exact ⟨id, .inl rfl, rfl⟩

/-- **The texts of a set ascend by their bytes.** -/
theorem pairwise_texts (s : ParentSet) :
    s.texts.Pairwise fun p q => Text.encode p < Text.encode q := by
  rw [texts, List.pairwise_map]
  exact s.ascending.imp fun h => Text.encode_lt_encode h

theorem nodup_texts (s : ParentSet) : s.texts.Nodup := by
  refine s.pairwise_texts.imp ?_
  rintro p q hlt rfl
  exact List.lt_irrefl _ hlt

end ParentSet

end LeaseOrder
