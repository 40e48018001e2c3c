/-
The table that a plainly written document describes.

Entries with different keys of one part are fields in the order they are written in, and the
header of a table that is not there yet puts the table behind them.
-/
import Mathlib.Data.List.Nodup
import LeaseOrder.Toml.Node

namespace LeaseOrder.Toml

variable {key : String} {n : Node} {fields settings : Fields}

/-- A setting under a key of one part. -/
def Entry.bare (setting : String × Node) : Entry :=
  ⟨[], setting.1, setting.2⟩

theorem get?_eq_none_iff : fields.get? key = none ↔ key ∉ fields.map Prod.fst := by
  rw [Fields.get?, Option.map_eq_none_iff, List.find?_eq_none, List.mem_map]
  refine ⟨?_, ?_⟩
  · rintro h ⟨f, hf, rfl⟩
    exact h f hf (beq_self_eq_true f.1)
  · intro h f hf heq
    exact h ⟨f, hf, eq_of_beq heq⟩

theorem set_of_get?_eq_none (h : fields.get? key = none) :
    fields.set key n = fields ++ [(key, n)] := by
  rw [get?_eq_none_iff] at h
  induction fields with
  | nil => rfl
  | cons f fields ih =>
    obtain ⟨hhead, hrest⟩ := not_or.mp (mt List.mem_cons.mpr h)
    have hkey : (f.1 == key) = false := beq_eq_false_iff_ne.mpr (Ne.symm hhead)
    rw [Fields.set, hkey, if_neg (by decide), ih hrest, List.cons_append]

theorem addTo_bare (setting : String × Node) (h : fields.get? setting.1 = none) :
    (Entry.bare setting).addTo fields = some (fields ++ [setting]) := by
  simp [Entry.addTo, Entry.bare, Fields.place, Fields.add, h]

/-- Settings with keys of their own are all added, one behind the other. -/
theorem addAll_bare (h : ((fields ++ settings).map Prod.fst).Nodup) :
    Entry.addAll (settings.map .bare) fields = some (fields ++ settings) := by
  induction settings generalizing fields with
  | nil => simp [Entry.addAll]
  | cons setting settings ih =>
    have hfresh : fields.get? setting.1 = none := by
      rw [get?_eq_none_iff]
      intro hmem
      rw [List.map_append, List.map_cons] at h
      exact (List.disjoint_of_nodup_append h) hmem List.mem_cons_self
    rw [List.append_cons] at h
    rw [Entry.addAll, List.map_cons, List.foldlM_cons, addTo_bare setting hfresh,
      Option.bind_eq_bind, Option.bind_some, ← Entry.addAll, ih h, List.append_assoc]
    rfl

/-- Settings in front, and one table with settings of its own. -/
theorem fields?_of_table (htop : (fields.map Prod.fst).Nodup) (hkey : key ∉ fields.map Prod.fst)
    (hinner : (settings.map Prod.fst).Nodup) :
    Document.fields? ⟨fields.map .bare, [.table [] key (settings.map .bare)]⟩ =
      some (fields ++ [(key, .table .defined settings)]) := by
  have htopAll : Entry.addAll (fields.map .bare) [] = some fields := addAll_bare htop
  have hinnerAll : Entry.addAll (settings.map .bare) [] = some settings := addAll_bare hinner
  have hnone := get?_eq_none_iff.mpr hkey
  simp [Document.fields?, htopAll, Section.addTo, Section.place, Fields.place, hnone, hinnerAll,
    set_of_get?_eq_none hnone]

end LeaseOrder.Toml
