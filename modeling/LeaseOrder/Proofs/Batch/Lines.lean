/-
A batch is read back from its text.

The text of a record has no line end in it, so the lines of a printed batch are the texts
of its records, one each, and none of them is blank.  Decoding the bytes gives the same
characters back, and every line is read as the record that was written there, if that
record is valid.  Every record that is read is.
-/
import LeaseOrder.Batch.Lines
import LeaseOrder.Proofs.Record

namespace LeaseOrder.Batch

open Json Record

/-! ### Lines -/

/-- What stands in front of a line feed is a line, unless it has a line feed or ends with a
    carriage return. -/
theorem lines_append {l rest : List (Option Char)} (hfeed : some '\n' ∉ l)
    (hreturn : l.getLast? ≠ some (some '\r')) :
    lines (l ++ some '\n' :: rest) = l :: lines rest := by
  induction l with
  | nil => rw [List.nil_append, lines, if_pos rfl]
  | cons c l ih =>
    have hc : c ≠ some '\n' := fun h => hfeed (h ▸ List.mem_cons_self)
    have hl : some '\n' ∉ l := fun h => hfeed (List.mem_cons_of_mem _ h)
    have hlast : l.getLast? ≠ some (some '\r') := by
      intro h
      rw [List.getLast?_cons, h] at hreturn
      exact hreturn rfl
    have hpair : ¬ (c = some '\r' ∧ (l ++ some '\n' :: rest).head? = some (some '\n')) := by
      rintro ⟨rfl, hhead⟩
      cases l with
      | nil => exact hreturn rfl
      | cons d l =>
        obtain rfl : d = some '\n' := by simpa using hhead
        exact hl List.mem_cons_self
    rw [List.cons_append, lines, if_neg hc, if_neg (by simpa using hpair), ih hl hlast]

theorem exists_not_isBlank {v : Value} (h : Plain v) : ∃ c ∈ v.chars, ¬ Text.isBlank c := by
  cases h with
  | null => exact ⟨'n', by simp [Value.chars], by decide⟩
  | bool b =>
    cases b with
    | true => exact ⟨'t', by simp [Value.chars], by decide⟩
    | false => exact ⟨'f', by simp [Value.chars], by decide⟩
  | word n =>
    obtain ⟨c, cs, hcs⟩ := List.exists_cons_of_ne_nil (Text.decimalChars_ne_nil n.toNat)
    have hc : c ∈ Text.decimalChars n.toNat := hcs ▸ List.mem_cons_self
    refine ⟨c, ?_, Text.not_isBlank_of_isDigit (Text.isDigit_of_mem_decimalChars hc)⟩
    simpa [Value.word, Value.chars, Number.text, Text.decimal] using hc
  | string s => exact ⟨'"', by simp [Value.chars, stringChars], by decide⟩
  | array _ => exact ⟨'[', by simp [Value.chars], by decide⟩
  | object _ => exact ⟨'\x7b', by simp [Value.chars], by decide⟩

section Records

variable {α : Type} [Record α]

theorem toList_print (batch : List α) :
    (print batch).toList = batch.flatMap fun x => (text x).toList ++ ['\n'] := by
  simp [print, String.toList_join, List.flatMap_map]

variable [Lawful α]

theorem visible_text (x : α) : Visible (text x).toList := by
  rw [text, Value.text, String.toList_ofList]
  exact visible_chars (Lawful.plain_encode x)

theorem lines_text_append (x : α) (rest : List (Option Char)) :
    lines ((text x).toList.map some ++ some '\n' :: rest) =
      (text x).toList.map some :: lines rest := by
  have hmem : ∀ {c : Char}, some c ∈ (text x).toList.map some → ¬ c.val < 0x20 := by
    intro c hc
    exact visible_text x c (by simpa using hc)
  refine lines_append (fun h => hmem h (by decide)) fun h => ?_
  exact hmem (List.mem_of_getLast? h) (by decide)

theorem lines_print (batch : List α) :
    lines (Text.decode (Text.encode (print batch))) =
      batch.map fun x => (text x).toList.map some := by
  rw [Text.decode_encode, toList_print]
  induction batch with
  | nil => rfl
  | cons x batch ih =>
    rw [List.flatMap_cons, List.append_assoc, List.map_append, List.map_append, List.map_cons,
      List.map_nil, List.singleton_append, lines_text_append, ih, List.map_cons]

@[simp] theorem not_isAllBlank_text (x : α) : Text.isAllBlank (text x) = false := by
  obtain ⟨c, hc, hblank⟩ := exists_not_isBlank (Lawful.plain_encode x)
  rw [Text.isAllBlank, text, Value.text, String.toList_ofList, List.all_eq_false]
  exact ⟨c, hc, hblank⟩

/-! ### Reading the lines -/

theorem readLine_text {x : α} (hx : Lawful.Valid x) :
    readLine ((text x).toList.map some) = .ok (some x) := by
  simp [readLine, ofText_text hx]

variable {batch : List α}

theorem readLines_texts (number : Nat) (h : ∀ x ∈ batch, Lawful.Valid x) :
    readLines number (batch.map fun x => (text x).toList.map some) = .ok batch := by
  induction batch generalizing number with
  | nil => rfl
  | cons x batch ih =>
    rw [List.map_cons, readLines, readLine_text (h x List.mem_cons_self),
      ih _ fun y hy => h y (List.mem_cons_of_mem _ hy)]
    rfl

theorem parse_print (h : ∀ x ∈ batch, Lawful.Valid x) :
    parse (Text.encode (print batch)) = .ok batch := by
  rw [parse, lines_print, readLines_texts 1 h]

theorem valid_of_readLine {line : List (Option Char)} {x : α}
    (h : readLine line = .ok (some x)) : Lawful.Valid x := by
  unfold readLine at h
  split at h
  · cases h
  split at h
  · cases h
  split at h
  · rename_i y hy
    obtain rfl := Option.some.inj (Except.ok.inj h)
    exact valid_of_ofText hy
  · cases h

theorem valid_of_readLines {number : Nat} {ls : List (List (Option Char))}
    (h : readLines number ls = .ok batch) : ∀ x ∈ batch, Lawful.Valid x := by
  induction ls generalizing number batch with
  | nil =>
    obtain rfl := Except.ok.inj h
    simp
  | cons l ls ih =>
    obtain ⟨y, hy, h⟩ := ok_of_bind h
    obtain ⟨rest, hrest, h⟩ := ok_of_bind h
    obtain rfl := Except.ok.inj h
    intro x hx
    rcases List.mem_append.mp hx with hx | hx
    · obtain rfl : y = some x := by simpa using hx
      exact valid_of_readLine (ok_of_mapError hy)
    · exact ih hrest x hx

/-- What is read is valid. -/
theorem valid_of_parse {contents : Text.Bytes} (h : parse contents = .ok batch) :
    ∀ x ∈ batch, Lawful.Valid x :=
  valid_of_readLines h

end Records

end LeaseOrder.Batch
