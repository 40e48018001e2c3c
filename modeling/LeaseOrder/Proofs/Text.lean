/-
What is written is read back: bytes and numerals.

`decode` undoes `encode` for every text, characters of any width, and `value` undoes
`decimalChars`.  The numeral readers take the whole run of digits, so all that has to be
known of a numeral is that it is nothing but digits and has no zero in front.
-/
import Mathlib.Data.List.Basic
import Mathlib.Tactic.IntervalCases
import LeaseOrder.Text.Basic
import LeaseOrder.Text.Utf8

namespace LeaseOrder.Text

/-! ### Runs of characters -/

section Runs

variable {α : Type} {p : α → Bool} {run rest : List α}

theorem dropWhile_run (hrun : ∀ x ∈ run, p x) (hrest : ∀ x ∈ rest.head?, ¬ p x) :
    (run ++ rest).dropWhile p = rest := by
  rw [List.dropWhile_append_of_pos hrun]
  cases rest with
  | nil => rfl
  | cons x xs => exact List.dropWhile_cons_of_neg (hrest x rfl)

theorem takeWhile_run (hrun : ∀ x ∈ run, p x) (hrest : ∀ x ∈ rest.head?, ¬ p x) :
    (run ++ rest).takeWhile p = run := by
  have h := List.takeWhile_append_dropWhile (p := p) (l := run ++ rest)
  rw [dropWhile_run hrun hrest] at h
  exact List.append_cancel_right h

end Runs

/-! ### UTF-8 -/

@[simp] theorem encode_append (s t : String) : encode (s ++ t) = encode s ++ encode t := by
  simp [encode]

theorem utf8EncodeChar_ne_nil (c : Char) : String.utf8EncodeChar c ≠ [] := by
  rw [← List.length_pos_iff, String.length_utf8EncodeChar]
  exact c.utf8Size_pos

@[simp] theorem firstChar?_append (c : Char) (bs : Bytes) :
    firstChar? (String.utf8EncodeChar c ++ bs) = some c := by
  have hc : (String.utf8EncodeChar c).length ≤ 4 := by
    rw [String.length_utf8EncodeChar]
    exact c.utf8Size_le_four
  rw [firstChar?, List.take_append, List.take_of_length_le hc, List.toByteArray_append]
  exact ByteArray.utf8DecodeChar?_utf8EncodeChar_append

/-- A character that was written is read, and reading goes on behind it. -/
@[simp] theorem decode_append (c : Char) (bs : Bytes) :
    decode (String.utf8EncodeChar c ++ bs) = some c :: decode bs := by
  obtain ⟨b, tail, hb⟩ := List.exists_cons_of_ne_nil (utf8EncodeChar_ne_nil c)
  have hlen : tail.length = c.utf8Size - 1 := by
    rw [← String.length_utf8EncodeChar, hb, List.length_cons, Nat.add_sub_cancel]
  have hfirst := firstChar?_append c bs
  rw [hb, List.cons_append] at hfirst
  rw [hb, List.cons_append, decode, hfirst]
  simp only
  rw [List.drop_append_of_le_length (by omega), ← hlen, List.drop_length, List.nil_append]

@[simp] theorem decode_encode (s : String) : decode (encode s) = s.toList.map some := by
  rw [encode]
  induction s.toList with
  | nil => rw [List.flatMap_nil, decode, List.map_nil]
  | cons c cs ih => simp [ih]

@[simp] theorem assemble?_map_some (cs : List Char) :
    assemble? (cs.map some) = some (String.ofList cs) := by
  have h : (cs.map some).mapM id = some cs := by
    induction cs with
    | nil => rfl
    | cons c cs ih => simp [ih]
  rw [assemble?, h, Option.map_some]

/-! ### Digits -/

theorem digitValue_digitChar {n : Nat} (h : n < 10) : digitValue (digitChar n) = n := by
  interval_cases n <;> rfl

theorem isDigit_digitChar {n : Nat} (h : n < 10) : (digitChar n).isDigit := by
  interval_cases n <;> decide

theorem hexValue?_hexChar {n : Nat} (h : n < 16) : hexValue? (hexChar n) = some n := by
  interval_cases n <;> decide

/-! ### Decimal numerals -/

theorem value_concat (ds : List Char) (d : Char) :
    value (ds ++ [d]) = 10 * value ds + digitValue d := by
  rw [value, List.foldl_append, List.foldl_cons, List.foldl_nil, value]

theorem decimalChars_ne_nil (n : Nat) : decimalChars n ≠ [] := by
  rw [decimalChars]
  split <;> simp

theorem isDigit_of_mem_decimalChars {n : Nat} {c : Char} (h : c ∈ decimalChars n) :
    c.isDigit := by
  induction n using decimalChars.induct with
  | case1 n hn =>
    rw [decimalChars, if_pos hn, List.mem_singleton] at h
    exact h ▸ isDigit_digitChar hn
  | case2 n hn ih =>
    rw [decimalChars, if_neg hn, List.mem_append, List.mem_singleton] at h
    rcases h with h | rfl
    · exact ih h
    · exact isDigit_digitChar (Nat.mod_lt _ (by decide))

@[simp] theorem value_decimalChars (n : Nat) : value (decimalChars n) = n := by
  induction n using decimalChars.induct with
  | case1 n hn => simp [decimalChars, hn, value, digitValue_digitChar]
  | case2 n hn ih =>
    rw [decimalChars, if_neg hn, value_concat, ih, digitValue_digitChar (Nat.mod_lt _ (by decide))]
    exact Nat.div_add_mod n 10

/-- Only zero itself is written with a zero in front. -/
theorem decimalChars_of_head {n : Nat} (h : (decimalChars n).head? = some '0') :
    decimalChars n = ['0'] := by
  induction n using decimalChars.induct with
  | case1 n hn =>
    rw [decimalChars, if_pos hn] at h ⊢
    simpa using h
  | case2 n hn ih =>
    rw [decimalChars, if_neg hn, List.head?_append_of_ne_nil _ (decimalChars_ne_nil _)] at h
    have hzero : n / 10 = 0 := by
      rw [← value_decimalChars (n / 10), ih h]
      rfl
    omega

theorem isNumeral_iff {cs : List Char} : isNumeral cs ↔ cs ≠ [] ∧ ∀ c ∈ cs, c.isDigit := by
  simp [isNumeral]

theorem isNumeral_decimalChars (n : Nat) : isNumeral (decimalChars n) :=
  isNumeral_iff.mpr ⟨decimalChars_ne_nil n, fun _ hc => isDigit_of_mem_decimalChars hc⟩

theorem isDigit_of_isNumeral {cs : List Char} (h : isNumeral cs) : ∀ c ∈ cs, c.isDigit :=
  (isNumeral_iff.mp h).2

theorem readUnsigned_of_isNumeral {cs : List Char} (h : isNumeral cs) :
    readUnsigned cs =
      if value cs < UInt64.size then some (UInt64.ofNat (value cs)) else none := by
  unfold readUnsigned
  split
  case h_1 r =>
    exact absurd (isDigit_of_isNumeral h '+' List.mem_cons_self) (by decide)
  case h_2 => simp [h]

theorem readUnsigned_of_value {ds : List Char} {n : UInt64} (h : isNumeral ds)
    (hvalue : value ds = n.toNat) : readUnsigned ds = some n := by
  rw [readUnsigned_of_isNumeral h, hvalue, if_pos n.toNat_lt_size, UInt64.ofNat_toNat]

@[simp] theorem readUnsigned_decimalChars (n : UInt64) :
    readUnsigned (decimalChars n.toNat) = some n :=
  readUnsigned_of_value (isNumeral_decimalChars _) (value_decimalChars _)

end LeaseOrder.Text
