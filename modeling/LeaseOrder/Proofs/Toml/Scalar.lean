/-
Names and integers are read back from a line of a TOML document.

The reader of scalars tries a date or a time before a number.  Neither has a chance on an
integer: the digits of a year or an hour have a mark behind them, and behind the digits of an
integer the line ends.  The line end also shows that the integer is no float and that there
are no further digits.
-/
import LeaseOrder.Proofs.Text
import LeaseOrder.Toml.Reader

namespace LeaseOrder.Toml

theorem ne_of_pos {p : Char → Bool} {c x : Char} (hc : p c) (hx : ¬ p x) : c ≠ x := by
  rintro rfl
  exact hx hc

/-- The characters are read as this value, up to the end of their line. -/
structure Denotes (chars : List Char) (n : Node) : Prop where
  head_not_blank : ∀ c ∈ chars.head?, ¬ isBlank c
  reads : ∀ rest, readValue maxNesting (chars ++ '\n' :: rest) = some (n, '\n' :: rest)

theorem readValue_scalar {c : Char} (harray : c ≠ '[') (htable : c ≠ '\x7b') (depth : Nat)
    (cs : List Char) : readValue depth (c :: cs) = readScalar (c :: cs) := by
  cases depth with
  | zero => rfl
  | succ depth =>
    rw [readValue]
    · rintro r h
      exact harray (List.cons.inj h).1
    · rintro r h
      exact htable (List.cons.inj h).1

/-! ### Names -/

theorem readBasic_cons {c : Char} (hc : isBasic c) (cs : List Char) :
    readBasic (c :: cs) = push c (readBasic cs) := by
  have hquote : c ≠ '"' := ne_of_pos hc (by decide)
  have hslash : c ≠ '\\' := ne_of_pos hc (by decide)
  rw [readBasic]
  · rw [if_pos hc]
  all_goals simp_all

theorem readBasic_run {run : List Char} (hrun : ∀ c ∈ run, isBasic c) (rest : List Char) :
    readBasic (run ++ '"' :: rest) = some (run, rest) := by
  induction run with
  | nil => rw [List.nil_append, readBasic]
  | cons c run ih =>
    rw [List.cons_append, readBasic_cons (hrun c List.mem_cons_self),
      ih fun d hd => hrun d (List.mem_cons_of_mem _ hd)]
    rfl

/-- A name between double quotes is a string. -/
theorem denotes_string {s : String} (hs : s.toList ≠ []) (hbasic : ∀ c ∈ s.toList, isBasic c) :
    Denotes ('"' :: s.toList ++ ['"']) (.string s) where
  head_not_blank := by
    simp [isBlank]
  reads := by
    intro rest
    obtain ⟨c, cs, hcs⟩ := List.exists_cons_of_ne_nil hs
    have hquote : c ≠ '"' := ne_of_pos (hbasic c (hcs ▸ List.mem_cons_self)) (by decide)
    have hread := readBasic_run hbasic ('\n' :: rest)
    -- The name is not empty, so there are no three quotes in a row.
    have hstring : readString ('"' :: (s.toList ++ '"' :: '\n' :: rest)) =
        some (s, '\n' :: rest) := by
      rw [readString, hread, Option.map_some, String.ofList_toList]
      rintro r h
      rw [hcs] at h
      exact hquote (List.cons.inj h).1
    rw [List.cons_append, List.cons_append, List.append_assoc, List.cons_append, List.nil_append,
      readValue_scalar (by decide) (by decide), readScalar, hstring, Option.map_some]

/-! ### No date -/

theorem eq_cons_of_readMark {mark : Char} {cs rest : List Char}
    (h : readMark mark cs = some rest) : cs = mark :: rest := by
  cases cs with
  | nil => cases h
  | cons c r =>
    rw [readMark] at h
    split at h
    case isTrue hc => rw [hc, Option.some.inj h]
    case isFalse => cases h

theorem exists_of_readTwo {least most n : Nat} {cs rest : List Char}
    (h : readTwo least most cs = some (n, rest)) :
    ∃ a b, cs = [a, b] ++ rest ∧ ∀ c ∈ [a, b], c.isDigit := by
  unfold readTwo at h
  split at h
  case h_1 a b r =>
    simp only at h
    split at h
    case isTrue hdigits =>
      obtain ⟨-, rfl⟩ := Prod.mk.inj (Option.some.inj h)
      simp only [Bool.and_eq_true] at hdigits
      exact ⟨a, b, rfl, by simp [hdigits.1]⟩
    case isFalse => cases h
  case h_2 => cases h

theorem exists_of_readYear {n : Nat} {cs rest : List Char} (h : readYear cs = some (n, rest)) :
    ∃ a b c d, cs = [a, b, c, d] ++ rest ∧ ∀ x ∈ [a, b, c, d], x.isDigit := by
  unfold readYear at h
  split at h
  case h_1 a b c d r =>
    split at h
    case isTrue hdigits =>
      obtain ⟨-, rfl⟩ := Prod.mk.inj (Option.some.inj h)
      exact ⟨a, b, c, d, rfl, List.all_eq_true.mp hdigits⟩
    case isFalse => cases h
  case h_2 => cases h

/-- A date or a time has digits first and then one of two marks. -/
theorem exists_of_readDatetime {cs rest : List Char} (h : readDatetime cs = some rest) :
    ∃ run mark r, cs = run ++ mark :: r ∧ run ≠ [] ∧ (∀ c ∈ run, c.isDigit) ∧
      (mark = '-' ∨ mark = ':') := by
  unfold readDatetime at h
  split at h
  case h_1 after hdate =>
    obtain ⟨⟨year, cs₁⟩, hyear, hdate⟩ := Option.bind_eq_some_iff.mp hdate
    obtain ⟨cs₂, hmark, -⟩ := Option.bind_eq_some_iff.mp hdate
    obtain ⟨a, b, c, d, rfl, hdigits⟩ := exists_of_readYear hyear
    exact ⟨_, '-', cs₂, by rw [eq_cons_of_readMark hmark], by simp, hdigits, .inl rfl⟩
  case h_2 =>
    obtain ⟨⟨hour, cs₁⟩, hhour, htime⟩ := Option.bind_eq_some_iff.mp h
    obtain ⟨cs₂, hmark, -⟩ := Option.bind_eq_some_iff.mp htime
    obtain ⟨a, b, rfl, hdigits⟩ := exists_of_readTwo hhour
    exact ⟨_, ':', cs₂, by rw [eq_cons_of_readMark hmark], by simp, hdigits, .inr rfl⟩

/-- Where a line ends behind the digits, they are no date. -/
theorem readDatetime_digits {run : List Char} (hrun : ∀ c ∈ run, c.isDigit) (rest : List Char) :
    readDatetime (run ++ '\n' :: rest) = none := by
  by_contra h
  obtain ⟨after, h⟩ := Option.ne_none_iff_exists'.mp h
  obtain ⟨digits, mark, r, hsplit, -, hdigits, hmark⟩ := exists_of_readDatetime h
  -- What stands behind all the digits is the line end, and also the mark.
  have hend : (run ++ '\n' :: rest).dropWhile Char.isDigit = '\n' :: rest :=
    Text.dropWhile_run hrun (by simp)
  have hstop : (digits ++ mark :: r).dropWhile Char.isDigit = mark :: r :=
    Text.dropWhile_run hdigits (by rcases hmark with rfl | rfl <;> simp)
  rw [hsplit, hstop] at hend
  rcases hmark with rfl | rfl
  · exact absurd (List.cons.inj hend).1 (by decide)
  · exact absurd (List.cons.inj hend).1 (by decide)

theorem readDatetime_minus (rest : List Char) : readDatetime ('-' :: rest) = none := by
  by_contra h
  obtain ⟨after, h⟩ := Option.ne_none_iff_exists'.mp h
  obtain ⟨digits, mark, r, hsplit, hne, hdigits, -⟩ := exists_of_readDatetime h
  obtain ⟨c, cs, rfl⟩ := List.exists_cons_of_ne_nil hne
  obtain rfl : '-' = c := (List.cons.inj hsplit).1
  exact absurd (hdigits '-' List.mem_cons_self) (by decide)

/-! ### Digits -/

theorem readMoreDigits_run {run : List Char} (hrun : ∀ c ∈ run, c.isDigit) (rest : List Char) :
    readMoreDigits Char.isDigit (run ++ '\n' :: rest) = some (run, '\n' :: rest) := by
  induction run with
  | nil =>
    rw [List.nil_append, readMoreDigits, if_neg (by decide), if_neg (by decide)]
    simp
  | cons c run ih =>
    have hc : c.isDigit := hrun c List.mem_cons_self
    have hunder : c ≠ '_' := ne_of_pos hc (by decide)
    rw [List.cons_append, readMoreDigits, if_pos hc,
      ih fun d hd => hrun d (List.mem_cons_of_mem _ hd), Option.map_some]
    simp [hunder]

theorem readDecimal_decimalChars (n : Nat) (rest : List Char) :
    readDecimal (Text.decimalChars n ++ '\n' :: rest) =
      some (Text.decimalChars n, '\n' :: rest) := by
  by_cases hzero : (Text.decimalChars n).head? = some '0'
  · rw [Text.decimalChars_of_head hzero]
    rfl
  · have hdigits : ∀ c ∈ Text.decimalChars n, c.isDigit := fun c hc =>
      Text.isDigit_of_mem_decimalChars hc
    obtain ⟨c, cs, hcs⟩ := List.exists_cons_of_ne_nil (Text.decimalChars_ne_nil n)
    rw [hcs] at hdigits hzero ⊢
    rw [List.cons_append, readDecimal, readDigits, if_pos (hdigits c List.mem_cons_self),
      readMoreDigits_run fun d hd => hdigits d (List.mem_cons_of_mem _ hd), Option.map_some]
    rintro r h
    exact hzero (by rw [(List.cons.inj h).1]; rfl)

/-! ### Integers -/

theorem readDecimalNumber_digits {negative : Bool} {n : Nat} {v : Node} {cs rest : List Char}
    (hsign : readSign cs = (negative, Text.decimalChars n ++ '\n' :: rest))
    (hv : integer? negative n = some v) : readDecimalNumber cs = some (v, '\n' :: rest) := by
  have hspecial : readSpecial (Text.decimalChars n ++ '\n' :: rest) = none := by
    obtain ⟨c, ds, hcs⟩ := List.exists_cons_of_ne_nil (Text.decimalChars_ne_nil n)
    have hc : c.isDigit := Text.isDigit_of_mem_decimalChars (hcs ▸ List.mem_cons_self)
    rw [hcs, List.cons_append, readSpecial]
    · exact fun r h => ne_of_pos hc (by decide) (List.cons.inj h).1
    · exact fun r h => ne_of_pos hc (by decide) (List.cons.inj h).1
  have hfraction : readFraction ('\n' :: rest) = some ([], '\n' :: rest) := rfl
  have hexponent : readExponent ('\n' :: rest) = some ((false, []), '\n' :: rest) := rfl
  simp [readDecimalNumber, hsign, hspecial, readDecimal_decimalChars, hfraction, hexponent,
    Text.value_decimalChars, hv]

/-- Digits, with or without a minus, are a decimal number and nothing else. -/
theorem readValue_digits {c : Char} {ds : List Char} (hc : c.isDigit ∨ c = '-')
    (hds : ∀ d ∈ ds, d.isDigit) (depth : Nat) (rest : List Char) :
    readValue depth (c :: (ds ++ '\n' :: rest)) =
      readDecimalNumber (c :: (ds ++ '\n' :: rest)) := by
  have hother : ∀ x : Char, ¬ x.isDigit → x ≠ '-' → c ≠ x := by
    rintro x hx hminus rfl
    exact hc.elim hx hminus
  have hdate : readDatetime (c :: (ds ++ '\n' :: rest)) = none := by
    rcases hc with hc | rfl
    · have hrun : ∀ d ∈ c :: ds, d.isDigit := List.forall_mem_cons.mpr ⟨hc, hds⟩
      exact readDatetime_digits hrun rest
    · exact readDatetime_minus _
  -- The second character is not the letter of another base.
  have hbase : ∀ x r, ¬ x.isDigit → x ≠ '\n' → ds ++ '\n' :: rest ≠ x :: r := by
    intro x r hx hline h
    cases ds with
    | nil => exact hline (List.cons.inj h).1.symm
    | cons d ds => exact hx ((List.cons.inj h).1 ▸ hds d List.mem_cons_self)
  have hnumber : readNumber (c :: (ds ++ '\n' :: rest)) =
      readDecimalNumber (c :: (ds ++ '\n' :: rest)) := by
    rw [readNumber]
    · exact fun r h => hbase 'x' r (by decide) (by decide) (List.cons.inj h).2
    · exact fun r h => hbase 'o' r (by decide) (by decide) (List.cons.inj h).2
    · exact fun r h => hbase 'b' r (by decide) (by decide) (List.cons.inj h).2
  rw [readValue_scalar (hother '[' (by decide) (by decide)) (hother '\x7b' (by decide) (by decide)),
    readScalar]
  · rw [hdate, hnumber]
  · exact fun r h => hother 't' (by decide) (by decide) (List.cons.inj h).1
  · exact fun r h => hother 'f' (by decide) (by decide) (List.cons.inj h).1
  · exact fun r h => hother '"' (by decide) (by decide) (List.cons.inj h).1
  · exact fun r h => hother '\'' (by decide) (by decide) (List.cons.inj h).1

/-- An integer that is a signed word is read as that word. -/
theorem denotes_integer {i : Int} {v : Node} (hv : integer? (i < 0) i.natAbs = some v) :
    Denotes (Text.decimalInt i).toList v := by
  have hdigits : ∀ c ∈ Text.decimalChars i.natAbs, c.isDigit := fun c hc =>
    Text.isDigit_of_mem_decimalChars hc
  have hblank : ∀ c : Char, c.isDigit ∨ c = '-' → ¬ isBlank c := by
    rintro c hc hblank
    obtain rfl | rfl : c = ' ' ∨ c = '\t' := by simpa [isBlank] using hblank
    · exact absurd hc (by decide)
    · exact absurd hc (by decide)
  by_cases hneg : i < 0
  · have htext : (Text.decimalInt i).toList = '-' :: Text.decimalChars i.natAbs := by
      simp [Text.decimalInt, hneg, Text.decimal]
    rw [htext]
    refine ⟨fun c hc => ?_, fun rest => ?_⟩
    · obtain rfl : '-' = c := by simpa using hc
      exact hblank '-' (.inr rfl)
    · have hsign : readSign ('-' :: (Text.decimalChars i.natAbs ++ '\n' :: rest)) =
          (true, Text.decimalChars i.natAbs ++ '\n' :: rest) := rfl
      rw [List.cons_append, readValue_digits (.inr rfl) hdigits]
      exact readDecimalNumber_digits hsign (by simpa [hneg] using hv)
  · have htext : (Text.decimalInt i).toList = Text.decimalChars i.natAbs := by
      simp [Text.decimalInt, hneg, Text.decimal]
    obtain ⟨c, ds, hcs⟩ := List.exists_cons_of_ne_nil (Text.decimalChars_ne_nil i.natAbs)
    have hc : c.isDigit := hdigits c (hcs ▸ List.mem_cons_self)
    rw [htext]
    refine ⟨fun d hd => ?_, fun rest => ?_⟩
    · obtain rfl : c = d := by simpa [hcs] using hd
      exact hblank c (.inl hc)
    · have hsign : readSign (Text.decimalChars i.natAbs ++ '\n' :: rest) =
          (false, Text.decimalChars i.natAbs ++ '\n' :: rest) := by
        rw [hcs, List.cons_append, readSign]
        · exact fun r h => ne_of_pos hc (by decide) (List.cons.inj h).1
        · exact fun r h => ne_of_pos hc (by decide) (List.cons.inj h).1
      have hread := readDecimalNumber_digits hsign (v := v) (by simpa [hneg] using hv)
      rw [hcs, List.cons_append] at hread ⊢
      rw [readValue_digits (.inl hc) fun d hd => hdigits d (hcs ▸ List.mem_cons_of_mem _ hd), hread]

end LeaseOrder.Toml
