/-
Printed strings and numbers are single tokens.

The characters of a string are taken one at a time: whatever an escape looks like, it is
one piece, and assembling the pieces gives the character back.  A number is read to its
last digit, so what follows it must not go on with it; after a value there is nothing, a
comma or a closing bracket, and none of these does.
-/
import LeaseOrder.Json.Value
import LeaseOrder.Proofs.Text

namespace LeaseOrder.Json

/-! ### Strings -/

theorem assemble_char (c : Char) (ps : List Piece) :
    assemble (.char c :: ps) = (assemble ps).map (c :: ·) := by
  rw [assemble]

/-- Below the surrogates a code unit is a character. -/
theorem assemble_unit {n : Nat} (h : n < 0xd800) (ps : List Piece) :
    assemble (.unit n :: ps) = (assemble ps).map (Char.ofNat n :: ·) := by
  have hhigh : isHighHalf n = false := by simp [isHighHalf]; omega
  have hlow : isLowHalf n = false := by simp [isLowHalf]; omega
  match ps with
  | [] | .char _ :: _ | .unit _ :: _ => simp [assemble, hhigh, hlow]

theorem hexUnit?_control {n : Nat} (h : n < 0x20) :
    hexUnit? '0' '0' (Text.hexChar (n / 16)) (Text.hexChar (n % 16)) = some n := by
  have hzero : Text.hexValue? '0' = some 0 := rfl
  simp only [hexUnit?, hzero, Text.hexValue?_hexChar (show n / 16 < 16 by omega),
    Text.hexValue?_hexChar (show n % 16 < 16 by omega), Option.bind_eq_bind, Option.bind_some,
    Option.pure_def, Option.some.injEq]
  omega

theorem readPieces_short {c e : Char} (he : escaped? e = some c) (r : List Char) :
    readPieces ('\\' :: e :: r) = (readPieces r).map fun q => (.char c :: q.1, q.2) := by
  rw [readPieces]
  · simp [he, Option.map_eq_bind]
  · rintro a b c d r' rfl
    cases he

theorem readPieces_plain {c : Char} (hq : c ≠ '"') (hb : c ≠ '\\') (hc : ¬ c.val < 0x20)
    (r : List Char) :
    readPieces (c :: r) = (readPieces r).map fun q => (.char c :: q.1, q.2) := by
  rw [readPieces]
  · simp [hc, hb, Option.map_eq_bind]
  all_goals simp_all

theorem readPieces_escapeChar (c : Char) (r : List Char) :
    ∃ p : Piece, (∀ ps, assemble (p :: ps) = (assemble ps).map (c :: ·)) ∧
      readPieces (escapeChar c ++ r) = (readPieces r).map fun q => (p :: q.1, q.2) := by
  unfold escapeChar
  by_cases h₁ : c = '"' ∨ c = '\\'
  · refine ⟨.char c, assemble_char c, ?_⟩
    rw [if_pos (by simpa using h₁)]
    exact readPieces_short (by rcases h₁ with rfl | rfl <;> rfl) r
  rw [if_neg (by simpa using h₁)]
  by_cases h₂ : c = '\x08'
  · subst h₂
    exact ⟨.char _, assemble_char _, readPieces_short rfl r⟩
  by_cases h₃ : c = '\t'
  · subst h₃
    exact ⟨.char _, assemble_char _, readPieces_short rfl r⟩
  by_cases h₄ : c = '\n'
  · subst h₄
    exact ⟨.char _, assemble_char _, readPieces_short rfl r⟩
  by_cases h₅ : c = '\x0c'
  · subst h₅
    exact ⟨.char _, assemble_char _, readPieces_short rfl r⟩
  by_cases h₆ : c = '\r'
  · subst h₆
    exact ⟨.char _, assemble_char _, readPieces_short rfl r⟩
  rw [if_neg h₂, if_neg h₃, if_neg h₄, if_neg h₅, if_neg h₆]
  by_cases h₇ : c.val < 0x20
  · have hn : c.toNat < 0x20 := h₇
    refine ⟨.unit c.toNat, fun ps => ?_, ?_⟩
    · rw [assemble_unit (by omega), Char.ofNat_toNat]
    · rw [if_pos h₇]
      simp [readPieces, hexUnit?_control hn, Option.map_eq_bind]
  · rw [if_neg h₇]
    exact ⟨.char c, assemble_char c, readPieces_plain (fun h => h₁ (.inl h)) (fun h => h₁ (.inr h))
      h₇ r⟩

theorem readPieces_flatMap (cs r : List Char) :
    ∃ ps, assemble ps = some cs ∧ readPieces (cs.flatMap escapeChar ++ '"' :: r) = some (ps, r) := by
  induction cs with
  | nil => exact ⟨[], rfl, rfl⟩
  | cons c cs ih =>
    obtain ⟨ps, hps, hread⟩ := ih
    obtain ⟨p, hp, hc⟩ := readPieces_escapeChar c (cs.flatMap escapeChar ++ '"' :: r)
    refine ⟨p :: ps, ?_, ?_⟩
    · rw [hp, hps, Option.map_some]
    · rw [List.flatMap_cons, List.append_assoc, hc, hread, Option.map_some]

theorem readString_flatMap (s : String) (r : List Char) :
    readString (s.toList.flatMap escapeChar ++ '"' :: r) = (.string (.text s), r) := by
  obtain ⟨ps, hps, hread⟩ := readPieces_flatMap s.toList r
  simp only [readString, hread, hps, String.ofList_toList]

/-! ### Numbers -/

/-- No number goes on with these characters. -/
def Stops (cs : List Char) : Prop :=
  ∀ c ∈ cs.head?, ¬ c.isDigit ∧ c ≠ '.' ∧ c ≠ 'e' ∧ c ≠ 'E'

theorem le_foldl_digits (cs : List Char) (n : Nat) :
    n ≤ cs.foldl (fun n c => 10 * n + Text.digitValue c) n := by
  induction cs generalizing n with
  | nil => exact Nat.le_refl n
  | cons c cs ih =>
    have := ih (10 * n + Text.digitValue c)
    rw [List.foldl_cons]
    omega

theorem absorb_of_lt {n : Nat} {cs : List Char}
    (h : cs.foldl (fun n c => 10 * n + Text.digitValue c) n < UInt64.size) :
    absorb n cs = (cs.foldl (fun n c => 10 * n + Text.digitValue c) n, []) := by
  induction cs generalizing n with
  | nil => rfl
  | cons c cs ih =>
    rw [List.foldl_cons] at h ⊢
    rw [absorb, if_pos (Nat.lt_of_le_of_lt (le_foldl_digits _ _) h), ih h]

theorem absorb_decimalChars (n : UInt64) :
    absorb 0 (Text.decimalChars n.toNat) = (n.toNat, []) := by
  have hvalue := Text.value_decimalChars n.toNat
  unfold Text.value at hvalue
  rw [absorb_of_lt (by rw [hvalue]; exact n.toNat_lt_size), hvalue]

variable {rest : List Char}

theorem readWhole_decimalChars (n : Nat) (h : Stops rest) :
    readWhole (Text.decimalChars n ++ rest) = some (Text.decimalChars n, rest) := by
  have hrun : ∀ c ∈ Text.decimalChars n, c.isDigit := fun c hc =>
    Text.isDigit_of_mem_decimalChars hc
  have hrest : ∀ c ∈ rest.head?, ¬ c.isDigit := fun c hc => (h c hc).1
  have hzero : (Text.decimalChars n).head? = some '0' → Text.decimalChars n = ['0'] :=
    Text.decimalChars_of_head
  simp only [readWhole, Text.takeWhile_run hrun hrest, Text.dropWhile_run hrun hrest]
  rw [if_neg]
  simpa [Text.decimalChars_ne_nil] using hzero

theorem readFraction_of_stops (h : Stops rest) : readFraction rest = some ([], rest) := by
  unfold readFraction
  split
  · exact absurd rfl (h '.' rfl).2.1
  · rfl

theorem readExponent_of_stops (h : Stops rest) : readExponent rest = some (none, rest) := by
  unfold readExponent
  split
  · rfl
  · rename_i c r
    obtain ⟨-, -, he, hE⟩ := h c rfl
    rw [if_neg (by simp [he, hE])]

theorem readNumber_decimalChars (n : UInt64) (h : Stops rest) :
    readNumber false (Text.decimalChars n.toNat ++ rest) =
      (.number (some (.unsigned n)), rest) := by
  have hvalue : Literal.number? ⟨false, Text.decimalChars n.toNat, [], none⟩ =
      some (.unsigned n) := by
    simp [Literal.number?, absorb_decimalChars]
  simp only [readNumber, readLiteral, readWhole_decimalChars n.toNat h, readFraction_of_stops h,
    readExponent_of_stops h, Option.bind_eq_bind, Option.bind_some, Option.pure_def, hvalue]

/-! ### Tokens -/

@[simp] theorem tokens_nil : tokens [] = [] := by
  rw [tokens]
  rfl

theorem tokens_cons {c : Char} (hc : isGap c = false) (r : List Char) :
    tokens (c :: r) = (next c r).1 :: tokens (next c r).2 := by
  have hdrop : (c :: r).dropWhile isGap = c :: r := List.dropWhile_cons_of_neg (by simp [hc])
  rw [tokens]
  split
  · rename_i h
    rw [hdrop] at h
    cases h
  · rename_i c' r' h
    rw [hdrop] at h
    cases h
    rfl

theorem tokens_punctuation {c : Char} {t : Token} (ht : punctuation? c = some t)
    (r : List Char) : tokens (c :: r) = t :: tokens r := by
  have hc : isGap c = false := by
    by_contra hgap
    simp only [isGap, Bool.not_eq_false, Bool.or_eq_true, decide_eq_true_eq] at hgap
    rcases hgap with ((rfl | rfl) | rfl) | rfl <;> cases ht
  have hnext : next c r = (t, r) := by simp only [next, ht]
  rw [tokens_cons hc, hnext]

@[simp] theorem tokens_stringChars (s : String) (r : List Char) :
    tokens (stringChars s ++ r) = .string (.text s) :: tokens r := by
  have hnext : next '"' (s.toList.flatMap escapeChar ++ '"' :: r) = (.string (.text s), r) := by
    rw [← readString_flatMap]
    rfl
  rw [stringChars, List.append_assoc, List.cons_append, tokens_cons rfl]
  exact congrArg (fun q : Token × List Char => q.1 :: tokens q.2) hnext

theorem isGap_of_isDigit {c : Char} (h : c.isDigit) : isGap c = false := by
  by_contra hgap
  simp only [isGap, Bool.not_eq_false, Bool.or_eq_true, decide_eq_true_eq] at hgap
  rcases hgap with ((rfl | rfl) | rfl) | rfl <;> cases h

theorem punctuation?_of_isDigit {c : Char} (h : c.isDigit) : punctuation? c = none := by
  unfold punctuation?
  repeat rw [if_neg (by rintro rfl; cases h)]

theorem next_of_isDigit {c : Char} (h : c.isDigit) (r : List Char) :
    next c r = readNumber false (c :: r) := by
  have hquote : c ≠ '"' := by rintro rfl; cases h
  have hminus : c ≠ '-' := by rintro rfl; cases h
  simp only [next, punctuation?_of_isDigit h, if_neg hquote, if_neg hminus, h, if_true]

theorem tokens_unsigned (n : UInt64) (h : Stops rest) :
    tokens ((Number.unsigned n).text.toList ++ rest) =
      .number (some (.unsigned n)) :: tokens rest := by
  have htext : (Number.unsigned n).text.toList = Text.decimalChars n.toNat := by
    rw [Number.text, Text.decimal, String.toList_ofList]
  obtain ⟨c, r, hr⟩ := List.exists_cons_of_ne_nil (Text.decimalChars_ne_nil n.toNat)
  have hc : c.isDigit := Text.isDigit_of_mem_decimalChars (hr ▸ List.mem_cons_self)
  have hread := readNumber_decimalChars n h
  rw [htext]
  rw [hr, List.cons_append] at hread ⊢
  rw [tokens_cons (isGap_of_isDigit hc), next_of_isDigit hc, hread]

@[simp] theorem tokens_null (r : List Char) :
    tokens (['n', 'u', 'l', 'l'] ++ r) = .null :: tokens r :=
  tokens_cons rfl _

@[simp] theorem tokens_true (r : List Char) :
    tokens (['t', 'r', 'u', 'e'] ++ r) = .bool true :: tokens r :=
  tokens_cons rfl _

@[simp] theorem tokens_false (r : List Char) :
    tokens (['f', 'a', 'l', 's', 'e'] ++ r) = .bool false :: tokens r :=
  tokens_cons rfl _

end LeaseOrder.Json
