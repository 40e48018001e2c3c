/-
The tokens of a JSON text.

`tokens` cuts a text into brackets, commas, colons, the three words, numbers and
strings.  Where the text is no token, a single `bad` ends the list.  Every reader takes
characters off the front and hands back the rest, which `next_length_le` says is no
longer, and that is why `tokens` ends.
-/
import LeaseOrder.Json.Number

namespace LeaseOrder.Json

/-- The contents of a string once its escapes are resolved. -/
inductive Unescaped where
  | text (s : String)
  /-- An escape names one half of a surrogate pair without the other. -/
  | unpaired
deriving DecidableEq, Repr

/-- A smallest part of a text. A number that is too great for any type has no value. -/
inductive Token where
  | openArray
  | closeArray
  | openObject
  | closeObject
  | comma
  | colon
  | null
  | bool (b : Bool)
  | number (n : Option Number)
  | string (s : Unescaped)
  /-- What is no token. -/
  | bad
deriving DecidableEq, Repr

/-- A character that may stand between tokens. -/
def isGap (c : Char) : Bool :=
  c = ' ' || c = '\t' || c = '\n' || c = '\r'

/-! ### Strings -/

/-- A part of a string: a character, or a code unit of sixteen bits given by number. -/
inductive Piece where
  | char (c : Char)
  | unit (n : Nat)
deriving DecidableEq, Repr

/-- The character that a one-letter escape stands for. -/
def escaped? (c : Char) : Option Char :=
  if c = '"' || c = '\\' || c = '/' then some c
  else if c = 'b' then some '\x08'
  else if c = 'f' then some '\x0c'
  else if c = 'n' then some '\n'
  else if c = 'r' then some '\r'
  else if c = 't' then some '\t'
  else none

/-- The number of four hexadecimal digits. -/
def hexUnit? (a b c d : Char) : Option Nat := do
  return 4096 * (← Text.hexValue? a) + 256 * (← Text.hexValue? b) + 16 * (← Text.hexValue? c) +
    (← Text.hexValue? d)

/-- The pieces of a string up to its closing quote, and the characters after that. -/
def readPieces : List Char → Option (List Piece × List Char)
  | [] => none
  | '"' :: r => some ([], r)
  | '\\' :: 'u' :: a :: b :: c :: d :: r => do
    let n ← hexUnit? a b c d
    let (ps, rest) ← readPieces r
    return (.unit n :: ps, rest)
  | '\\' :: e :: r => do
    let c ← escaped? e
    let (ps, rest) ← readPieces r
    return (.char c :: ps, rest)
  | c :: r =>
    if c.val < 0x20 || c = '\\' then none
    else do
      let (ps, rest) ← readPieces r
      return (.char c :: ps, rest)

/-- The first half of a surrogate pair. -/
def isHighHalf (n : Nat) : Bool :=
  0xd800 ≤ n && n ≤ 0xdbff

/-- The second half of a surrogate pair. -/
def isLowHalf (n : Nat) : Bool :=
  0xdc00 ≤ n && n ≤ 0xdfff

/-- The characters of the pieces, each pair of halves joined. -/
def assemble : List Piece → Option (List Char)
  | [] => some []
  | .char c :: r => (assemble r).map (c :: ·)
  | .unit h :: .unit l :: r =>
    if isHighHalf h then
      if isLowHalf l then
        (assemble r).map (Char.ofNat (0x10000 + 0x400 * (h - 0xd800) + (l - 0xdc00)) :: ·)
      else none
    else if isLowHalf h then none
    else (assemble (.unit l :: r)).map (Char.ofNat h :: ·)
  | .unit h :: r => if isHighHalf h || isLowHalf h then none else (assemble r).map (Char.ofNat h :: ·)

/-- A string after its opening quote. -/
def readString (cs : List Char) : Token × List Char :=
  match readPieces cs with
  | none => (.bad, [])
  | some (ps, rest) =>
    match assemble ps with
    | some s => (.string (.text (String.ofList s)), rest)
    | none => (.string .unpaired, rest)

/-! ### Numbers -/

/-- The digits in front of the point: a zero alone, or digits that start with another one. -/
def readWhole (cs : List Char) : Option (List Char × List Char) :=
  let digits := cs.takeWhile Char.isDigit
  if digits = [] || (digits.head? = some '0' && digits ≠ ['0']) then none
  else some (digits, cs.dropWhile Char.isDigit)

/-- The digits after the point, if there is a point. -/
def readFraction (cs : List Char) : Option (List Char × List Char) :=
  match cs with
  | '.' :: r =>
    if r.takeWhile Char.isDigit = [] then none
    else some (r.takeWhile Char.isDigit, r.dropWhile Char.isDigit)
  | _ => some ([], cs)

/-- A sign that may be left out, and whether it is a minus. -/
def readSign : List Char → Bool × List Char
  | '-' :: r => (true, r)
  | '+' :: r => (false, r)
  | cs => (false, cs)

/-- The exponent, if there is one. -/
def readExponent (cs : List Char) : Option (Option (Bool × List Char) × List Char) :=
  match cs with
  | [] => some (none, [])
  | c :: r =>
    if c = 'e' || c = 'E' then
      let (negative, ds) := readSign r
      if ds.takeWhile Char.isDigit = [] then none
      else some (some (negative, ds.takeWhile Char.isDigit), ds.dropWhile Char.isDigit)
    else some (none, cs)

/-- A number as it is written, after its sign. -/
def readLiteral (negative : Bool) (cs : List Char) : Option (Literal × List Char) := do
  let (whole, cs) ← readWhole cs
  let (fraction, cs) ← readFraction cs
  let (exponent, cs) ← readExponent cs
  return (⟨negative, whole, fraction, exponent⟩, cs)

/-- A number after its sign. -/
def readNumber (negative : Bool) (cs : List Char) : Token × List Char :=
  match readLiteral negative cs with
  | some (l, rest) => (.number l.number?, rest)
  | none => (.bad, [])

/-! ### Tokens -/

/-- The characters after a word that the text has to start with. -/
def readWord (word : List Char) (t : Token) (cs : List Char) : Token × List Char :=
  if word.isPrefixOf cs then (t, cs.drop word.length) else (.bad, [])

/-- The token that is a single character. -/
def punctuation? (c : Char) : Option Token :=
  if c = '[' then some .openArray
  else if c = ']' then some .closeArray
  else if c = '\x7b' then some .openObject
  else if c = '\x7d' then some .closeObject
  else if c = ',' then some .comma
  else if c = ':' then some .colon
  else none

/-- The token that starts with this character, and the characters after it. -/
def next (c : Char) (cs : List Char) : Token × List Char :=
  match punctuation? c with
  | some t => (t, cs)
  | none =>
    if c = '"' then readString cs
    else if c = '-' then readNumber true cs
    else if c.isDigit then readNumber false (c :: cs)
    else if c = 'n' then readWord ['u', 'l', 'l'] .null cs
    else if c = 't' then readWord ['r', 'u', 'e'] (.bool true) cs
    else if c = 'f' then readWord ['a', 'l', 's', 'e'] (.bool false) cs
    else (.bad, [])

theorem length_dropWhile_le {α : Type} (p : α → Bool) (xs : List α) :
    (xs.dropWhile p).length ≤ xs.length :=
  (List.dropWhile_sublist p).length_le

theorem readPieces_length_lt {cs : List Char} {ps : List Piece} {rest : List Char}
    (h : readPieces cs = some (ps, rest)) : rest.length < cs.length := by
  induction cs using readPieces.induct generalizing ps rest with
  | case1 => simp [readPieces] at h
  | case2 r =>
    simp only [readPieces, Option.some.injEq, Prod.mk.injEq] at h
    simp [← h.2]
  | case3 a b c d r ih =>
    simp only [readPieces, Option.bind_eq_bind, Option.bind_eq_some_iff] at h
    obtain ⟨n, -, ⟨ps', rest'⟩, h', h⟩ := h
    simp only [Option.pure_def, Option.some.injEq, Prod.mk.injEq] at h
    have := ih h'
    simp only [List.length_cons, ← h.2]
    omega
  | case4 e r h₁ ih =>
    rw [readPieces] at h
    · simp only [Option.bind_eq_bind, Option.bind_eq_some_iff] at h
      obtain ⟨n, -, ⟨ps', rest'⟩, h', h⟩ := h
      simp only [Option.pure_def, Option.some.injEq, Prod.mk.injEq] at h
      have := ih h'
      simp only [List.length_cons, ← h.2]
      omega
    · exact h₁
  | case5 c r h₁ h₂ h₃ hc =>
    rw [readPieces] at h
    · simp [hc] at h
    all_goals assumption
  | case6 c r h₁ h₂ h₃ hc ih =>
    rw [readPieces] at h
    · simp only [hc, Bool.false_eq_true, if_false, Option.bind_eq_bind,
        Option.bind_eq_some_iff] at h
      obtain ⟨⟨ps', rest'⟩, h', h⟩ := h
      simp only [Option.pure_def, Option.some.injEq, Prod.mk.injEq] at h
      have := ih h'
      simp only [List.length_cons, ← h.2]
      omega
    all_goals assumption

theorem readString_length_le (cs : List Char) : (readString cs).2.length ≤ cs.length := by
  unfold readString
  split
  · simp
  · rename_i h
    have := readPieces_length_lt h
    split <;> simp only <;> omega

theorem readSign_length_le (cs : List Char) : (readSign cs).2.length ≤ cs.length := by
  unfold readSign
  split <;> simp

theorem readWhole_length_lt {cs ds rest : List Char} (h : readWhole cs = some (ds, rest)) :
    rest.length < cs.length := by
  simp only [readWhole] at h
  split at h
  · simp at h
  · rename_i hd
    simp only [Option.some.injEq, Prod.mk.injEq] at h
    have hne : cs.takeWhile Char.isDigit ≠ [] := fun e => by simp [e] at hd
    have hlen : (cs.takeWhile Char.isDigit ++ cs.dropWhile Char.isDigit).length = cs.length := by
      rw [List.takeWhile_append_dropWhile]
    rw [List.length_append] at hlen
    have := List.length_pos_iff.mpr hne
    rw [← h.2]
    omega

theorem readFraction_length_le {cs ds rest : List Char} (h : readFraction cs = some (ds, rest)) :
    rest.length ≤ cs.length := by
  unfold readFraction at h
  split at h
  · rename_i r
    split at h
    · simp at h
    · simp only [Option.some.injEq, Prod.mk.injEq] at h
      have := length_dropWhile_le Char.isDigit r
      simp only [← h.2, List.length_cons]
      omega
  · simp only [Option.some.injEq, Prod.mk.injEq] at h
    simp [h.2]

theorem readExponent_length_le {cs rest : List Char} {e : Option (Bool × List Char)}
    (h : readExponent cs = some (e, rest)) : rest.length ≤ cs.length := by
  unfold readExponent at h
  split at h
  · simp only [Option.some.injEq, Prod.mk.injEq] at h
    simp [← h.2]
  · rename_i c r
    split at h
    · simp only at h
      split at h
      · simp at h
      · simp only [Option.some.injEq, Prod.mk.injEq] at h
        have h₁ := length_dropWhile_le Char.isDigit (readSign r).2
        have h₂ := readSign_length_le r
        simp only [← h.2, List.length_cons]
        omega
    · simp only [Option.some.injEq, Prod.mk.injEq] at h
      simp [← h.2]

theorem readNumber_length_lt {negative : Bool} {cs : List Char} (h : cs ≠ []) :
    (readNumber negative cs).2.length < cs.length := by
  have hpos := List.length_pos_iff.mpr h
  unfold readNumber
  split
  · rename_i l rest hl
    simp only [readLiteral, Option.bind_eq_bind, Option.bind_eq_some_iff] at hl
    obtain ⟨⟨w, r₁⟩, h₁, ⟨f, r₂⟩, h₂, ⟨e, r₃⟩, h₃, hl⟩ := hl
    simp only [Option.pure_def, Option.some.injEq, Prod.mk.injEq] at hl
    have := readWhole_length_lt h₁
    have := readFraction_length_le h₂
    have := readExponent_length_le h₃
    simp only [← hl.2] at *
    omega
  · simpa using hpos

/-- A token takes at least its first character off the text. -/
theorem next_length_le (c : Char) (cs : List Char) : (next c cs).2.length ≤ cs.length := by
  have hw : ∀ w t, (readWord w t cs).2.length ≤ cs.length := fun w t => by
    unfold readWord
    split
    · simp only [List.length_drop]; omega
    · simp
  have hn : (readNumber true cs).2.length ≤ cs.length := by
    cases cs with
    | nil => simp [readNumber, readLiteral, readWhole]
    | cons a r => exact Nat.le_of_lt (readNumber_length_lt (by simp))
  have hd : (readNumber false (c :: cs)).2.length ≤ cs.length :=
    Nat.le_of_lt_succ (readNumber_length_lt (by simp))
  unfold next
  split
  · exact Nat.le_refl _
  · repeat' split
    all_goals first
      | exact readString_length_le cs
      | exact hn
      | exact hd
      | exact hw _ _
      | simp

/-- The tokens of a text. -/
def tokens (cs : List Char) : List Token :=
  match _h : cs.dropWhile isGap with
  | [] => []
  | c :: r => (next c r).1 :: tokens (next c r).2
termination_by cs.length
decreasing_by
  have h₁ := length_dropWhile_le isGap cs
  have h₂ := next_length_le c r
  simp only [_h, List.length_cons] at h₁
  omega

end LeaseOrder.Json
