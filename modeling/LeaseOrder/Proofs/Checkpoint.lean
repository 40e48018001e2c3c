/-
Which texts stand for a checkpoint.

A run of digits is a decimal numeral with zeros in front, and nothing is lost of it but the
zeros.  So a text that is read as a sub-sequence number is the decimal text of that number,
behind zeros and at most one plus sign.  A sub-sequence number of zero may be left out, and
printing leaves it out.  All else that reading takes off are the blanks at both ends, and no
text without them has a blank in it.
-/
import Mathlib.Data.List.Induction
import LeaseOrder.Proofs.Shard

namespace LeaseOrder

namespace Text

/-! ### Zeros in front -/

theorem digitValue_lt {c : Char} (h : c.isDigit) : digitValue c < 10 := by
  have hhi : c.toNat ≤ 57 := (Char.isDigit_iff_toNat.mp h).2
  unfold digitValue
  omega

theorem digitChar_digitValue {c : Char} (h : c.isDigit) : digitChar (digitValue c) = c := by
  have hlo : 48 ≤ c.toNat := (Char.isDigit_iff_toNat.mp h).1
  rw [digitChar, digitValue, Nat.add_sub_cancel' hlo, Char.ofNat_toNat]

@[simp] theorem value_zeros (zeros : Nat) (ds : List Char) :
    value (List.replicate zeros '0' ++ ds) = value ds := by
  induction zeros with
  | zero => rfl
  | succ k ih => exact ih

theorem isNumeral_zeros {ds : List Char} (zeros : Nat) (h : isNumeral ds) :
    isNumeral (List.replicate zeros '0' ++ ds) := by
  obtain ⟨hne, hdigit⟩ := isNumeral_iff.mp h
  refine isNumeral_iff.mpr ⟨by simp [hne], fun c hc => ?_⟩
  rcases List.mem_append.mp hc with hzero | hc
  · rw [(List.mem_replicate.mp hzero).2]
    decide
  · exact hdigit c hc

/-- **A run of digits is the numeral of its value behind zeros.** -/
theorem exists_zeros {ds : List Char} (h : isNumeral ds) :
    ∃ zeros, ds = List.replicate zeros '0' ++ decimalChars (value ds) := by
  induction ds using List.reverseRecOn with
  | nil => simp [isNumeral] at h
  | append_singleton ds d ih =>
    obtain ⟨-, hdigit⟩ := isNumeral_iff.mp h
    have hd : d.isDigit := hdigit d (by simp)
    have hlt : digitValue d < 10 := digitValue_lt hd
    have hone : decimalChars (digitValue d) = [d] := by
      rw [decimalChars, if_pos hlt, digitChar_digitValue hd]
    rw [value_concat]
    by_cases hds : ds = []
    · subst hds
      refine ⟨0, ?_⟩
      show [d] = decimalChars (10 * 0 + digitValue d)
      rw [Nat.mul_zero, Nat.zero_add, hone]
    obtain ⟨zeros, hzeros⟩ :=
      ih (isNumeral_iff.mpr ⟨hds, fun c hc => hdigit c (List.mem_append_left _ hc)⟩)
    by_cases hzero : value ds = 0
    · -- All digits in front are zeros, the one that is the numeral of 0 included.
      have hchars : decimalChars 0 = ['0'] := decimalChars_of_head (by rw [decimalChars]; rfl)
      rw [hzero, hchars] at hzeros
      refine ⟨zeros + 1, ?_⟩
      rw [hzero, Nat.mul_zero, Nat.zero_add, hone, hzeros, List.replicate_succ']
    · have hbig : ¬ 10 * value ds + digitValue d < 10 := by omega
      have hdiv : (10 * value ds + digitValue d) / 10 = value ds := by omega
      have hmod : (10 * value ds + digitValue d) % 10 = digitValue d := by omega
      refine ⟨zeros, ?_⟩
      rw [decimalChars, if_neg hbig, hdiv, hmod, digitChar_digitValue hd, ← List.append_assoc,
        ← hzeros]

/-- The ways to write a sub-sequence number: a plus sign or none, then zeros, then the numeral. -/
def padded (sign : Bool) (zeros : Nat) (n : UInt64) : List Char :=
  (if sign then ['+'] else []) ++ List.replicate zeros '0' ++ decimalChars n.toNat

theorem readUnsigned_plus {ds : List Char} (h : isNumeral ds) :
    readUnsigned ('+' :: ds) = readUnsigned ds := by
  rw [readUnsigned_of_isNumeral h]
  simp [readUnsigned, h]

theorem readUnsigned_padded (sign : Bool) (zeros : Nat) (n : UInt64) :
    readUnsigned (padded sign zeros n) = some n := by
  have hnumeral : isNumeral (List.replicate zeros '0' ++ decimalChars n.toNat) :=
    isNumeral_zeros zeros (isNumeral_decimalChars _)
  have hread := readUnsigned_of_value hnumeral (n := n) (by simp)
  cases sign with
  | false => exact hread
  | true => exact (readUnsigned_plus hnumeral).trans hread

/-- **Nothing else is read as an unsigned number.** -/
theorem exists_padded {cs : List Char} {n : UInt64} (h : readUnsigned cs = some n) :
    ∃ sign zeros, cs = padded sign zeros n := by
  have hdigits : ∀ {ds : List Char}, (if isNumeral ds && value ds < UInt64.size then
      some (UInt64.ofNat (value ds)) else none) = some n →
      ∃ zeros, ds = List.replicate zeros '0' ++ decimalChars n.toNat := by
    intro ds hds
    split at hds
    · rename_i hcond
      obtain ⟨hnumeral, hlt⟩ := Bool.and_eq_true_iff.mp hcond
      obtain rfl := Option.some.inj hds
      obtain ⟨zeros, hzeros⟩ := exists_zeros hnumeral
      have hvalue : (UInt64.ofNat (value ds)).toNat = value ds :=
        UInt64.toNat_ofNat_of_lt (of_decide_eq_true hlt)
      refine ⟨zeros, ?_⟩
      rw [hvalue]
      exact hzeros
    · cases hds
  unfold readUnsigned at h
  split at h
  · obtain ⟨zeros, rfl⟩ := hdigits h
    exact ⟨true, zeros, rfl⟩
  · obtain ⟨zeros, rfl⟩ := hdigits h
    exact ⟨false, zeros, rfl⟩

/-! ### What trimming takes off -/

/-- Trimming the front leaves what trimming both ends does, and blanks behind it. -/
theorem dropWhile_eq_trimChars_append (cs : List Char) :
    cs.dropWhile isBlank =
      trimChars cs ++ ((cs.dropWhile isBlank).reverse.takeWhile isBlank).reverse := by
  have hback := List.takeWhile_append_dropWhile (p := isBlank)
    (l := (cs.dropWhile isBlank).reverse)
  rw [trimChars, ← List.reverse_append, hback, List.reverse_reverse]

theorem exists_blanks (cs : List Char) :
    ∃ u v : List Char, (∀ c ∈ u, isBlank c) ∧ (∀ c ∈ v, isBlank c) ∧
      cs = u ++ trimChars cs ++ v := by
  have hfront := List.takeWhile_append_dropWhile (p := isBlank) (l := cs)
  refine ⟨cs.takeWhile isBlank, ((cs.dropWhile isBlank).reverse.takeWhile isBlank).reverse,
    fun c hc => List.mem_takeWhile_imp hc,
    fun c hc => List.mem_takeWhile_imp (List.mem_reverse.mp hc), ?_⟩
  rw [List.append_assoc, ← dropWhile_eq_trimChars_append, hfront]

end Text

namespace Checkpoint

/-! ### The texts of a checkpoint -/

/-- The checkpoints that can be made: the sentinels, and the positions at a text that passes the
    check of a sequence number. -/
inductive Made : Checkpoint → Prop where
  | trimHorizon : Made .trimHorizon
  | latest : Made .latest
  | atTimestamp : Made .atTimestamp
  | shardEnd : Made .shardEnd
  | atSequence {s : String} {sub : UInt64} {c : Checkpoint} (h : atSequence s sub = .ok c) : Made c

/-- The texts that stand for a checkpoint when blanks are left out. -/
inductive Spells : Checkpoint → String → Prop where
  /-- The printed text. -/
  | text (c : Checkpoint) : Spells c c.text
  /-- The sub-sequence number with a sign or zeros in front, or a zero that is not printed. -/
  | padded (n : SequenceNumber) (sub : UInt64) (sign : Bool) (zeros : Nat) :
    Spells (.sequence n sub) (n.digits ++ ":" ++ String.ofList (Text.padded sign zeros sub))

theorem made_iff {c : Checkpoint} : Made c ↔ c.Valid := by
  refine ⟨?_, ?_⟩
  · intro h
    cases h with
    | atSequence h => exact valid_of_atSequence h
    | trimHorizon | latest | atTimestamp | shardEnd => trivial
  · intro h
    cases c with
    | sequence n sub => exact .atSequence (atSequence_of_valid h sub)
    | trimHorizon => exact .trimHorizon
    | latest => exact .latest
    | atTimestamp => exact .atTimestamp
    | shardEnd => exact .shardEnd

theorem splitColon_eq_some {cs number sub : List Char} (h : splitColon cs = some (number, sub)) :
    cs = number ++ ':' :: sub := by
  unfold splitColon at h
  split at h
  · cases h
  rename_i c r hdrop
  obtain ⟨rfl, rfl⟩ := Prod.mk.inj (Option.some.inj h)
  have hhead := List.head?_dropWhile_not (· != ':') cs
  rw [hdrop, List.head?_cons] at hhead
  obtain rfl : c = ':' := by simpa using hhead
  rw [← hdrop, List.takeWhile_append_dropWhile]

/-- What spells a checkpoint is read as that checkpoint. -/
theorem parseTrimmed_of_spells {c : Checkpoint} (hc : c.Valid) {t : String} (h : Spells c t) :
    parseTrimmed t = .ok c := by
  cases h with
  | text c =>
    cases c with
    | sequence n sub => exact parseTrimmed_text_sequence hc sub
    | trimHorizon | latest | atTimestamp | shardEnd => rfl
  | padded n sub sign zeros =>
    have hsplit : splitColon (n.digits ++ ":" ++ String.ofList (Text.padded sign zeros sub)).toList =
        some (n.digits.toList, Text.padded sign zeros sub) := by
      have hsub : splitColon (n.digits.toList ++ ':' :: Text.padded sign zeros sub) =
          some (n.digits.toList, Text.padded sign zeros sub) :=
        splitColon_append hc.ne_colon
      simpa [String.toList_append] using hsub
    have hsentinel := not_mem_sentinels_of_digits hc
      (":" ++ String.ofList (Text.padded sign zeros sub))
    rw [← String.append_assoc] at hsentinel
    rw [parseTrimmed_pair hsentinel hsplit (Text.readUnsigned_padded sign zeros sub),
      String.ofList_toList]
    exact atSequence_of_valid hc sub

theorem not_isBlank_of_spells {c : Checkpoint} (hc : c.Valid) {t : String} (h : Spells c t) :
    ∀ x ∈ t.toList, ¬ Text.isBlank x := by
  intro x hx
  cases h with
  | text c => exact not_isBlank_of_mem_text hc hx
  | padded n sub sign zeros =>
    simp only [String.toList_append, String.toList_ofList, Text.padded, List.mem_append] at hx
    rcases hx with (hx | hx) | (hx | hx) | hx
    · exact Text.not_isBlank_of_isDigit (SequenceNumber.Valid.isDigit hc x hx)
    · obtain rfl : x = ':' := by simpa using hx
      decide
    · cases sign with
      | false => simp at hx
      | true =>
        obtain rfl : x = '+' := by simpa using hx
        decide
    · rw [(List.mem_replicate.mp hx).2]
      decide
    · exact Text.not_isBlank_of_isDigit (Text.isDigit_of_mem_decimalChars hx)

/-- What is read as a checkpoint spells it. -/
theorem spells_of_parseTrimmed {c : Checkpoint} {t : String} (h : parseTrimmed t = .ok c) :
    Spells c t := by
  unfold parseTrimmed at h
  by_cases h₁ : t = "TRIM_HORIZON"
  · rw [if_pos h₁] at h
    obtain rfl := Except.ok.inj h
    exact h₁ ▸ .text .trimHorizon
  by_cases h₂ : t = "LATEST"
  · rw [if_neg h₁, if_pos h₂] at h
    obtain rfl := Except.ok.inj h
    exact h₂ ▸ .text .latest
  by_cases h₃ : t = "AT_TIMESTAMP"
  · rw [if_neg h₁, if_neg h₂, if_pos h₃] at h
    obtain rfl := Except.ok.inj h
    exact h₃ ▸ .text .atTimestamp
  by_cases h₄ : t = "SHARD_END"
  · rw [if_neg h₁, if_neg h₂, if_neg h₃, if_pos h₄] at h
    obtain rfl := Except.ok.inj h
    exact h₄ ▸ .text .shardEnd
  rw [if_neg h₁, if_neg h₂, if_neg h₃, if_neg h₄] at h
  split at h
  · obtain ⟨-, rfl⟩ := atSequence_eq_ok.mp h
    exact .text (.sequence ⟨t⟩ 0)
  rename_i number sub hsplit
  split at h
  · cases h
  rename_i n hn
  obtain ⟨-, rfl⟩ := atSequence_eq_ok.mp h
  obtain ⟨sign, zeros, rfl⟩ := Text.exists_padded hn
  have ht : t = String.ofList number ++ ":" ++ String.ofList (Text.padded sign zeros n) := by
    rw [← String.toList_inj, splitColon_eq_some hsplit]
    simp
  exact ht ▸ .padded ⟨String.ofList number⟩ n sign zeros

theorem parse_of_spells {c : Checkpoint} (hc : c.Valid) {u t v : String}
    (hu : Text.isAllBlank u) (hv : Text.isAllBlank v) (h : Spells c t) :
    parse (u ++ t ++ v) = .ok c := by
  have htrim : Text.trim (u ++ t ++ v) = t := by
    rw [Text.trim, String.toList_append, String.toList_append,
      Text.trimChars_append (List.all_eq_true.mp hu) (List.all_eq_true.mp hv)
        (not_isBlank_of_spells hc h), String.ofList_toList]
  rw [parse, htrim, parseTrimmed_of_spells hc h]

theorem exists_spells_of_parse {c : Checkpoint} {s : String} (h : parse s = .ok c) :
    ∃ u t v, Text.isAllBlank u ∧ Text.isAllBlank v ∧ Spells c t ∧ s = u ++ t ++ v := by
  obtain ⟨u, v, hu, hv, hs⟩ := Text.exists_blanks s.toList
  refine ⟨String.ofList u, Text.trim s, String.ofList v, ?_, ?_, spells_of_parseTrimmed h, ?_⟩
  · simpa [Text.isAllBlank] using hu
  · simpa [Text.isAllBlank] using hv
  · rw [← String.toList_inj, hs]
    simp [Text.trim]

theorem text_inj {c d : Checkpoint} (hc : c.Valid) (hd : d.Valid) (htext : c.text = d.text) :
    c = d := by
  have hread := parse_text hc
  rw [htext, parse_text hd] at hread
  exact (Except.ok.inj hread).symm

theorem exists_atSequence_iff {s : String} {sub : UInt64} :
    (∃ c, atSequence s sub = .ok c) ↔ s.toList ≠ [] ∧ ∀ x ∈ s.toList, x.isDigit := by
  simp only [atSequence_eq_ok]
  refine ⟨?_, ?_⟩
  · intro h
    obtain ⟨-, hs, -⟩ := h
    exact ⟨hs.nonempty, hs.isDigit⟩
  · intro hs
    exact ⟨_, ⟨hs.1, hs.2⟩, rfl⟩

/-- **A checkpoint that can be made is read from its text, whatever blanks are around it, so no
    two of them share a text.**  Every digit string and every sub-sequence number makes a
    checkpoint.  What is read as a checkpoint is its text, up to the blanks around it, a sign or
    zeros in front of the sub-sequence number, and a sub-sequence number of zero that is not
    printed. -/
theorem parse_normalises :
    (∀ (s : String) (sub : UInt64), (∃ c, atSequence s sub = .ok c) ↔
        s.toList ≠ [] ∧ ∀ x ∈ s.toList, x.isDigit) ∧
      (∀ (c : Checkpoint) (u v : String), Made c → Text.isAllBlank u → Text.isAllBlank v →
        parse (u ++ c.text ++ v) = .ok c) ∧
      (∀ c d : Checkpoint, Made c → Made d → c.text = d.text → c = d) ∧
      ∀ (s : String) (c : Checkpoint), parse s = .ok c ↔
        Made c ∧ ∃ u t v, Text.isAllBlank u ∧ Text.isAllBlank v ∧ Spells c t ∧
          s = u ++ t ++ v := by
  simp only [made_iff]
  refine ⟨?_, ?_, ?_, ?_⟩
  · intro s sub
    exact exists_atSequence_iff
  · intro c u v hc hu hv
    exact parse_of_spells hc hu hv (.text c)
  · intro c d hc hd htext
    exact text_inj hc hd htext
  · intro s c
    refine ⟨fun h => ⟨valid_of_parse h, exists_spells_of_parse h⟩, ?_⟩
    rintro ⟨hc, u, t, v, hu, hv, ht, rfl⟩
    exact parse_of_spells hc hu hv ht

/-- Zeros in front of a sequence number are part of it, those of its sub-sequence number are not. -/
theorem parse_normalises_padded :
    Text.isAllBlank "\t" ∧ Text.isAllBlank "\u3000\n" ∧
      ∃ c, atSequence "007" 5 = .ok c ∧ c.text = "007:5" ∧
        parse ("\t" ++ c.text ++ "\u3000\n") = .ok c ∧
        parse ("\t" ++ "007:+0005" ++ "\u3000\n") = .ok c := by
  have hu : Text.isAllBlank "\t" := by decide
  have hv : Text.isAllBlank "\u3000\n" := by decide
  have hchars : Text.decimalChars (5 : UInt64).toNat = ['5'] := by
    rw [Text.decimalChars]
    rfl
  let c : Checkpoint := .sequence ⟨"007"⟩ 5
  have hmade : atSequence "007" 5 = .ok c := rfl
  have htext : c.text = "007:5" := by
    rw [text_sequence, if_neg (by decide), Text.decimal, hchars]
    rfl
  have hspells : Spells c "007:+0005" := by
    have hpadded := Spells.padded ⟨"007"⟩ 5 true 3
    rw [Text.padded, hchars] at hpadded
    exact hpadded
  obtain ⟨-, hround, -, hexact⟩ := parse_normalises
  exact ⟨hu, hv, c, hmade, htext, hround c _ _ (.atSequence hmade) hu hv,
    (hexact _ c).mpr ⟨.atSequence hmade, _, _, _, hu, hv, hspells, rfl⟩⟩

end Checkpoint

end LeaseOrder
