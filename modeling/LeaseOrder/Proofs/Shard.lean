/-
The parts of a record are read back from their texts.

An ID and a set of parents are valid by their types, so their texts pass the checks of
the readers.  A checkpoint is valid if its sequence number has passed the check.  Then no
character of its text is blank, so trimming takes off what was put around it and nothing
else, and the first colon is the one that stands in front of the sub-sequence number.
-/
import Mathlib.Data.List.TakeWhile
import LeaseOrder.Proofs.Text
import LeaseOrder.Shard.Checkpoint
import LeaseOrder.Shard.ParentSet

namespace LeaseOrder

/-! ### Trimming -/

namespace Text

/-- Trimming takes blanks off up to the first and the last character that are not blank. -/
theorem trimChars_ends {u cs v : List Char} (hu : ∀ c ∈ u, isBlank c) (hv : ∀ c ∈ v, isBlank c)
    (hfirst : ∀ c ∈ cs.head?, ¬ isBlank c) (hlast : ∀ c ∈ cs.getLast?, ¬ isBlank c) :
    trimChars (u ++ cs ++ v) = cs := by
  have hlast' : ∀ c ∈ cs.reverse.head?, ¬ isBlank c := by
    intro c hc
    exact hlast c (by rwa [← List.head?_reverse])
  have hv' : ∀ c ∈ v.reverse, isBlank c := by
    intro c hc
    exact hv c (List.mem_reverse.mp hc)
  unfold trimChars
  rw [List.append_assoc, List.dropWhile_append_of_pos hu]
  cases cs with
  | nil =>
    have hnone : v.dropWhile isBlank = [] := List.dropWhile_eq_nil_iff.mpr hv
    rw [List.nil_append, hnone]
    rfl
  | cons c cs =>
    rw [List.cons_append, List.dropWhile_cons_of_neg (hfirst c rfl),
      ← List.cons_append, List.reverse_append, dropWhile_run hv' hlast', List.reverse_reverse]

theorem trimChars_append {u cs v : List Char} (hu : ∀ c ∈ u, isBlank c)
    (hv : ∀ c ∈ v, isBlank c) (hcs : ∀ c ∈ cs, ¬ isBlank c) :
    trimChars (u ++ cs ++ v) = cs :=
  trimChars_ends hu hv (fun c hc => hcs c (List.mem_of_mem_head? hc))
    fun c hc => hcs c (List.mem_of_getLast? hc)

theorem trim_of_not_isBlank {s : String} (h : ∀ c ∈ s.toList, ¬ isBlank c) : trim s = s := by
  have hs := trimChars_append (u := []) (v := []) (by simp) (by simp) h
  rw [List.nil_append, List.append_nil] at hs
  rw [trim, hs, String.ofList_toList]

theorem not_isBlank_of_isDigit {c : Char} (h : c.isDigit) : ¬ isBlank c := by
  obtain ⟨hlo, hhi⟩ := Char.isDigit_iff_toNat.mp h
  simp only [isBlank, Bool.or_eq_true, Bool.and_eq_true, decide_eq_true_eq, beq_iff_eq,
    UInt32.le_iff_toNat_le, ← UInt32.toNat_inj]
  simp at hlo hhi ⊢
  omega

end Text

/-! ### Checkpoints -/

namespace SequenceNumber

variable {n : SequenceNumber}

theorem isNumeral_iff : Text.isNumeral n.digits.toList ↔ n.Valid := by
  rw [Text.isNumeral_iff]
  exact ⟨fun h => ⟨h.1, h.2⟩, fun h => ⟨h.nonempty, h.isDigit⟩⟩

theorem Valid.ne_colon (hn : n.Valid) : ∀ d ∈ n.digits.toList, d ≠ ':' := by
  rintro d hd rfl
  exact absurd (hn.isDigit _ hd) (by decide)

end SequenceNumber

namespace Checkpoint

theorem atSequence_eq_ok {s : String} {sub : UInt64} {c : Checkpoint} :
    atSequence s sub = .ok c ↔ SequenceNumber.Valid ⟨s⟩ ∧ c = .sequence ⟨s⟩ sub := by
  rw [← SequenceNumber.isNumeral_iff, atSequence]
  by_cases h : Text.isNumeral s.toList = true
  · simp [h, eq_comm]
  · simp [h]

theorem atSequence_of_valid {n : SequenceNumber} (hn : n.Valid) (sub : UInt64) :
    atSequence n.digits sub = .ok (.sequence n sub) :=
  atSequence_eq_ok.mpr ⟨hn, rfl⟩

/-- The texts of the checkpoints that are no positions. -/
def sentinels : List String :=
  ["TRIM_HORIZON", "LATEST", "AT_TIMESTAMP", "SHARD_END"]

theorem not_isBlank_of_mem_sentinels {s : String} {x : Char} (hs : s ∈ sentinels)
    (h : x ∈ s.toList) : ¬ Text.isBlank x := by
  have hall : sentinels.all (fun name => name.toList.all (!Text.isBlank ·)) = true := by decide
  have hx := List.all_eq_true.mp (List.all_eq_true.mp hall s hs) x h
  simpa using hx

theorem not_mem_sentinels {s : String} {c : Char} (hc : c ∈ s.toList.head?) (h : c.isDigit) :
    s ∉ sentinels := by
  intro hs
  have hall : sentinels.all (fun name => name.toList.head?.all (!·.isDigit)) = true := by decide
  have hfirst := List.all_eq_true.mp hall s hs
  rw [Option.mem_def.mp hc] at hfirst
  simp [h] at hfirst

theorem text_sequence (n : SequenceNumber) (sub : UInt64) :
    (Checkpoint.sequence n sub).text =
      if sub = 0 then n.digits else n.digits ++ ":" ++ Text.decimal sub.toNat := rfl

theorem not_mem_sentinels_of_digits {n : SequenceNumber} (hn : n.Valid) (rest : String) :
    n.digits ++ rest ∉ sentinels := by
  obtain ⟨d, ds, hds⟩ := List.exists_cons_of_ne_nil hn.nonempty
  have hhead : d ∈ (n.digits ++ rest).toList.head? := by
    rw [String.toList_append, hds]
    rfl
  exact not_mem_sentinels hhead (hn.isDigit d (hds ▸ List.mem_cons_self))

theorem not_isBlank_of_mem_text {c : Checkpoint} (hc : c.Valid) {x : Char}
    (h : x ∈ c.text.toList) : ¬ Text.isBlank x := by
  cases c with
  | sequence n sub =>
    have hdigits : x ∈ n.digits.toList → ¬ Text.isBlank x := by
      intro hx
      exact Text.not_isBlank_of_isDigit (hc.isDigit x hx)
    rw [text_sequence] at h
    split at h
    · exact hdigits h
    · rw [String.toList_append, String.toList_append, List.append_assoc, List.mem_append,
        List.mem_append] at h
      rcases h with h | h | h
      · exact hdigits h
      · rw [List.mem_singleton.mp h]
        decide
      · rw [Text.decimal, String.toList_ofList] at h
        exact Text.not_isBlank_of_isDigit (Text.isDigit_of_mem_decimalChars h)
  | trimHorizon | latest | atTimestamp | shardEnd =>
    exact not_isBlank_of_mem_sentinels (by decide) h

section Position

variable {s : String} {number sub : List Char}

theorem splitColon_none (h : ∀ c ∈ number, c ≠ ':') : splitColon number = none := by
  have hnone : number.dropWhile (· != ':') = [] :=
    List.dropWhile_eq_nil_iff.mpr (by simpa using h)
  rw [splitColon, hnone]

theorem splitColon_append (h : ∀ c ∈ number, c ≠ ':') :
    splitColon (number ++ ':' :: sub) = some (number, sub) := by
  have hrun : ∀ c ∈ number, (c != ':') := by simpa using h
  have hrest : ∀ c ∈ (':' :: sub).head?, ¬ (c != ':') := by simp
  rw [splitColon, Text.dropWhile_run hrun hrest, Text.takeWhile_run hrun hrest]

theorem parseTrimmed_number (hs : s ∉ sentinels) (h : splitColon s.toList = none) :
    parseTrimmed s = atSequence s 0 := by
  simp only [sentinels, List.mem_cons, List.not_mem_nil, or_false, not_or] at hs
  simp only [parseTrimmed, hs, if_false, h]

theorem parseTrimmed_pair {n : UInt64} (hs : s ∉ sentinels)
    (h : splitColon s.toList = some (number, sub)) (hn : Text.readUnsigned sub = some n) :
    parseTrimmed s = atSequence (String.ofList number) n := by
  simp only [sentinels, List.mem_cons, List.not_mem_nil, or_false, not_or] at hs
  simp only [parseTrimmed, hs, if_false, h, hn]

theorem parseTrimmed_unread (hs : s ∉ sentinels) (h : splitColon s.toList = some (number, sub))
    (hn : Text.readUnsigned sub = none) : parseTrimmed s = .error (.invalidSubSequence s) := by
  simp only [sentinels, List.mem_cons, List.not_mem_nil, or_false, not_or] at hs
  simp only [parseTrimmed, hs, if_false, h, hn]

end Position

theorem parseTrimmed_text_sequence {n : SequenceNumber} (hn : n.Valid) (sub : UInt64) :
    parseTrimmed (Checkpoint.sequence n sub).text = .ok (.sequence n sub) := by
  have hat := atSequence_of_valid hn sub
  rw [text_sequence]
  by_cases hsub : sub = 0
  · have hsentinel := not_mem_sentinels_of_digits hn ""
    rw [String.append_empty] at hsentinel
    rw [if_pos hsub, parseTrimmed_number hsentinel (splitColon_none hn.ne_colon), ← hsub, hat]
  · have hsentinel := not_mem_sentinels_of_digits hn (":" ++ Text.decimal sub.toNat)
    rw [← String.append_assoc] at hsentinel
    have htext : (n.digits ++ ":" ++ Text.decimal sub.toNat).toList =
        n.digits.toList ++ ':' :: Text.decimalChars sub.toNat := by
      simp [Text.decimal]
    have hsplit : splitColon (n.digits ++ ":" ++ Text.decimal sub.toNat).toList =
        some (n.digits.toList, Text.decimalChars sub.toNat) := by
      rw [htext, splitColon_append hn.ne_colon]
    rw [if_neg hsub, parseTrimmed_pair hsentinel hsplit (Text.readUnsigned_decimalChars sub),
      String.ofList_toList, hat]

/-- **A valid checkpoint is read back from its text.** -/
theorem parse_text {c : Checkpoint} (hc : c.Valid) : parse c.text = .ok c := by
  rw [parse, Text.trim_of_not_isBlank fun x hx => not_isBlank_of_mem_text hc hx]
  cases c with
  | sequence n sub => exact parseTrimmed_text_sequence hc sub
  | trimHorizon | latest | atTimestamp | shardEnd => rfl

theorem valid_of_atSequence {s : String} {sub : UInt64} {c : Checkpoint}
    (h : atSequence s sub = .ok c) : c.Valid := by
  obtain ⟨hs, rfl⟩ := atSequence_eq_ok.mp h
  exact hs

/-- What is read is valid. -/
theorem valid_of_parse {s : String} {c : Checkpoint} (h : parse s = .ok c) : c.Valid := by
  unfold parse parseTrimmed at h
  iterate 4
    split at h
    · obtain rfl := Except.ok.inj h
      trivial
  split at h
  · exact valid_of_atSequence h
  · split at h
    · cases h
    · exact valid_of_atSequence h

end Checkpoint

/-! ### IDs and parents -/

@[simp] theorem ShardId.ofString_text (id : ShardId) : ofString id.text = .ok id := by
  have hnone : id.text.toList.find? isForbidden = none := by
    rw [List.find?_eq_none]
    intro c hc
    simpa using id.valid.allowed c hc
  unfold ofString
  rw [dif_neg id.valid.nonempty, dif_neg (Nat.not_lt.mpr id.valid.length_le)]
  split
  · rename_i h
    rw [hnone] at h
    cases h
  · rfl

/-- The check of an ID, as one that can be evaluated. -/
theorem ShardId.valid_of_all {s : String} (h : (!s.toList.isEmpty &&
    decide (s.toList.length ≤ maxLength) && s.toList.all (!isForbidden ·)) = true) : Valid s := by
  simp only [Bool.and_eq_true, Bool.not_eq_true', List.isEmpty_eq_false_iff, decide_eq_true_eq,
    List.all_eq_true] at h
  exact ⟨h.1.1, h.1.2, h.2⟩

namespace ParentSet

theorem insertSorted_of_forall_lt {id : ShardId} {xs : List ShardId} (h : ∀ x ∈ xs, x < id) :
    insertSorted id xs = xs ++ [id] := by
  induction xs with
  | nil => rfl
  | cons x xs ih =>
    have hx : x < id := h x List.mem_cons_self
    have hnot : ¬ id < x := fun hlt => String.lt_irrefl _ (String.lt_trans hx hlt)
    rw [insertSorted, if_neg hnot, if_pos hx, ih fun y hy => h y (List.mem_cons_of_mem _ hy)]
    rfl

theorem ids_foldl_insert {ids : List ShardId} {s : ParentSet}
    (h : (s.ids ++ ids).Pairwise (· < ·)) : (ids.foldl insert s).ids = s.ids ++ ids := by
  induction ids generalizing s with
  | nil => simp
  | cons id ids ih =>
    have hlast : (s.insert id).ids = s.ids ++ [id] :=
      insertSorted_of_forall_lt fun x hx =>
        (List.pairwise_append.mp h).2.2 x hx id List.mem_cons_self
    have hstep : ((s.insert id).ids ++ ids).Pairwise (· < ·) := by
      rw [hlast, List.append_assoc]
      exact h
    rw [List.foldl_cons, ih hstep, hlast, List.append_assoc]
    rfl

theorem ids_injective {s t : ParentSet} (h : s.ids = t.ids) : s = t := by
  cases s
  cases t
  cases h
  rfl

@[simp] theorem ofList_ids (s : ParentSet) : ofList s.ids = s :=
  ids_injective (ids_foldl_insert (s := empty) s.ascending)

end ParentSet

end LeaseOrder
