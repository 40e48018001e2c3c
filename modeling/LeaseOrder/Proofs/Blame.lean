/-
What is wrong with a text that stands for no checkpoint.

A text is cut at its first colon.  The part behind it has to be an unsigned number, and only if
it is one does the part in front count, which has to be a sequence number as the whole text has
to be where there is no colon.  `Denotes` and `Blames` say this of a text without the blanks
around it.  Between them they leave no text out, so reading a text gives what they say.
-/
import LeaseOrder.Proofs.WellFormed

namespace LeaseOrder

open Json

namespace Text

/-! ### Unsigned numbers -/

/-- What an unsigned word is read from: digits, after at most one plus sign, that have the value
    of a word. -/
inductive Unsigned : List Char → UInt64 → Prop
  | digits {ds : List Char} {n : UInt64} (h : isNumeral ds) (hvalue : value ds = n.toNat) :
      Unsigned ds n
  | plus {ds : List Char} {n : UInt64} (h : isNumeral ds) (hvalue : value ds = n.toNat) :
      Unsigned ('+' :: ds) n

theorem readUnsigned_eq_some_iff {cs : List Char} {n : UInt64} :
    readUnsigned cs = some n ↔ Unsigned cs n := by
  refine ⟨?_, ?_⟩
  · intro h
    obtain ⟨sign, zeros, rfl⟩ := exists_padded h
    have hnumeral : isNumeral (List.replicate zeros '0' ++ decimalChars n.toNat) :=
      isNumeral_zeros zeros (isNumeral_decimalChars _)
    have hvalue : value (List.replicate zeros '0' ++ decimalChars n.toNat) = n.toNat := by
      simp
    cases sign with
    | false => exact .digits hnumeral hvalue
    | true => exact .plus hnumeral hvalue
  · intro h
    cases h with
    | digits hnumeral hvalue => exact readUnsigned_of_value hnumeral hvalue
    | plus hnumeral hvalue =>
      rw [readUnsigned_plus hnumeral, readUnsigned_of_value hnumeral hvalue]

theorem readUnsigned_eq_none_iff {cs : List Char} :
    readUnsigned cs = none ↔ ∀ n, ¬ Unsigned cs n := by
  simp only [Option.eq_none_iff_forall_ne_some, ne_eq, readUnsigned_eq_some_iff]

end Text

namespace Checkpoint

/-! ### Cutting at the first colon -/

variable {t front back : String} {k : UInt64}

theorem splitColon_join (hfront : ':' ∉ front.toList) :
    splitColon (front ++ ":" ++ back).toList = some (front.toList, back.toList) := by
  have hchars : (front ++ ":" ++ back).toList = front.toList ++ ':' :: back.toList := by simp
  rw [hchars]
  exact splitColon_append fun c hc hcolon => hfront (hcolon ▸ hc)

theorem exists_join (h : ':' ∈ t.toList) :
    ∃ front back : String, t = front ++ ":" ++ back ∧ ':' ∉ front.toList := by
  obtain ⟨front, back, ht, hfront⟩ := List.eq_append_cons_of_mem h
  refine ⟨String.ofList front, String.ofList back, ?_, by simpa using hfront⟩
  rw [← String.toList_inj, ht]
  simp

theorem join_not_mem_sentinels : front ++ ":" ++ back ∉ sentinels := by
  intro h
  have hplain : sentinels.all (fun name => !name.toList.contains ':') = true := by decide
  have hcolon := List.all_eq_true.mp hplain _ h
  simp at hcolon

/-! ### What a text stands for -/

/-- The checkpoint that a text without blanks around it stands for. -/
inductive Denotes : String → Checkpoint → Prop
  | trimHorizon : Denotes "TRIM_HORIZON" .trimHorizon
  | latest : Denotes "LATEST" .latest
  | atTimestamp : Denotes "AT_TIMESTAMP" .atTimestamp
  | shardEnd : Denotes "SHARD_END" .shardEnd
  /-- A sequence number alone is a position with the sub-sequence number zero. -/
  | number {n : SequenceNumber} (hn : n.Valid) : Denotes n.digits (.sequence n 0)
  | pair {n : SequenceNumber} (hn : n.Valid) {back : String} {k : UInt64}
      (h : Text.Unsigned back.toList k) : Denotes (n.digits ++ ":" ++ back) (.sequence n k)

/-- What is wrong with a text without blanks around it. -/
inductive Blames : String → CheckpointError → Prop
  /-- Behind the first colon there is no number; it does not matter what is in front of it. -/
  | back {front back : String} (hfront : ':' ∉ front.toList)
      (h : ∀ k, ¬ Text.Unsigned back.toList k) :
      Blames (front ++ ":" ++ back) (.invalidSubSequence (front ++ ":" ++ back))
  /-- There is a number, but what is in front of the colon is no sequence number. -/
  | front {front back : String} {k : UInt64} (hfront : ':' ∉ front.toList)
      (hback : Text.Unsigned back.toList k) (h : ¬ Text.isNumeral front.toList) :
      Blames (front ++ ":" ++ back) (.invalidSequence front)
  | whole {t : String} (hcolon : ':' ∉ t.toList) (hsentinel : t ∉ sentinels)
      (h : ¬ Text.isNumeral t.toList) : Blames t (.invalidSequence t)

theorem atSequence_of_not_isNumeral {sub : UInt64} (h : ¬ Text.isNumeral t.toList) :
    atSequence t sub = .error (.invalidSequence t) := by
  rw [atSequence, if_neg h]

theorem parseTrimmed_of_denotes {c : Checkpoint} (h : Denotes t c) : parseTrimmed t = .ok c := by
  cases h with
  | trimHorizon => rfl
  | latest => rfl
  | atTimestamp => rfl
  | shardEnd => rfl
  | number hn => exact parseTrimmed_text_sequence hn 0
  | pair hn hback =>
    have hfront := fun hcolon => hn.ne_colon _ hcolon rfl
    rw [parseTrimmed_pair join_not_mem_sentinels (splitColon_join hfront)
      (Text.readUnsigned_eq_some_iff.mpr hback), String.ofList_toList]
    exact atSequence_of_valid hn _

theorem parseTrimmed_of_blames {e : CheckpointError} (h : Blames t e) :
    parseTrimmed t = .error e := by
  cases h with
  | back hfront hback =>
    exact parseTrimmed_unread join_not_mem_sentinels (splitColon_join hfront)
      (Text.readUnsigned_eq_none_iff.mpr hback)
  | front hfront hback hnumeral =>
    rw [parseTrimmed_pair join_not_mem_sentinels (splitColon_join hfront)
      (Text.readUnsigned_eq_some_iff.mpr hback), String.ofList_toList]
    exact atSequence_of_not_isNumeral hnumeral
  | whole hcolon hsentinel hnumeral =>
    have hnone : splitColon t.toList = none := splitColon_none fun c hc h => hcolon (h ▸ hc)
    rw [parseTrimmed_number hsentinel hnone]
    exact atSequence_of_not_isNumeral hnumeral

theorem denotes_of_mem_sentinels (h : t ∈ sentinels) : ∃ c, Denotes t c := by
  simp only [sentinels, List.mem_cons, List.not_mem_nil, or_false] at h
  rcases h with rfl | rfl | rfl | rfl
  · exact ⟨_, .trimHorizon⟩
  · exact ⟨_, .latest⟩
  · exact ⟨_, .atTimestamp⟩
  · exact ⟨_, .shardEnd⟩

/-- Every text stands for a checkpoint or has something wrong with it. -/
theorem denotes_or_blames (t : String) : (∃ c, Denotes t c) ∨ ∃ e, Blames t e := by
  by_cases hsentinel : t ∈ sentinels
  · exact .inl (denotes_of_mem_sentinels hsentinel)
  by_cases hcolon : ':' ∈ t.toList
  · obtain ⟨front, back, rfl, hfront⟩ := exists_join hcolon
    by_cases hback : ∃ k, Text.Unsigned back.toList k
    · obtain ⟨k, hback⟩ := hback
      by_cases hnumeral : Text.isNumeral front.toList
      · exact .inl ⟨_, .pair (n := ⟨front⟩) (SequenceNumber.isNumeral_iff.mp hnumeral) hback⟩
      · exact .inr ⟨_, .front hfront hback hnumeral⟩
    · exact .inr ⟨_, .back hfront fun k hk => hback ⟨k, hk⟩⟩
  · by_cases hnumeral : Text.isNumeral t.toList
    · exact .inl ⟨_, .number (n := ⟨t⟩) (SequenceNumber.isNumeral_iff.mp hnumeral)⟩
    · exact .inr ⟨_, .whole hcolon hsentinel hnumeral⟩

theorem parse_eq_ok_iff {s : String} {c : Checkpoint} :
    parse s = .ok c ↔ Denotes (Text.trim s) c :=
  eq_ok_iff_of_told (fun _ => parseTrimmed_of_denotes) (fun _ => parseTrimmed_of_blames)
    (denotes_or_blames (Text.trim s)) c

theorem parse_eq_error_iff {s : String} {e : CheckpointError} :
    parse s = .error e ↔ Blames (Text.trim s) e :=
  eq_error_iff_of_told (fun _ => parseTrimmed_of_denotes) (fun _ => parseTrimmed_of_blames)
    (denotes_or_blames (Text.trim s)) e

/-! ### Completed records -/

theorem parse_eq_shardEnd_iff {s : String} :
    parse s = .ok .shardEnd ↔ Text.trim s = "SHARD_END" := by
  rw [parse_eq_ok_iff]
  refine ⟨?_, ?_⟩
  · intro h
    generalize Text.trim s = t at h
    cases h
    rfl
  · intro h
    rw [h]
    exact .shardEnd

theorem isShardEnd_iff {c : Checkpoint} : c.isShardEnd ↔ c = .shardEnd := by
  cases c <;> simp [isShardEnd]

end Checkpoint

/-- The text that stands in a draft for the checkpoint of its record. -/
def Json.Draft.checkpointText? (d : Draft) : Option String :=
  (d.field? "checkpoint" 3).bind Draft.text?

namespace Record

variable {o : Origin} {d : Draft}

/-- An optional checkpoint is the end of a shard, if it is what was read for the checkpoint and
    its text is that of the end. -/
theorem isShardEnd_getD_iff {x : Option Checkpoint}
    (h : x.map Except.ok = (d.field? "checkpoint" 3).map (checkpointDecoder o)) :
    (x.getD .trimHorizon).isShardEnd ↔ ∃ t ∈ d.checkpointText?, Text.trim t = "SHARD_END" := by
  unfold Draft.checkpointText?
  cases hfield : d.field? "checkpoint" 3 with
  | none =>
    rw [hfield] at h
    obtain rfl : x = none := by simpa using h
    simp [Checkpoint.isShardEnd]
  | some field =>
    rw [hfield] at h
    obtain ⟨c, rfl, hc⟩ := Option.map_eq_some_iff.mp h
    obtain ⟨t, ht, hparse⟩ := exists_text_of_checked hc.symm
    rw [Option.getD_some, Checkpoint.isShardEnd_iff, Option.bind_some, ht]
    have hend := Checkpoint.parse_eq_shardEnd_iff (s := t)
    rw [hparse, Except.ok.injEq] at hend
    simpa using hend

theorem isCompleted_lease_iff {l : Lease} (h : decoder o d = .ok l) :
    l.isCompleted ↔ ∃ t ∈ d.checkpointText?, Text.trim t = "SHARD_END" := by
  obtain ⟨r, hr, hfinish⟩ := ok_of_bind h
  have hcheckpoint := Shape.decode_get Lease.hasField_checkpoint rfl hr
  unfold Lease.Draft.finish at hfinish
  split at hfinish
  · cases hfinish
  obtain rfl := Except.ok.inj hfinish
  exact isShardEnd_getD_iff hcheckpoint

theorem isCompleted_shard_iff {x : ShardInfo} (h : decoder o d = .ok x) :
    x.isCompleted ↔ ∃ t ∈ d.checkpointText?, Text.trim t = "SHARD_END" := by
  obtain ⟨r, hr, hfinish⟩ := ok_of_bind h
  have hcheckpoint := Shape.decode_get ShardInfo.hasField_checkpoint rfl hr
  unfold ShardInfo.Draft.finish at hfinish
  split at hfinish
  · cases hfinish
  obtain rfl := Except.ok.inj hfinish
  exact isShardEnd_getD_iff hcheckpoint

end Record

/-- **A text is read as the checkpoint that it stands for, and refused for what is wrong with it.**
    The blanks around it do not count.  A lease or a shard that has been read is completed
    exactly where the text of its checkpoint stands for the end of a shard. -/
theorem Checkpoint.parse_exact :
    (∀ s c, parse s = .ok c ↔ Denotes (Text.trim s) c) ∧
      (∀ s e, parse s = .error e ↔ Blames (Text.trim s) e) ∧
      (∀ (o : Origin) (d : Draft) (l : Lease), Record.decoder o d = .ok l →
        (l.isCompleted ↔ ∃ t ∈ d.checkpointText?, Text.trim t = "SHARD_END")) ∧
      ∀ (o : Origin) (d : Draft) (x : ShardInfo), Record.decoder o d = .ok x →
        (x.isCompleted ↔ ∃ t ∈ d.checkpointText?, Text.trim t = "SHARD_END") := by
  refine ⟨?_, ?_, ?_, ?_⟩
  · intro s c
    exact parse_eq_ok_iff
  · intro s e
    exact parse_eq_error_iff
  · intro o d l h
    exact Record.isCompleted_lease_iff h
  · intro o d x h
    exact Record.isCompleted_shard_iff h

/-- A lease in array form that is completed, and two texts with something wrong on both sides of
    the colon or on one. -/
theorem Checkpoint.parse_exact_padded :
    (∃ l : Lease, Record.ofText "[\"a\",null,0,\"\\u3000SHARD_END\\n\"]" = .ok l ∧ l.isCompleted) ∧
      parse "\tx :+\n" = .error (.invalidSubSequence "x :+") ∧
      parse "7 :+07" = .error (.invalidSequence "7 ") := by
  obtain ⟨-, herror, hlease, -⟩ := parse_exact
  refine ⟨?_, ?_, ?_⟩
  · let s := "[\"a\",null,0,\"\\u3000SHARD_END\\n\"]"
    have htext : (Reading.ofString s).draft.checkpointText? = some "\u3000SHARD_END\n" := by
      decide +kernel
    have hsome : (Record.ofText s : Except Failure Lease).toOption.isSome = true := by
      decide +kernel
    cases hl : (Record.ofText s : Except Failure Lease) with
    | error e =>
      rw [hl] at hsome
      cases hsome
    | ok l =>
      have hdecoder := Record.decoder_of_ofText hl
      exact ⟨l, rfl, (hlease _ _ l hdecoder).mpr ⟨_, htext, by decide⟩⟩
  · have htrim : Text.trim "\tx :+\n" = "x :+" := by decide
    rw [herror, htrim]
    refine @Blames.back "x " "+" (by decide) ?_
    intro k hk
    have hread := Text.readUnsigned_eq_some_iff.mpr hk
    cases hread
  · have htrim : Text.trim "7 :+07" = "7 :+07" := by decide
    rw [herror, htrim]
    have hback : Text.readUnsigned "+07".toList = some 7 := by decide
    exact @Blames.front "7 " "+07" 7 (by decide) (Text.readUnsigned_eq_some_iff.mp hback)
      (by decide)

end LeaseOrder
