/-
Records are read back from their JSON form.

A record is written field by field, and each field that is met while reading has not been
read before, is found by its name, and is decoded to what was written.  A field that is
left out leaves the record as it was, and its default is what was left out.  All this
needs the checkpoints to be valid, and those of a record that was read are, since reading
checks them.  So both kinds of records are `Lawful`, and everything said about batches
needs no more than that.
-/
import LeaseOrder.Proofs.Json.Decode
import LeaseOrder.Proofs.Json.Print
import LeaseOrder.Proofs.Shard
import LeaseOrder.Record.Lease
import LeaseOrder.Record.Shard

namespace LeaseOrder

namespace Json

theorem Value.drafts_map {α : Type} (f : α → Value) (xs : List α) :
    drafts (xs.map f) = xs.map fun x => (f x).draft := by
  induction xs with
  | nil => rfl
  | cons x xs ih => rw [List.map_cons, drafts, ih, List.map_cons]

namespace Decoder

theorem list_drafts {α : Type} {dec : Decoder α} {f : α → Draft} {o : Origin}
    {xs : List α} (h : ∀ a ∈ xs, dec o (f a) = .ok a) :
    list dec o (.array (xs.map f) true) = .ok xs := by
  have hitems : (xs.map f).mapM (dec o) = .ok xs := by
    induction xs with
    | nil => rfl
    | cons a xs ih =>
      rw [List.map_cons, List.mapM_cons, h a List.mem_cons_self,
        ih fun b hb => h b (List.mem_cons_of_mem _ hb)]
      rfl
  rw [list, hitems]
  rfl

end Decoder

namespace Shape

variable {ρ : Type} {s : Shape ρ} {o : Origin} {r r' : ρ} {key : String}
  {fs : List (String × Value)}

theorem readFields_of {α : Type} {get : ρ → Option α} {put : α → ρ → ρ} {dec : Decoder α}
    {v : Value} {a : α} (hf : (s.fields.find? fun f => f.name == key) = some (.of key get put dec))
    (hr : get r = none) (hd : dec o v.draft = .ok a) (hput : put a r = r') :
    s.readFields o r (Value.fieldDrafts ((key, v) :: fs)) =
      s.readFields o r' (Value.fieldDrafts fs) := by
  subst hput
  rw [Value.fieldDrafts, readFields, hf]
  simp only [Field.of, hr, hd, Option.isSome_none, Bool.false_eq_true, if_false]
  rfl

/-- A field that is left out leaves the record as it was. -/
theorem readFields_optional {α : Type} {get : ρ → Option (Option α)} {put : Option α → ρ → ρ}
    {dec : Decoder (Option α)} {enc : α → Value} {x : Option α}
    (hf : (s.fields.find? fun f => f.name == key) = some (.of key get put dec))
    (hr : get r = none) (hd : ∀ a ∈ x, dec o (enc a).draft = .ok (some a))
    (hput : (x.elim r fun a => put (some a) r) = r') :
    s.readFields o r (Value.fieldDrafts (optionalField key (x.map enc) ++ fs)) =
      s.readFields o r' (Value.fieldDrafts fs) := by
  subst hput
  cases x with
  | none => rfl
  | some a => exact readFields_of hf hr (hd a rfl) rfl

theorem decode_object (h : s.readFields o s.unread (Value.fieldDrafts fs) = .ok r) :
    s.decode o (Value.object fs).draft = .ok r := by
  rw [Value.draft, decode, h]
  rfl

end Shape

theorem plain_optionalField {α : Type} {key : String} {enc : α → Value} {x : Option α}
    (h : ∀ a, Plain (enc a)) : ∀ f ∈ optionalField key (x.map enc), Plain f.2 := by
  intro f hf
  cases x with
  | none => simp [optionalField] at hf
  | some a =>
    obtain rfl : f = (key, enc a) := by simpa [optionalField] using hf
    exact h a

end Json

open Json

/-! ### Fields -/

/-- The text of a draft that is a string. -/
def Json.Draft.text? : Draft → Option String
  | .string (.text s) => some s
  | _ => none

namespace Record

variable {o : Origin}

@[simp] theorem idDecoder_text (id : ShardId) :
    idDecoder o (Value.string id.text).draft = .ok id := by
  show ((ShardId.ofString id.text).mapError fun e => Failure.data (.badId e)) = .ok id
  rw [ShardId.ofString_text]
  rfl

theorem checkpointDecoder_text {c : Checkpoint} (hc : c.Valid) :
    checkpointDecoder o (Value.string c.text).draft = .ok c := by
  show ((Checkpoint.parse c.text).mapError fun e => Failure.data (.badCheckpoint e)) = .ok c
  rw [Checkpoint.parse_text hc]
  rfl

@[simp] theorem parentsDecoder_encodeParents (s : ParentSet) :
    parentsDecoder o (encodeParents s).draft = .ok s := by
  have hdrafts : (encodeParents s).draft =
      .array (s.ids.map fun id => (Value.string id.text).draft) true := by
    rw [encodeParents, ParentSet.texts, List.map_map, Value.draft, Value.drafts_map]
    rfl
  rw [parentsDecoder, hdrafts, Decoder.list_drafts fun id _ => idDecoder_text id]
  show Except.ok (ParentSet.ofList s.ids) = _
  rw [ParentSet.ofList_ids]

theorem plain_encodeParents (s : ParentSet) : Plain (encodeParents s) := by
  refine Plain.array fun v hv => ?_
  obtain ⟨t, -, rfl⟩ := List.mem_map.mp hv
  exact Plain.string t

@[simp] theorem nullable_string (s : String) :
    Decoder.nullable .string o (Value.string s).draft = .ok (some s) := rfl

theorem nullable_checkpoint {c : Checkpoint} (hc : c.Valid) :
    Decoder.nullable checkpointDecoder o (Value.string c.text).draft = .ok (some c) := by
  show (checkpointDecoder o (Value.string c.text).draft).map some = _
  rw [checkpointDecoder_text hc]
  rfl

variable {d : Draft}

/-- What stands for a checked value is a string that passes the check. -/
theorem exists_text_of_checked {α ε : Type} {read : String → Except ε α} {fault : ε → Mismatch}
    {a : α} (h : Decoder.checked read fault o d = .ok a) :
    ∃ s, d.text? = some s ∧ read s = .ok a := by
  obtain ⟨s, hs, h⟩ := ok_of_bind h
  refine ⟨s, ?_, ok_of_mapError h⟩
  unfold Decoder.string at hs
  split at hs
  · rw [← Except.ok.inj hs]
    rfl
  · cases hs

theorem valid_of_checkpointDecoder {c : Checkpoint} (h : checkpointDecoder o d = .ok c) :
    c.Valid := by
  obtain ⟨s, -, hs⟩ := exists_text_of_checked h
  exact Checkpoint.valid_of_parse hs

/-- An optional checkpoint is valid, if it is what was read for a checkpoint. -/
theorem valid_of_field {x : Option Checkpoint} {name : String} {place : Nat}
    (h : x.map Except.ok = (d.field? name place).map (checkpointDecoder o)) :
    ∀ c ∈ x, c.Valid := by
  rintro c rfl
  obtain ⟨field, -, hc⟩ := Option.map_eq_some_iff.mp h.symm
  exact valid_of_checkpointDecoder hc

/-- So is one that may be null. -/
theorem valid_of_nullable {x : Option (Option Checkpoint)} {name : String} {place : Nat}
    (h : x.map Except.ok = (d.field? name place).map (Decoder.nullable checkpointDecoder o)) :
    ∀ c ∈ x.join, c.Valid := by
  intro c hc
  obtain rfl : x = some (some c) := Option.join_eq_some_iff.mp hc
  obtain ⟨field, -, hread⟩ := Option.map_eq_some_iff.mp h.symm
  unfold Decoder.nullable at hread
  split at hread
  · cases hread
  · obtain ⟨c', hc', hsome⟩ := ok_of_map hread
    obtain rfl := Option.some.inj hsome
    exact valid_of_checkpointDecoder hc'

theorem valid_getD {x : Option Checkpoint} (h : ∀ c ∈ x, c.Valid) :
    (x.getD .trimHorizon).Valid := by
  cases x with
  | none => trivial
  | some c => exact h c rfl

/-- The valid records are those that are read, and they are read back from what they are
    written as. -/
class Lawful (α : Type) [Record α] where
  Valid : α → Prop
  plain_encode : ∀ x : α, Plain (encode x)
  decoder_encode : ∀ (o : Origin) {x : α}, Valid x → decoder o (encode x).draft = .ok x
  valid_of_decoder : ∀ {o : Origin} {d : Draft} {x : α}, decoder o d = .ok x → Valid x

theorem decoder_of_ofText {α : Type} [Record α] {s : String} {x : α} (h : ofText s = .ok x) :
    decoder .text (Reading.ofString s).draft = .ok x := by
  obtain ⟨y, hy, h⟩ := ok_of_bind h
  split at h
  · exact Except.ok.inj h ▸ hy
  · cases h

section Lawful

variable {α : Type} [Record α] [Lawful α] {x : α}

theorem ofText_text (hx : Lawful.Valid x) : ofText (text x) = .ok x := by
  have hread : Reading.ofString (encode x).text = ⟨(encode x).draft, true⟩ :=
    Reading.ofString_text (Lawful.plain_encode x)
  rw [ofText, text, decodeText, hread, Lawful.decoder_encode .text hx]
  rfl

theorem valid_of_ofText {s : String} (h : ofText s = .ok x) : Lawful.Valid x :=
  Lawful.valid_of_decoder (decoder_of_ofText h)

/-- **The valid records are those that are read back from their own text.** -/
theorem ofText_text_iff : ofText (text x) = .ok x ↔ Lawful.Valid x :=
  ⟨valid_of_ofText, ofText_text⟩

end Lawful

end Record

@[simp] theorem join_map_some {α : Type} (x : Option α) : (x.map some).join = x := by
  cases x <;> rfl

/-! ### Lease rows -/

namespace Lease

/-- The checkpoints of the lease are valid. -/
structure Valid (l : Lease) : Prop where
  checkpoint : l.checkpoint.Valid
  pendingCheckpoint : ∀ c ∈ l.pendingCheckpoint, c.Valid

/-- The lease with every field read that is written. -/
def Draft.of (l : Lease) : Draft :=
  ⟨some l.key, l.owner.map some, some l.counter, some l.checkpoint,
    l.pendingCheckpoint.map some, some l.ownerSwitches, some l.parents⟩

@[simp] theorem finish_of (l : Lease) : (Draft.of l).finish = .ok l := by
  simp only [Draft.finish, Draft.of, join_map_some, Option.getD_some]

theorem decode_encode (o : Origin) {l : Lease} (hl : l.Valid) :
    shape.decode o (encode l).draft = .ok (Draft.of l) := by
  refine Shape.decode_object ?_
  simp only [List.append_assoc, List.cons_append, List.nil_append]
  -- Each step reads one field more; the fields behind it are left to be inferred.
  calc shape.readFields o ⟨none, none, none, none, none, none, none⟩ (Value.fieldDrafts _)
    _ = shape.readFields o ⟨some l.key, none, none, none, none, none, none⟩
          (Value.fieldDrafts _) :=
      Shape.readFields_of rfl rfl (Record.idDecoder_text l.key) rfl
    _ = shape.readFields o ⟨some l.key, l.owner.map some, none, none, none, none, none⟩
          (Value.fieldDrafts _) :=
      Shape.readFields_optional rfl rfl (fun a _ => Record.nullable_string a)
        (by cases l.owner <;> rfl)
    _ = shape.readFields o ⟨some l.key, l.owner.map some, some l.counter, none, none, none, none⟩
          (Value.fieldDrafts _) :=
      Shape.readFields_of rfl rfl rfl rfl
    _ = shape.readFields o ⟨some l.key, l.owner.map some, some l.counter, some l.checkpoint,
          none, none, none⟩ (Value.fieldDrafts _) :=
      Shape.readFields_of rfl rfl (Record.checkpointDecoder_text hl.checkpoint) rfl
    _ = shape.readFields o ⟨some l.key, l.owner.map some, some l.counter, some l.checkpoint,
          l.pendingCheckpoint.map some, none, none⟩ (Value.fieldDrafts _) :=
      Shape.readFields_optional rfl rfl
        (fun c hc => Record.nullable_checkpoint (hl.pendingCheckpoint c hc))
        (by cases l.pendingCheckpoint <;> rfl)
    _ = shape.readFields o ⟨some l.key, l.owner.map some, some l.counter, some l.checkpoint,
          l.pendingCheckpoint.map some, some l.ownerSwitches, none⟩ (Value.fieldDrafts _) :=
      Shape.readFields_of rfl rfl rfl rfl
    _ = shape.readFields o (Draft.of l) (Value.fieldDrafts []) :=
      Shape.readFields_of rfl rfl (Record.parentsDecoder_encodeParents l.parents) rfl
    _ = .ok (Draft.of l) := rfl

theorem decoder_encode (o : Origin) {l : Lease} (hl : l.Valid) :
    decoder o (encode l).draft = .ok l := by
  rw [decoder, decode_encode o hl]
  exact finish_of l

theorem plain_encode (l : Lease) : Plain (encode l) := by
  refine Plain.object fun f hf => ?_
  simp only [List.mem_append, List.mem_cons, List.not_mem_nil, or_false] at hf
  rcases hf with (((rfl | hf) | rfl | rfl) | hf) | rfl | rfl
  · exact Plain.string _
  · exact plain_optionalField Plain.string f hf
  · exact Plain.word _
  · exact Plain.string _
  · exact plain_optionalField (fun c : Checkpoint => Plain.string c.text) f hf
  · exact Plain.word _
  · exact Record.plain_encodeParents _

theorem hasField_key : HasField shape.fields "lease_key" 0 Draft.key
    (fun x d => { d with key := some x }) Record.idDecoder :=
  ⟨rfl, by decide, fun _ _ => rfl, by simp [shape]⟩

theorem hasField_checkpoint : HasField shape.fields "checkpoint" 3 Draft.checkpoint
    (fun x d => { d with checkpoint := some x }) Record.checkpointDecoder :=
  ⟨rfl, by decide, fun _ _ => rfl, by simp [shape]⟩

theorem hasField_pendingCheckpoint : HasField shape.fields "pending_checkpoint" 4
    Draft.pendingCheckpoint (fun x d => { d with pendingCheckpoint := some x })
    (.nullable Record.checkpointDecoder) :=
  ⟨rfl, by decide, fun _ _ => rfl, by simp [shape]⟩

theorem hasField_parents : HasField shape.fields "parent_shard_ids" 6 Draft.parents
    (fun x d => { d with parents := some x }) Record.parentsDecoder :=
  ⟨rfl, by decide, fun _ _ => rfl, by simp [shape]⟩

theorem valid_of_decoder {o : Origin} {d : Json.Draft} {l : Lease} (h : decoder o d = .ok l) :
    l.Valid := by
  obtain ⟨r, hr, hfinish⟩ := ok_of_bind h
  have hcheckpoint := Record.valid_of_field (Shape.decode_get hasField_checkpoint rfl hr)
  have hpending := Record.valid_of_nullable (Shape.decode_get hasField_pendingCheckpoint rfl hr)
  unfold Draft.finish at hfinish
  split at hfinish
  · cases hfinish
  obtain rfl := Except.ok.inj hfinish
  exact ⟨Record.valid_getD hcheckpoint, hpending⟩

instance : Record.Lawful Lease := ⟨Valid, plain_encode, decoder_encode, valid_of_decoder⟩

end Lease

/-! ### Shards -/

namespace ShardInfo

/-- The checkpoint of the shard is valid. -/
structure Valid (s : ShardInfo) : Prop where
  checkpoint : s.checkpoint.Valid

/-- The shard with every field read that is written. -/
def Draft.of (s : ShardInfo) : Draft :=
  ⟨some s.shardId, s.concurrencyToken.map some, some s.parents, some s.checkpoint⟩

@[simp] theorem finish_of (s : ShardInfo) : (Draft.of s).finish = .ok s := by
  simp only [Draft.finish, Draft.of, join_map_some, Option.getD_some]

theorem decode_encode (o : Origin) {s : ShardInfo} (hs : s.Valid) :
    shape.decode o (encode s).draft = .ok (Draft.of s) := by
  refine Shape.decode_object ?_
  simp only [List.cons_append, List.nil_append]
  calc shape.readFields o ⟨none, none, none, none⟩ (Value.fieldDrafts _)
    _ = shape.readFields o ⟨some s.shardId, none, none, none⟩ (Value.fieldDrafts _) :=
      Shape.readFields_of rfl rfl (Record.idDecoder_text s.shardId) rfl
    _ = shape.readFields o ⟨some s.shardId, s.concurrencyToken.map some, none, none⟩
          (Value.fieldDrafts _) :=
      Shape.readFields_optional rfl rfl (fun a _ => Record.nullable_string a)
        (by cases s.concurrencyToken <;> rfl)
    _ = shape.readFields o ⟨some s.shardId, s.concurrencyToken.map some, some s.parents, none⟩
          (Value.fieldDrafts _) :=
      Shape.readFields_of rfl rfl (Record.parentsDecoder_encodeParents s.parents) rfl
    _ = shape.readFields o (Draft.of s) (Value.fieldDrafts []) :=
      Shape.readFields_of rfl rfl (Record.checkpointDecoder_text hs.checkpoint) rfl
    _ = .ok (Draft.of s) := rfl

theorem decoder_encode (o : Origin) {s : ShardInfo} (hs : s.Valid) :
    decoder o (encode s).draft = .ok s := by
  rw [decoder, decode_encode o hs]
  exact finish_of s

theorem plain_encode (s : ShardInfo) : Plain (encode s) := by
  refine Plain.object fun f hf => ?_
  simp only [List.mem_append, List.mem_cons, List.not_mem_nil, or_false] at hf
  rcases hf with (rfl | hf) | rfl | rfl
  · exact Plain.string _
  · exact plain_optionalField Plain.string f hf
  · exact Record.plain_encodeParents _
  · exact Plain.string _

theorem hasField_shardId : HasField shape.fields "shard_id" 0 Draft.shardId
    (fun x d => { d with shardId := some x }) Record.idDecoder :=
  ⟨rfl, by decide, fun _ _ => rfl, by simp [shape]⟩

theorem hasField_parents : HasField shape.fields "parent_shard_ids" 2 Draft.parents
    (fun x d => { d with parents := some x }) Record.parentsDecoder :=
  ⟨rfl, by decide, fun _ _ => rfl, by simp [shape]⟩

theorem hasField_checkpoint : HasField shape.fields "checkpoint" 3 Draft.checkpoint
    (fun x d => { d with checkpoint := some x }) Record.checkpointDecoder :=
  ⟨rfl, by decide, fun _ _ => rfl, by simp [shape]⟩

theorem valid_of_decoder {o : Origin} {d : Json.Draft} {s : ShardInfo} (h : decoder o d = .ok s) :
    s.Valid := by
  obtain ⟨r, hr, hfinish⟩ := ok_of_bind h
  have hcheckpoint := Record.valid_of_field (Shape.decode_get hasField_checkpoint rfl hr)
  unfold Draft.finish at hfinish
  split at hfinish
  · cases hfinish
  obtain rfl := Except.ok.inj hfinish
  exact ⟨Record.valid_getD hcheckpoint⟩

instance : Record.Lawful ShardInfo := ⟨Valid, plain_encode, decoder_encode, valid_of_decoder⟩

end ShardInfo

end LeaseOrder
