/-
Every record that can come about is well formed.

A record is read from a text or made new, and then changed in any of the ways there are.  Each
step says which parents it gives to the record.  The run over the steps keeps two things, that
the parents of the record are the IDs it was given, and that its checkpoint is one that was read
or was put there; what the parents and the ID are by their types, valid and in ascending order,
needs no step.  Reading is a step like the others: the ID and the parents of what is read are
the strings that stand in the text for them, so a text that holds a wrong one is not read at all.

A checkpoint that is put there is not checked.  What keeps a record from being read back from its
text is a checkpoint that has not passed the check, and nothing else.
-/
import LeaseOrder.Proofs.Checkpoint
import LeaseOrder.Proofs.Json.Decode
import LeaseOrder.Proofs.ParentSet
import LeaseOrder.Proofs.Record

namespace LeaseOrder

open Json

/-! ### What is read for an ID and for parents -/

namespace ShardId

variable {s : String} {id : ShardId}

theorem text_of_ofString (h : ofString s = .ok id) : id.text = s := by
  unfold ofString at h
  split at h
  · cases h
  split at h
  · cases h
  split at h
  · cases h
  · exact congrArg text (Except.ok.inj h).symm

/-- What passes the check is what is valid. -/
theorem exists_ofString_iff : (∃ id, ofString s = .ok id) ↔ Valid s := by
  refine ⟨?_, ?_⟩
  · rintro ⟨id, h⟩
    exact text_of_ofString h ▸ id.valid
  · intro h
    exact ⟨⟨s, h⟩, ofString_text ⟨s, h⟩⟩

end ShardId

/-- The texts of the strings in an array. -/
def Json.Draft.texts : Draft → List String
  | .array items _ => items.filterMap Draft.text?
  | _ => []

/-- The texts that stand in a draft for the parents of its record. -/
def Json.Draft.parentTexts (d : Draft) (place : Nat) : List String :=
  ((d.field? "parent_shard_ids" place).map Draft.texts).getD []

namespace Record

variable {o : Origin} {d : Draft}

theorem text?_of_idDecoder {id : ShardId} (h : idDecoder o d = .ok id) :
    d.text? = some id.text := by
  obtain ⟨s, hs, hid⟩ := exists_text_of_checked h
  rw [hs, ShardId.text_of_ofString hid]

theorem filterMap_text?_of_forall₂ {items : List Draft} {ids : List ShardId}
    (h : List.Forall₂ (fun d id => idDecoder o d = .ok id) items ids) :
    items.filterMap Draft.text? = ids.map ShardId.text := by
  induction h with
  | nil => rfl
  | cons hid _ ih => rw [List.filterMap_cons_some (text?_of_idDecoder hid), ih, List.map_cons]

theorem mem_texts_of_parentsDecoder {s : ParentSet} (h : parentsDecoder o d = .ok s) {t : String} :
    t ∈ s.texts ↔ t ∈ d.texts := by
  obtain ⟨ids, hids, rfl⟩ := ok_of_map h
  cases d with
  | array items closed =>
    obtain ⟨xs, hxs, hids⟩ := ok_of_bind hids
    obtain rfl : xs = ids := by
      cases closed with
      | true => exact Except.ok.inj hids
      | false => cases hids
    rw [ParentSet.mem_texts_ofList, Draft.texts,
      filterMap_text?_of_forall₂ (forall₂_of_mapM hxs)]
  | broken => cases hids
  | null => cases hids
  | bool b => cases hids
  | number n => cases hids
  | string s => cases hids
  | object fields closed => cases hids

/-- What an optional set of parents holds, if it is what was read for the parents. -/
theorem mem_texts_getD {x : Option ParentSet} {place : Nat}
    (h : x.map Except.ok = (d.field? "parent_shard_ids" place).map (parentsDecoder o))
    {t : String} : t ∈ (x.getD ∅).texts ↔ t ∈ d.parentTexts place := by
  unfold Draft.parentTexts
  cases hfield : d.field? "parent_shard_ids" place with
  | none =>
    rw [hfield] at h
    obtain rfl : x = none := by simpa using h
    exact Iff.rfl
  | some field =>
    rw [hfield] at h
    obtain ⟨s, rfl, hs⟩ := Option.map_eq_some_iff.mp h
    exact mem_texts_of_parentsDecoder hs.symm

/-- The ID of a record, if it is what was read for the ID. -/
theorem text?_of_field {id : ShardId} {name : String} {place : Nat}
    (h : some (Except.ok id) = (d.field? name place).map (idDecoder o)) :
    (d.field? name place).bind Draft.text? = some id.text := by
  obtain ⟨field, hfield, hid⟩ := Option.map_eq_some_iff.mp h.symm
  rw [hfield]
  exact text?_of_idDecoder hid

end Record

namespace Lease

/-- The ID and the parents of a lease are what stands for them in its text. -/
theorem read_fields {s : String} {l : Lease} (h : Record.ofText s = .ok l) :
    ((Reading.ofString s).draft.field? "lease_key" 0).bind Draft.text? = some l.key.text ∧
      ∀ t, t ∈ l.parents.texts ↔ t ∈ (Reading.ofString s).draft.parentTexts 6 := by
  obtain ⟨r, hr, hfinish⟩ := ok_of_bind (Record.decoder_of_ofText h)
  have hkey := Shape.decode_get hasField_key rfl hr
  have hparents := Shape.decode_get hasField_parents rfl hr
  unfold Draft.finish at hfinish
  split at hfinish
  · cases hfinish
  rename_i key hsome
  obtain rfl := Except.ok.inj hfinish
  rw [hsome] at hkey
  exact ⟨Record.text?_of_field hkey, fun t => Record.mem_texts_getD hparents⟩

end Lease

namespace ShardInfo

/-- The ID and the parents of a shard are what stands for them in its text. -/
theorem read_fields {s : String} {x : ShardInfo} (h : Record.ofText s = .ok x) :
    ((Reading.ofString s).draft.field? "shard_id" 0).bind Draft.text? = some x.shardId.text ∧
      ∀ t, t ∈ x.parents.texts ↔ t ∈ (Reading.ofString s).draft.parentTexts 2 := by
  obtain ⟨r, hr, hfinish⟩ := ok_of_bind (Record.decoder_of_ofText h)
  have hid := Shape.decode_get hasField_shardId rfl hr
  have hparents := Shape.decode_get hasField_parents rfl hr
  unfold Draft.finish at hfinish
  split at hfinish
  · cases hfinish
  rename_i id hsome
  obtain rfl := Except.ok.inj hfinish
  rw [hsome] at hid
  exact ⟨Record.text?_of_field hid, fun t => Record.mem_texts_getD hparents⟩

end ShardInfo

/-! ### Records that have come about -/

/-- The leases that can come about, where these checkpoints may be put into them, with the texts
    that they were given for parents. -/
inductive Lease.Reached (allowed : Checkpoint → Prop) : Lease → List String → Prop where
  | read {s : String} {l : Lease} (h : Record.ofText s = .ok l) :
    Reached allowed l ((Reading.ofString s).draft.parentTexts 6)
  | new (key : ShardId) : Reached allowed (.new key) []
  | withParents {l : Lease} {given : List String} (h : Reached allowed l given)
    (ids : List ShardId) : Reached allowed (l.withParents ids) (ids.map ShardId.text)
  | withCheckpoint {l : Lease} {given : List String} (h : Reached allowed l given)
    {c : Checkpoint} (hc : allowed c) : Reached allowed (l.withCheckpoint c) given

/-- The shards that can come about, where these checkpoints may be put into them, with the texts
    that they were given for parents. -/
inductive ShardInfo.Reached (allowed : Checkpoint → Prop) : ShardInfo → List String → Prop where
  | read {s : String} {x : ShardInfo} (h : Record.ofText s = .ok x) :
    Reached allowed x ((Reading.ofString s).draft.parentTexts 2)
  | new (id : ShardId) : Reached allowed (.new id) []
  | withParents {x : ShardInfo} {given : List String} (h : Reached allowed x given)
    (ids : List ShardId) : Reached allowed (x.withParents ids) (ids.map ShardId.text)
  | withCheckpoint {x : ShardInfo} {given : List String} (h : Reached allowed x given)
    {c : Checkpoint} (hc : allowed c) : Reached allowed (x.withCheckpoint c) given
  | addParent {x : ShardInfo} {given : List String} (h : Reached allowed x given) (id : ShardId) :
    Reached allowed (x.addParent id).2 (given ++ [id.text])

section

variable {allowed : Checkpoint → Prop} {given : List String}

theorem Lease.Reached.mem_parents {l : Lease} (h : Reached allowed l given) {t : String} :
    t ∈ l.parents.texts ↔ t ∈ given := by
  induction h with
  | read h => exact (read_fields h).2 t
  | new key => exact Iff.rfl
  | withParents _ ids => exact ParentSet.mem_texts_ofList
  | withCheckpoint _ _ ih => exact ih

theorem ShardInfo.Reached.mem_parents {x : ShardInfo} (h : Reached allowed x given) {t : String} :
    t ∈ x.parents.texts ↔ t ∈ given := by
  induction h with
  | read h => exact (read_fields h).2 t
  | new id => exact Iff.rfl
  | withParents _ ids => exact ParentSet.mem_texts_ofList
  | withCheckpoint _ _ ih => exact ih
  | addParent _ id ih =>
    rw [List.mem_append, List.mem_singleton, ← ih]
    exact ParentSet.mem_texts_insert

theorem Lease.Reached.valid_pending {l : Lease} (h : Reached allowed l given) :
    ∀ c ∈ l.pendingCheckpoint, c.Valid := by
  induction h with
  | read h => exact (Record.valid_of_ofText h).pendingCheckpoint
  | new key => simp [Lease.new]
  | withParents _ ids ih => exact ih
  | withCheckpoint _ _ ih => exact ih

theorem Lease.Reached.valid_checkpoint {l : Lease} (h : Reached allowed l given)
    (hallowed : ∀ c, allowed c → c.Valid) : l.checkpoint.Valid := by
  induction h with
  | read h => exact (Record.valid_of_ofText h).checkpoint
  | new key => trivial
  | withParents _ ids ih => exact ih
  | withCheckpoint _ hc _ => exact hallowed _ hc

theorem ShardInfo.Reached.valid_checkpoint {x : ShardInfo} (h : Reached allowed x given)
    (hallowed : ∀ c, allowed c → c.Valid) : x.checkpoint.Valid := by
  induction h with
  | read h => exact (Record.valid_of_ofText h).checkpoint
  | new id => trivial
  | withParents _ ids ih => exact ih
  | withCheckpoint _ hc _ => exact hallowed _ hc
  | addParent _ id ih => exact ih

theorem Lease.Reached.ofText_text_iff {l : Lease} (h : Reached allowed l given) :
    Record.ofText (Record.text l) = .ok l ↔ l.checkpoint.Valid :=
  Record.ofText_text_iff.trans ⟨Valid.checkpoint, fun hc => ⟨hc, h.valid_pending⟩⟩

theorem ShardInfo.ofText_text_iff {x : ShardInfo} :
    Record.ofText (Record.text x) = .ok x ↔ x.checkpoint.Valid :=
  Record.ofText_text_iff.trans ⟨Valid.checkpoint, fun hc => ⟨hc⟩⟩

end

/-! ### Well-formed records -/

/-- What a record has to be, with its checkpoint and the texts that it was given for parents. -/
structure Item.WellFormed (x : Item) (c : Checkpoint) (given : List String) : Prop where
  id_valid : ShardId.Valid x.id
  parents_valid : ∀ p ∈ x.parents, ShardId.Valid p
  nodup : x.parents.Nodup
  ascending : x.parents.Pairwise fun p q => Text.encode p < Text.encode q
  mem_parents : ∀ p, p ∈ x.parents ↔ p ∈ given
  completed_iff : x.completed ↔ c = .shardEnd

theorem Item.wellFormed {id : ShardId} {parents : ParentSet} {c : Checkpoint}
    {given : List String} (h : ∀ t, t ∈ parents.texts ↔ t ∈ given) :
    WellFormed ⟨id.text, parents.texts, c.isShardEnd⟩ c given where
  id_valid := id.valid
  parents_valid _ hp := ParentSet.valid_of_mem_texts hp
  nodup := parents.nodup_texts
  ascending := parents.pairwise_texts
  mem_parents := h
  completed_iff := by cases c <;> simp [Checkpoint.isShardEnd]

/-- **Every lease and every shard that can come about is well formed, and is read back from its
    text unless a checkpoint has been put into it that is not valid.**  Its ID is the string that
    stands for it in the text, and its parents are the IDs it was given, each of them once and in
    ascending order.  Adding a parent tells whether the parent is new, and adds nothing else.
    Where all checkpoints that are put there can be made, the checkpoint is valid. -/
theorem Record.reached_wellFormed :
    (∀ s, (∃ id, ShardId.ofString s = .ok id) ↔ ShardId.Valid s) ∧
      (∀ allowed l given, Lease.Reached allowed l given →
        (Prioritizable.item l).WellFormed l.checkpoint given ∧
          (∀ c ∈ l.pendingCheckpoint, c.Valid) ∧
          ((∀ c, allowed c → c.Made) → l.checkpoint.Valid) ∧
          (ofText (text l) = .ok l ↔ l.checkpoint.Valid)) ∧
      (∀ allowed x given, ShardInfo.Reached allowed x given →
        (Prioritizable.item x).WellFormed x.checkpoint given ∧
          ((∀ c, allowed c → c.Made) → x.checkpoint.Valid) ∧
          (ofText (text x) = .ok x ↔ x.checkpoint.Valid)) ∧
      (∀ (x : ShardInfo) (id : ShardId),
        ((x.addParent id).1 ↔ id.text ∉ (Prioritizable.item x).parents) ∧
          ∀ t, t ∈ (Prioritizable.item (x.addParent id).2).parents ↔
            t ∈ (Prioritizable.item x).parents ∨ t = id.text) ∧
      (∀ s (l : Lease), ofText s = .ok l →
        ((Reading.ofString s).draft.field? "lease_key" 0).bind Draft.text? =
          some (Prioritizable.item l).id) ∧
      ∀ s (x : ShardInfo), ofText s = .ok x →
        ((Reading.ofString s).draft.field? "shard_id" 0).bind Draft.text? =
          some (Prioritizable.item x).id := by
  simp only [Checkpoint.made_iff]
  refine ⟨?_, ?_, ?_, ?_, ?_, ?_⟩
  · intro s
    exact ShardId.exists_ofString_iff
  · intro allowed l given h
    exact ⟨Item.wellFormed fun _ => h.mem_parents, h.valid_pending, h.valid_checkpoint,
      h.ofText_text_iff⟩
  · intro allowed x given h
    exact ⟨Item.wellFormed fun _ => h.mem_parents, h.valid_checkpoint, ShardInfo.ofText_text_iff⟩
  · intro x id
    refine ⟨?_, fun t => ParentSet.mem_texts_insert⟩
    show decide (id ∉ x.parents) = true ↔ id.text ∉ x.parents.texts
    rw [decide_eq_true_iff, ParentSet.mem_texts_iff]
  · intro s l h
    exact (Lease.read_fields h).1
  · intro s x h
    exact (ShardInfo.read_fields h).1

/-- A lease in array form that lists a parent twice, and is moved on to a position. -/
theorem Record.reached_wellFormed_repeated :
    ∃ l : Lease, ofText "[\"s\",null,0,\"LATEST\",null,0,[\"b\",\"a\",\"b\"]]" = .ok l ∧
      l.parents.texts = ["a", "b"] ∧
      ∃ moved : Lease, moved = l.withCheckpoint (.sequence ⟨"007"⟩ 5) ∧
        (Prioritizable.item moved).WellFormed moved.checkpoint ["b", "a", "b"] ∧
        ofText (text moved) = .ok moved := by
  let s := "[\"s\",null,0,\"LATEST\",null,0,[\"b\",\"a\",\"b\"]]"
  have hread : ((ofText s : Except Failure Lease).map fun l => l.parents.texts).toOption =
      some ["a", "b"] := by decide +kernel
  have hgiven : (Reading.ofString s).draft.parentTexts 6 = ["b", "a", "b"] := by decide +kernel
  cases hl : (ofText s : Except Failure Lease) with
  | error e =>
    rw [hl] at hread
    cases hread
  | ok l =>
    rw [hl] at hread
    have hmade : Checkpoint.Made (.sequence ⟨"007"⟩ 5) := .atSequence (s := "007") rfl
    have hreached : Lease.Reached Checkpoint.Made (l.withCheckpoint (.sequence ⟨"007"⟩ 5))
        ["b", "a", "b"] := hgiven ▸ (Lease.Reached.read hl).withCheckpoint hmade
    obtain ⟨-, hleases, -⟩ := reached_wellFormed
    obtain ⟨hwellFormed, -, hvalid, hback⟩ := hleases _ _ _ hreached
    exact ⟨l, rfl, Option.some.inj hread, _, rfl, hwellFormed, hback.mpr (hvalid fun _ h => h)⟩

theorem ShardId.valid_letter : Valid "a" := ShardId.valid_of_all (by decide)

/-- A lease at a position with a letter in its sequence number. -/
def Lease.unchecked : Lease :=
  (Lease.new ⟨"a", ShardId.valid_letter⟩).withCheckpoint (.sequence ⟨"12a"⟩ 0)

/-- Such a lease can come about, since nothing checks what is put into it, and its text is not
    read. -/
theorem Record.not_ofText_unchecked :
    Lease.Reached (fun _ => True) .unchecked [] ∧ ¬ Lease.unchecked.checkpoint.Valid ∧
      text Lease.unchecked = "\x7b\"lease_key\":\"a\",\"lease_counter\":0,\"checkpoint\":\"12a\"," ++
        "\"owner_switches_since_checkpoint\":0,\"parent_shard_ids\":[]\x7d" ∧
      (ofText (text Lease.unchecked) : Except Failure Lease) =
        .error (.data (.badCheckpoint (.invalidSequence "12a"))) := by
  have hletter : ¬ Lease.unchecked.checkpoint.Valid := by
    intro h
    exact absurd (SequenceNumber.Valid.isDigit h 'a' (by decide)) (by decide)
  exact ⟨(Lease.Reached.new _).withCheckpoint trivial, hletter, by decide +kernel,
    by decide +kernel⟩

end LeaseOrder
