/-
The ways in which an ID comes in.

An ID is made from a text as it stands, from a text with blanks around it, or from the string
that stands for it in a record.  All three pass through the same check, and what differs is only
whether the blanks are taken off first.  The check has three reasons to refuse a text; of those
that apply the first one is given, so one character too many hides a character that is not
allowed.
-/
import LeaseOrder.Proofs.WellFormed

namespace LeaseOrder

open Json

namespace Text

/-! ### Texts without blanks around them -/

/-- A text that neither begins nor ends with a blank. -/
structure Trimmed (s : String) : Prop where
  first : ∀ c ∈ s.toList.head?, ¬ isBlank c
  last : ∀ c ∈ s.toList.getLast?, ¬ isBlank c

theorem trim_append {u t v : String} (hu : isAllBlank u) (hv : isAllBlank v) (ht : Trimmed t) :
    trim (u ++ t ++ v) = t := by
  rw [trim, String.toList_append, String.toList_append,
    trimChars_ends (List.all_eq_true.mp hu) (List.all_eq_true.mp hv) ht.first ht.last,
    String.ofList_toList]

theorem trimmed_trim (s : String) : Trimmed (trim s) := by
  have hchars : (trim s).toList = trimChars s.toList := String.toList_ofList
  refine ⟨?_, ?_⟩
  · intro c hc
    rw [hchars] at hc
    have hhead : (s.toList.dropWhile isBlank).head? = some c := by
      rw [dropWhile_eq_trimChars_append, List.head?_append, Option.mem_def.mp hc]
      rfl
    have hnot := List.head?_dropWhile_not isBlank s.toList
    rw [hhead] at hnot
    simpa using hnot
  · intro c hc
    rw [hchars, trimChars, List.getLast?_reverse] at hc
    have hnot := List.head?_dropWhile_not isBlank (s.toList.dropWhile isBlank).reverse
    rw [Option.mem_def.mp hc] at hnot
    simpa using hnot

/-- Every text has blanks around what is left of it when it is trimmed. -/
theorem exists_trimmed (s : String) :
    ∃ u t v, isAllBlank u ∧ isAllBlank v ∧ Trimmed t ∧ s = u ++ t ++ v := by
  obtain ⟨u, v, hu, hv, hs⟩ := exists_blanks s.toList
  refine ⟨String.ofList u, trim s, String.ofList v, ?_, ?_, trimmed_trim s, ?_⟩
  · simpa [isAllBlank] using hu
  · simpa [isAllBlank] using hv
  · rw [← String.toList_inj, hs]
    simp [trim]

end Text

namespace ShardId

variable {s : String} {id : ShardId} {e : IdError}

/-! ### The check -/

theorem isForbidden_eq_false_iff {c : Char} :
    isForbidden c = false ↔ ¬ Text.isBlank c ∧ ¬ Text.isControl c := by
  simp [isForbidden]

theorem valid_iff :
    Valid s ↔ 1 ≤ s.toList.length ∧ s.toList.length ≤ 256 ∧
      ∀ c ∈ s.toList, ¬ Text.isBlank c ∧ ¬ Text.isControl c := by
  simp only [← isForbidden_eq_false_iff]
  refine ⟨?_, ?_⟩
  · intro h
    exact ⟨List.length_pos_iff.mpr h.nonempty, h.length_le, h.allowed⟩
  · rintro ⟨hpos, hle, hall⟩
    exact ⟨List.length_pos_iff.mp hpos, hle, hall⟩

/-- Why a text is refused: the first of the reasons that apply. -/
inductive Refused : String → IdError → Prop
  | empty : Refused "" .empty
  | tooLong {s : String} (h : 256 < s.toList.length) : Refused s (.tooLong s.toList.length)
  /-- The text is not too long, and this is the first of its characters that is not allowed. -/
  | invalidCharacter {s : String} {front back : List Char} {c : Char}
      (hle : s.toList.length ≤ 256) (hs : s.toList = front ++ c :: back)
      (hfront : ∀ x ∈ front, ¬ Text.isBlank x ∧ ¬ Text.isControl x)
      (hc : Text.isBlank c ∨ Text.isControl c) : Refused s (.invalidCharacter s c)

theorem ofString_eq_ok_iff : ofString s = .ok id ↔ Valid s ∧ id.text = s := by
  refine ⟨?_, ?_⟩
  · intro h
    have htext := text_of_ofString h
    exact ⟨htext ▸ id.valid, htext⟩
  · rintro ⟨-, rfl⟩
    simp

theorem ofString_of_refused (h : Refused s e) : ofString s = .error e := by
  cases h with
  | empty => rfl
  | tooLong h =>
    have hne : s.toList ≠ [] := List.length_pos_iff.mp (Nat.zero_lt_of_lt h)
    have hlong : maxLength < s.toList.length := h
    rw [ofString, dif_neg hne, dif_pos hlong]
  | @invalidCharacter s front back c hle hs hfront hc =>
    have hne : s.toList ≠ [] := by simp [hs]
    have hshort : ¬ maxLength < s.toList.length := Nat.not_lt.mpr hle
    have hfind : s.toList.find? isForbidden = some c := by
      rw [List.find?_eq_some_iff_append]
      refine ⟨by simpa [isForbidden] using hc, front, back, hs, ?_⟩
      intro x hx
      simpa using isForbidden_eq_false_iff.mpr (hfront x hx)
    rw [ofString, dif_neg hne, dif_neg hshort]
    split
    · rename_i c' hc'
      rw [hfind] at hc'
      rw [Option.some.inj hc']
    · rename_i hnone
      rw [hfind] at hnone
      cases hnone

/-- Every text is that of an ID or is refused. -/
theorem valid_or_refused (s : String) : Valid s ∨ ∃ e, Refused s e := by
  by_cases hempty : s.toList = []
  · obtain rfl : s = "" := by rw [← String.toList_inj, hempty]; rfl
    exact .inr ⟨_, .empty⟩
  by_cases hlong : 256 < s.toList.length
  · exact .inr ⟨_, .tooLong hlong⟩
  have hle : s.toList.length ≤ 256 := Nat.le_of_not_lt hlong
  cases hfind : s.toList.find? isForbidden with
  | none =>
    refine .inl ⟨hempty, hle, ?_⟩
    intro c hc
    simpa using List.find?_eq_none.mp hfind c hc
  | some c =>
    obtain ⟨hc, front, back, hs, hfront⟩ := List.find?_eq_some_iff_append.mp hfind
    refine .inr ⟨_, .invalidCharacter hle hs ?_ (by simpa [isForbidden] using hc)⟩
    intro x hx
    exact isForbidden_eq_false_iff.mp (by simpa using hfront x hx)

theorem ofString_eq_error_iff : ofString s = .error e ↔ Refused s e := by
  have htold : (∃ id : ShardId, id.text = s) ∨ ∃ e, Refused s e :=
    (valid_or_refused s).imp_left fun hvalid => ⟨⟨s, hvalid⟩, rfl⟩
  refine eq_error_iff_of_told ?_ (fun _ => ofString_of_refused) htold e
  rintro id rfl
  simp

theorem parse_append {u t v : String} (hu : Text.isAllBlank u) (hv : Text.isAllBlank v)
    (ht : Text.Trimmed t) : parse (u ++ t ++ v) = ofString t := by
  rw [parse, Text.trim_append hu hv ht]

/-- An ID has no blank in it, so none at its ends. -/
theorem Valid.trimmed (h : Valid s) : Text.Trimmed s where
  first c hc := (isForbidden_eq_false_iff.mp (h.allowed c (List.mem_of_mem_head? hc))).1
  last c hc := (isForbidden_eq_false_iff.mp (h.allowed c (List.mem_of_getLast? hc))).1

end ShardId

/-! ### IDs in records -/

/-- What is read from an object with one field. -/
theorem Json.Shape.decode_single {ρ α : Type} {s : Shape ρ} {o : Origin} {name : String}
    {get : ρ → Option α} {put : α → ρ → ρ} {dec : Decoder α} {d : Draft}
    (hf : (s.fields.find? fun f => f.name == name) = some (.of name get put dec))
    (hnone : get s.unread = none) :
    s.decode o (.object [(.text name, d)] true) = (dec o d).map fun a => put a s.unread := by
  rw [decode, readFields, hf]
  simp only [Field.of, hnone, Option.isSome_none, Bool.false_eq_true, if_false, if_true]
  cases dec o d <;> rfl

namespace Record

variable {o : Origin} {d : Draft}

theorem exists_text_of_field {id : ShardId} {name : String} {place : Nat}
    (h : some (Except.ok id) = (d.field? name place).map (idDecoder o)) :
    ∃ s, (d.field? name place).bind Draft.text? = some s ∧ ShardId.ofString s = .ok id := by
  obtain ⟨field, hfield, hid⟩ := Option.map_eq_some_iff.mp h.symm
  obtain ⟨s, hs, hread⟩ := exists_text_of_checked hid
  exact ⟨s, by rw [hfield, Option.bind_some, hs], hread⟩

theorem exists_text_of_lease {l : Lease} (h : decoder o d = .ok l) :
    ∃ s, (d.field? "lease_key" 0).bind Draft.text? = some s ∧ ShardId.ofString s = .ok l.key := by
  obtain ⟨r, hr, hfinish⟩ := ok_of_bind h
  have hkey := Shape.decode_get Lease.hasField_key rfl hr
  unfold Lease.Draft.finish at hfinish
  split at hfinish
  · cases hfinish
  rename_i key hsome
  obtain rfl := Except.ok.inj hfinish
  rw [hsome] at hkey
  exact exists_text_of_field hkey

theorem exists_text_of_shard {x : ShardInfo} (h : decoder o d = .ok x) :
    ∃ s, (d.field? "shard_id" 0).bind Draft.text? = some s ∧
      ShardId.ofString s = .ok x.shardId := by
  obtain ⟨r, hr, hfinish⟩ := ok_of_bind h
  have hid := Shape.decode_get ShardInfo.hasField_shardId rfl hr
  unfold ShardInfo.Draft.finish at hfinish
  split at hfinish
  · cases hfinish
  rename_i id hsome
  obtain rfl := Except.ok.inj hfinish
  rw [hsome] at hid
  exact exists_text_of_field hid

/-- The text of a record that has an ID and nothing else. -/
def idOnly (name s : String) : String :=
  (Value.object [(name, .string s)]).text

theorem ofText_idOnly {α : Type} [Record α] {name s : String} :
    (ofText (idOnly name s) : Except Failure α) =
      decoder .text (.object [(.text name, .string (.text s))] true) := by
  have hplain : Plain (Value.object [(name, .string s)]) := by
    refine .object fun f hf => ?_
    rw [List.mem_singleton.mp hf]
    exact .string s
  rw [ofText, idOnly, decodeText, Reading.ofString_text hplain]
  show (do
    let x ← decoder .text (.object [(.text name, .string (.text s))] true)
    Except.ok x : Except Failure α) = _
  cases decoder (α := α) .text (.object [(.text name, .string (.text s))] true) <;> rfl

theorem ofText_keyOnly (s : String) :
    (ofText (idOnly "lease_key" s) : Except Failure Lease) =
      ((ShardId.ofString s).map Lease.new).mapError fun e => .data (.badId e) := by
  rw [ofText_idOnly]
  show Lease.shape.decode _ _ >>= Lease.Draft.finish = _
  rw [Shape.decode_single rfl rfl]
  show ((ShardId.ofString s).mapError _).map _ >>= _ = _
  cases ShardId.ofString s <;> rfl

theorem ofText_shardIdOnly (s : String) :
    (ofText (idOnly "shard_id" s) : Except Failure ShardInfo) =
      ((ShardId.ofString s).map ShardInfo.new).mapError fun e => .data (.badId e) := by
  rw [ofText_idOnly]
  show ShardInfo.shape.decode _ _ >>= ShardInfo.Draft.finish = _
  rw [Shape.decode_single rfl rfl]
  show ((ShardId.ofString s).mapError _).map _ >>= _ = _
  cases ShardId.ofString s <;> rfl

end Record

/-- **An ID is made from exactly the texts that are valid, whichever way they come in.**  A text that
    is refused is refused for the first reason that applies.  Parsing takes off the blanks around
    a text and does nothing else, so that those around an ID do not matter to it; they do matter
    in a record, where the string for the ID is taken as it stands. -/
theorem ShardId.entries_agree :
    (∀ s id, ofString s = .ok id ↔
        (1 ≤ s.toList.length ∧ s.toList.length ≤ 256 ∧
          ∀ c ∈ s.toList, ¬ Text.isBlank c ∧ ¬ Text.isControl c) ∧ id.text = s) ∧
      (∀ s e, ofString s = .error e ↔ Refused s e) ∧
      (∀ s, ∃ u t v, Text.isAllBlank u ∧ Text.isAllBlank v ∧ Text.Trimmed t ∧ s = u ++ t ++ v) ∧
      (∀ u t v, Text.isAllBlank u → Text.isAllBlank v → Text.Trimmed t →
        parse (u ++ t ++ v) = ofString t) ∧
      (∀ u s v id, Text.isAllBlank u → Text.isAllBlank v → ofString s = .ok id →
        parse (u ++ s ++ v) = .ok id) ∧
      (∀ (o : Origin) (d : Draft) (l : Lease), Record.decoder o d = .ok l →
        ∃ s, (d.field? "lease_key" 0).bind Draft.text? = some s ∧ ofString s = .ok l.key) ∧
      (∀ (o : Origin) (d : Draft) (x : ShardInfo), Record.decoder o d = .ok x →
        ∃ s, (d.field? "shard_id" 0).bind Draft.text? = some s ∧ ofString s = .ok x.shardId) ∧
      ∀ s, (Record.ofText (Record.idOnly "lease_key" s) : Except Failure Lease) =
          ((ofString s).map Lease.new).mapError (fun e => .data (.badId e)) ∧
        (Record.ofText (Record.idOnly "shard_id" s) : Except Failure ShardInfo) =
          ((ofString s).map ShardInfo.new).mapError fun e => .data (.badId e) := by
  refine ⟨?_, ?_, ?_, ?_, ?_, ?_, ?_, ?_⟩
  · intro s id
    rw [ofString_eq_ok_iff, valid_iff]
  · intro s e
    exact ofString_eq_error_iff
  · intro s
    exact Text.exists_trimmed s
  · intro u t v hu hv ht
    exact parse_append hu hv ht
  · intro u s v id hu hv h
    have hvalid := (ofString_eq_ok_iff.mp h).1
    rw [parse_append hu hv hvalid.trimmed, h]
  · intro o d l h
    exact Record.exists_text_of_lease h
  · intro o d x h
    exact Record.exists_text_of_shard h
  · intro s
    exact ⟨Record.ofText_keyOnly s, Record.ofText_shardIdOnly s⟩

/-- Blanks around a text, one inside it, and one at the end of the string in a record. -/
theorem ShardId.entries_agree_blanks :
    parse ("\u3000" ++ "a b" ++ "\n") = .error (.invalidCharacter "a b" ' ') ∧
      ∃ id : ShardId, id.text = "é" ∧ parse ("\t" ++ "é" ++ "\u2028") = .ok id ∧
        (∃ l : Lease, Record.ofText (Record.idOnly "lease_key" "é") = .ok l ∧
          ∃ s, ((Reading.ofString (Record.idOnly "lease_key" "é")).draft.field? "lease_key" 0).bind
            Draft.text? = some s ∧ ofString s = .ok l.key) ∧
        (Record.ofText (Record.idOnly "shard_id" "é\n") : Except Failure ShardInfo) =
          .error (.data (.badId (.invalidCharacter "é\n" '\n'))) := by
  obtain ⟨hok, herror, -, hparse, hblanks, hlease, -, hrecord⟩ := entries_agree
  refine ⟨?_, ?_⟩
  · have htrimmed : Text.Trimmed "a b" := {
      first := fun c hc => by
        obtain rfl : 'a' = c := Option.some.inj hc
        decide
      last := fun c hc => by
        obtain rfl : 'b' = c := Option.some.inj hc
        decide }
    rw [hparse _ _ _ (by decide) (by decide) htrimmed, herror]
    have hfront : ∀ x ∈ ['a'], ¬ Text.isBlank x ∧ ¬ Text.isControl x :=
      List.forall_mem_singleton.mpr (by decide)
    exact @Refused.invalidCharacter "a b" ['a'] ['b'] ' ' (by decide) rfl hfront (by decide)
  · let id : ShardId := ⟨"é", valid_of_all (by decide)⟩
    have hid : ofString "é" = .ok id := (hok _ _).mpr ⟨valid_iff.mp id.valid, rfl⟩
    have hread : (Record.ofText (Record.idOnly "lease_key" "é") : Except Failure Lease) =
        .ok (.new id) := by
      rw [(hrecord "é").1, hid]
      rfl
    have hrefused : ofString "é\n" = .error (.invalidCharacter "é\n" '\n') := by
      rw [herror]
      have hfront : ∀ x ∈ ['é'], ¬ Text.isBlank x ∧ ¬ Text.isControl x :=
        List.forall_mem_singleton.mpr (by decide)
      exact @Refused.invalidCharacter "é\n" ['é'] [] '\n' (by decide) rfl hfront (by decide)
    refine ⟨id, rfl, hblanks _ _ _ id (by decide) (by decide) hid, ?_, ?_⟩
    · exact ⟨_, hread, hlease _ _ _ (Record.decoder_of_ofText hread)⟩
    · rw [(hrecord "é\n").2, hrefused]
      rfl

end LeaseOrder
