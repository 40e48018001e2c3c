/-
The text of a value is read as that value.

Reading a printed value from a state in which a value is due, inside any brackets, leads
to the state in which the value has been put in its place, and goes on with the rest of
the text.  The proof follows the value; a list of items or of fields is followed with any
number of items or fields already read, which is what the state in between remembers.
Numbers are unsigned words here: records are made of no others.
-/
import LeaseOrder.Proofs.Json.Token

namespace LeaseOrder.Json

/-- All numbers of the value are unsigned words. -/
inductive Plain : Value → Prop
  | null : Plain .null
  | bool (b : Bool) : Plain (.bool b)
  | word (n : UInt64) : Plain (.word n)
  | string (s : String) : Plain (.string s)
  | array {items : List Value} (h : ∀ v ∈ items, Plain v) : Plain (.array items)
  | object {fields : List (String × Value)} (h : ∀ f ∈ fields, Plain f.2) : Plain (.object fields)

namespace Expecting

/-- Reads on through the tokens of a text. -/
def readOn (e : Expecting) (cs : List Char) : Expecting :=
  (tokens cs).foldl step e

/-- A value is due, to be put inside these brackets. -/
def Due (e : Expecting) (outer : List Bracket) : Prop :=
  ∀ t, t ≠ .closeArray → e.step t = startValue outer t

/-- A key is due, after these fields. -/
def DueKey (e : Expecting) (fields : List (Unescaped × Draft)) (outer : List Bracket) : Prop :=
  ∀ k, e.step (.string k) = .colon fields k outer

/-- Wherever a value is due, this one is read and put in its place. -/
def Reads (v : Value) : Prop :=
  ∀ {e : Expecting} {outer : List Bracket} {rest : List Char}, Due e outer → Stops rest →
    readOn e (v.chars ++ rest) = readOn (filled v.draft outer) rest

variable {e : Expecting} {outer : List Bracket} {rest : List Char}

theorem due_value : Due (.value outer) outer :=
  fun _ _ => rfl

theorem due_firstItem : Due (.firstItem outer) (.array [] :: outer) := by
  intro t ht
  cases t with
  | closeArray => exact absurd rfl ht
  | _ => rfl

theorem dueKey_firstKey : DueKey (.firstKey outer) [] outer :=
  fun _ => rfl

theorem dueKey_key {fields : List (Unescaped × Draft)} : DueKey (.key fields outer) fields outer :=
  fun _ => rfl

theorem readOn_of_tokens {cs : List Char} {t : Token} (h : tokens cs = t :: tokens rest) :
    readOn e cs = readOn (e.step t) rest := by
  rw [readOn, h, List.foldl_cons, readOn]

theorem readOn_punctuation {c : Char} {t : Token} (h : punctuation? c = some t) :
    readOn e (c :: rest) = readOn (e.step t) rest :=
  readOn_of_tokens (tokens_punctuation h rest)

theorem stops_of_punctuation {c : Char} {t : Token} (h : punctuation? c = some t) :
    Stops (c :: rest) := by
  intro d hd
  obtain rfl : c = d := by simpa using hd
  have hne : ∀ x : Char, punctuation? x = none → c ≠ x := by
    rintro x hx rfl
    rw [hx] at h
    cases h
  refine ⟨fun hdigit => ?_, hne _ rfl, hne _ rfl, hne _ rfl⟩
  rw [punctuation?_of_isDigit hdigit] at h
  cases h

/-! ### Arrays -/

theorem readOn_itemChars {vs : List Value} (hvs : ∀ v ∈ vs, Reads v) (hne : vs ≠ [])
    {items : List Draft} (he : Due e (.array items :: outer)) :
    readOn e (Value.itemChars vs ++ ']' :: rest) =
      readOn (filled (.array (items.reverse ++ Value.drafts vs) true) outer) rest := by
  induction vs generalizing e items with
  | nil => exact absurd rfl hne
  | cons v vs ih =>
    have hv : Reads v := hvs v List.mem_cons_self
    cases vs with
    | nil =>
      rw [Value.itemChars, hv he (stops_of_punctuation rfl), readOn_punctuation rfl]
      simp [filled, step, Value.drafts]
    | cons w vs =>
      have htail : ∀ u ∈ w :: vs, Reads u := fun u hu => hvs u (List.mem_cons_of_mem _ hu)
      rw [Value.itemChars, List.append_assoc, List.cons_append, hv he (stops_of_punctuation rfl),
        readOn_punctuation rfl, filled, step, ih htail (by simp) due_value]
      · simp [Value.drafts]
      · simp

theorem reads_array {items : List Value} (h : ∀ v ∈ items, Reads v) : Reads (.array items) := by
  intro e outer rest he _
  rw [Value.chars, List.append_assoc, List.cons_append, readOn_punctuation rfl, he _ (by simp)]
  cases items with
  | nil =>
    show readOn (.firstItem outer) (']' :: rest) = readOn (filled (.array [] true) outer) rest
    exact readOn_punctuation (t := .closeArray) rfl
  | cons v vs => exact readOn_itemChars h (by simp) due_firstItem

/-! ### Objects -/

theorem readOn_field {k : String} {v : Value} (hv : Reads v) (hrest : Stops rest)
    {fields : List (Unescaped × Draft)} (he : DueKey e fields outer) :
    readOn e (stringChars k ++ ':' :: (v.chars ++ rest)) =
      readOn (.fieldEnd ((.text k, v.draft) :: fields) outer) rest := by
  rw [readOn_of_tokens (tokens_stringChars k _), he, readOn_punctuation rfl]
  exact hv due_value hrest

theorem readOn_fieldChars {fs : List (String × Value)} (hfs : ∀ f ∈ fs, Reads f.2) (hne : fs ≠ [])
    {fields : List (Unescaped × Draft)} (he : DueKey e fields outer) :
    readOn e (Value.fieldChars fs ++ '\x7d' :: rest) =
      readOn (filled (.object (fields.reverse ++ Value.fieldDrafts fs) true) outer) rest := by
  induction fs generalizing e fields with
  | nil => exact absurd rfl hne
  | cons f fs ih =>
    have hv : Reads f.2 := hfs f List.mem_cons_self
    cases fs with
    | nil =>
      rw [Value.fieldChars, List.append_assoc, List.cons_append,
        readOn_field hv (stops_of_punctuation rfl) he, readOn_punctuation rfl]
      simp [step, Value.fieldDrafts]
    | cons g fs =>
      have htail : ∀ u ∈ g :: fs, Reads u.2 := fun u hu => hfs u (List.mem_cons_of_mem _ hu)
      rw [Value.fieldChars, List.append_assoc, List.append_assoc, List.cons_append,
        List.cons_append, readOn_field hv (stops_of_punctuation rfl) he, readOn_punctuation rfl,
        step, ih htail (by simp) dueKey_key]
      · simp [Value.fieldDrafts]
      · simp

theorem reads_object {fields : List (String × Value)} (h : ∀ f ∈ fields, Reads f.2) :
    Reads (.object fields) := by
  intro e outer rest he _
  rw [Value.chars, List.append_assoc, List.cons_append, readOn_punctuation rfl, he _ (by simp)]
  cases fields with
  | nil =>
    show readOn (.firstKey outer) ('\x7d' :: rest) = readOn (filled (.object [] true) outer) rest
    exact readOn_punctuation (t := .closeObject) rfl
  | cons f fs => exact readOn_fieldChars h (by simp) dueKey_firstKey

/-! ### Whole values -/

theorem reads_of_token {v : Value} {t : Token} (ht : t ≠ .closeArray)
    (hv : ∀ outer, startValue outer t = filled v.draft outer)
    (h : ∀ {rest}, Stops rest → tokens (v.chars ++ rest) = t :: tokens rest) : Reads v := by
  intro e outer rest he hrest
  rw [readOn_of_tokens (h hrest), he t ht, hv]

theorem reads_of_plain {v : Value} (h : Plain v) : Reads v := by
  induction h with
  | null => exact reads_of_token (by simp) (fun _ => rfl) fun _ => tokens_null _
  | bool b =>
    cases b with
    | true => exact reads_of_token (by simp) (fun _ => rfl) fun _ => tokens_true _
    | false => exact reads_of_token (by simp) (fun _ => rfl) fun _ => tokens_false _
  | word n =>
    exact reads_of_token (v := .word n) (by simp) (fun _ => rfl) (tokens_unsigned n)
  | string s => exact reads_of_token (by simp) (fun _ => rfl) fun _ => tokens_stringChars s _
  | array _ ih => exact reads_array ih
  | object _ ih => exact reads_object ih

end Expecting

theorem Reading.ofString_text {v : Value} (h : Plain v) :
    Reading.ofString v.text = ⟨v.draft, true⟩ := by
  have hstops : Stops [] := by simp [Stops]
  have hend : Expecting.readOn (.value []) v.chars = .nothing v.draft := by
    have hread := Expecting.reads_of_plain h (@Expecting.due_value []) hstops
    rw [List.append_nil] at hread
    rw [hread, Expecting.readOn, tokens_nil]
    rfl
  rw [Reading.ofString, Value.text, String.toList_ofList, Reading.ofTokens]
  unfold Expecting.readOn at hend
  rw [hend]
  rfl

/-! ### No control characters -/

/-- None of the characters is one of the first 32, so none of them ends a line. -/
def Visible (cs : List Char) : Prop :=
  ∀ c ∈ cs, ¬ c.val < 0x20

instance (cs : List Char) : Decidable (Visible cs) :=
  List.decidableBAll (fun c : Char => ¬ c.val < 0x20) cs

theorem visible_cons {c : Char} {cs : List Char} :
    Visible (c :: cs) ↔ ¬ c.val < 0x20 ∧ Visible cs :=
  List.forall_mem_cons

theorem visible_append {cs ds : List Char} : Visible (cs ++ ds) ↔ Visible cs ∧ Visible ds :=
  List.forall_mem_append

theorem visible_hexChar {n : Nat} (h : n < 16) : Visible [Text.hexChar n] := by
  interval_cases n <;> decide

theorem visible_escapeChar (c : Char) : Visible (escapeChar c) := by
  unfold escapeChar
  by_cases hq : c = '"' ∨ c = '\\'
  · rw [if_pos (by simpa using hq)]
    rcases hq with rfl | rfl <;> decide
  rw [if_neg (by simpa using hq)]
  by_cases hc : c.val < 0x20
  · have hn : c.toNat < 0x20 := hc
    have hhex : Visible (['\\', 'u', '0', '0'] ++ ([Text.hexChar (c.toNat / 16)] ++
        [Text.hexChar (c.toNat % 16)])) :=
      visible_append.mpr ⟨by decide, visible_append.mpr
        ⟨visible_hexChar (by omega), visible_hexChar (by omega)⟩⟩
    rw [if_pos hc]
    repeat' split
    all_goals first
      | exact hhex
      | decide
  · rw [if_neg hc]
    repeat' split
    all_goals first
      | exact visible_cons.mpr ⟨hc, by decide⟩
      | decide

theorem visible_stringChars (s : String) : Visible (stringChars s) := by
  have hall : Visible (s.toList.flatMap escapeChar) := by
    intro c hc
    obtain ⟨d, -, hd⟩ := List.mem_flatMap.mp hc
    exact visible_escapeChar d c hd
  exact visible_append.mpr ⟨visible_cons.mpr ⟨by decide, hall⟩, by decide⟩

theorem visible_decimal (n : Nat) : Visible (Text.decimal n).toList := by
  intro c hc hlt
  rw [Text.decimal, String.toList_ofList] at hc
  obtain ⟨hlo, -⟩ := Char.isDigit_iff_toNat.mp (Text.isDigit_of_mem_decimalChars hc)
  exact absurd hlo (Nat.not_le.mpr (Nat.lt_trans hlt (by decide : 0x20 < '0'.toNat)))

theorem visible_itemChars {vs : List Value} (h : ∀ v ∈ vs, Visible v.chars) :
    Visible (Value.itemChars vs) := by
  induction vs with
  | nil => decide
  | cons v vs ih =>
    have hv : Visible v.chars := h v List.mem_cons_self
    have hvs := ih fun w hw => h w (List.mem_cons_of_mem _ hw)
    cases vs with
    | nil => exact hv
    | cons w vs => exact visible_append.mpr ⟨hv, visible_cons.mpr ⟨by decide, hvs⟩⟩

theorem visible_fieldChars {fs : List (String × Value)} (h : ∀ f ∈ fs, Visible f.2.chars) :
    Visible (Value.fieldChars fs) := by
  induction fs with
  | nil => decide
  | cons f fs ih =>
    have hf : Visible (stringChars f.1 ++ ':' :: f.2.chars) :=
      visible_append.mpr ⟨visible_stringChars _,
        visible_cons.mpr ⟨by decide, h f List.mem_cons_self⟩⟩
    have hfs := ih fun g hg => h g (List.mem_cons_of_mem _ hg)
    cases fs with
    | nil => exact hf
    | cons g fs => exact visible_append.mpr ⟨hf, visible_cons.mpr ⟨by decide, hfs⟩⟩

theorem visible_chars {v : Value} (h : Plain v) : Visible v.chars := by
  induction h with
  | null => decide
  | bool b => cases b <;> decide
  | word n => exact visible_decimal n.toNat
  | string s => exact visible_stringChars s
  | array _ ih =>
    exact visible_append.mpr ⟨visible_cons.mpr ⟨by decide, visible_itemChars ih⟩, by decide⟩
  | object _ ih =>
    exact visible_append.mpr ⟨visible_cons.mpr ⟨by decide, visible_fieldChars ih⟩, by decide⟩

end LeaseOrder.Json
