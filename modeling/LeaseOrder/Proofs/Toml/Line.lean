/-
Lines of a TOML document, one after the other.

A line that sets a bare key is read as an entry for that key, and a header as the start of a
table, whatever comes after them.  So a document that is written line by line is read line by
line.
-/
import LeaseOrder.Proofs.Toml.Scalar

namespace LeaseOrder.Toml

variable {key : List Char} {chars : List Char} {v : Node}

/-- The characters up to the end of a line are read as this line. -/
def IsLine (chars : List Char) (line : Line) : Prop :=
  chars ≠ [] ∧ ∀ rest, readLine (chars ++ rest) = some (line, rest)

/-! ### Keys -/

/-- What a key without quotes looks like. -/
structure IsBare (key : List Char) : Prop where
  ne_nil : key ≠ []
  all : ∀ c ∈ key, isBareKey c

theorem IsBare.exists_cons (h : IsBare key) :
    ∃ c cs, key = c :: cs ∧ isBareKey c := by
  obtain ⟨c, cs, hcs⟩ := List.exists_cons_of_ne_nil h.ne_nil
  exact ⟨c, cs, hcs, h.all c (hcs ▸ List.mem_cons_self)⟩

theorem isBlank_eq_false_of_bare {c : Char} (hc : isBareKey c) : isBlank c = false := by
  have hspace : c ≠ ' ' := ne_of_pos hc (by decide)
  have htab : c ≠ '\t' := ne_of_pos hc (by decide)
  simp [isBlank, hspace, htab]

theorem skipBlanks_bare (h : IsBare key) (rest : List Char) :
    skipBlanks (key ++ rest) = key ++ rest := by
  obtain ⟨c, cs, rfl, hc⟩ := h.exists_cons
  rw [skipBlanks, List.cons_append, List.dropWhile_cons_of_neg]
  simp [isBlank_eq_false_of_bare hc]

theorem readKeyPart_bare (h : IsBare key) {rest : List Char}
    (hrest : ∀ c ∈ rest.head?, ¬ isBareKey c) :
    readKeyPart (key ++ rest) = some (.ofList key, rest) := by
  have hword : (key ++ rest).takeWhile isBareKey = key := Text.takeWhile_run h.all hrest
  have hafter : (key ++ rest).dropWhile isBareKey = rest := Text.dropWhile_run h.all hrest
  obtain ⟨c, cs, hcs, hc⟩ := h.exists_cons
  rw [readKeyPart]
  · rw [hword, hafter, if_neg (by simpa using h.ne_nil)]
  · intro r hr
    rw [hcs] at hr
    exact ne_of_pos hc (by decide) (List.cons.inj hr).1
  · intro r hr
    rw [hcs] at hr
    exact ne_of_pos hc (by decide) (List.cons.inj hr).1

/-- A key of one part goes up to a character that is none of a key, no blank and no dot. -/
theorem readKey_bare (h : IsBare key) {c : Char} {rest stop : List Char} (hc : ¬ isBareKey c)
    (hblanks : skipBlanks (c :: rest) = stop) (hstop : ∀ r, stop ≠ '.' :: r) {parts : Nat}
    (hparts : parts ≠ 0) : readKey parts (key ++ c :: rest) = some (([], .ofList key), stop) := by
  obtain ⟨parts, rfl⟩ := Nat.exists_eq_add_one_of_ne_zero hparts
  have hrest : ∀ d ∈ (c :: rest).head?, ¬ isBareKey d := by simpa using hc
  simp only [readKey, skipBlanks_bare h, readKeyPart_bare h hrest, Option.bind_eq_bind,
    Option.bind_some, hblanks]
  rfl

/-! ### Entries -/

theorem skipBlanks_denotes (h : Denotes chars v) (rest : List Char) :
    skipBlanks (chars ++ '\n' :: rest) = chars ++ '\n' :: rest := by
  have hhead := h.head_not_blank
  cases chars with
  | nil => rfl
  | cons c cs =>
    rw [skipBlanks, List.cons_append, List.dropWhile_cons_of_neg]
    exact hhead c rfl

theorem readEntry_bare (h : IsBare key) (hv : Denotes chars v) (rest : List Char) :
    readEntry (readValue maxNesting) (key ++ ' ' :: '=' :: ' ' :: (chars ++ '\n' :: rest)) =
      some (⟨[], .ofList key, v⟩, '\n' :: rest) := by
  have hkey : readKey maxNesting (key ++ ' ' :: '=' :: ' ' :: (chars ++ '\n' :: rest)) =
      some (([], .ofList key), '=' :: ' ' :: (chars ++ '\n' :: rest)) :=
    readKey_bare h (by decide) (by rfl) (by simp) (by decide)
  have hblanks : skipBlanks (' ' :: (chars ++ '\n' :: rest)) = chars ++ '\n' :: rest :=
    skipBlanks_denotes hv rest
  simp only [readEntry, hkey, readMark, if_true, hblanks, hv.reads, Option.bind_eq_bind,
    Option.bind_some]
  rfl

/-- A bare key, an equals sign and a value are an entry. -/
theorem isLine_entry (h : IsBare key) (hv : Denotes chars v) :
    IsLine (key ++ ' ' :: '=' :: ' ' :: (chars ++ ['\n'])) (.entry ⟨[], .ofList key, v⟩) := by
  refine ⟨by simp, fun rest => ?_⟩
  have hentry := readEntry_bare h hv rest
  obtain ⟨c, cs, rfl, hc⟩ := h.exists_cons
  have hother : ∀ x r, ¬ isBareKey x →
      c :: cs ++ ' ' :: '=' :: ' ' :: (chars ++ '\n' :: rest) ≠ x :: r := by
    intro x r hx heq
    exact ne_of_pos hc hx (List.cons.inj heq).1
  have hchars : c :: cs ++ ' ' :: '=' :: ' ' :: (chars ++ ['\n']) ++ rest =
      c :: cs ++ ' ' :: '=' :: ' ' :: (chars ++ '\n' :: rest) := by simp
  rw [hchars, readLine, skipBlanks_bare h]
  split
  case h_1 r hr => exact absurd hr (hother '[' r (by decide))
  case h_2 r hr => exact absurd hr (hother '#' r (by decide))
  case h_3 r hr => exact absurd hr (hother '\n' r (by decide))
  case h_4 r hr => exact absurd hr (hother '\r' r (by decide))
  case h_5 hr => simp at hr
  case h_6 =>
    simp only [hentry, Option.bind_eq_bind, Option.bind_some]
    rfl

/-! ### Other lines -/

theorem isLine_blank : IsLine ['\n'] .blank :=
  ⟨by decide, fun _ => rfl⟩

/-- A bare key between brackets starts a table. -/
theorem isLine_table (h : IsBare key) :
    IsLine ('[' :: (key ++ [']', '\n'])) (.table [] (.ofList key)) := by
  refine ⟨by simp, fun rest => ?_⟩
  have hkey : readKey maxNesting (key ++ ']' :: '\n' :: rest) =
      some (([], .ofList key), ']' :: '\n' :: rest) :=
    readKey_bare h (by decide) (by rfl) (by simp) (by decide)
  have hheader : readHeader (key ++ ']' :: '\n' :: rest) =
      some (.table [] (.ofList key), '\n' :: rest) := by
    obtain ⟨c, cs, rfl, hc⟩ := h.exists_cons
    rw [readHeader]
    · simp only [hkey, readMark, if_true, Option.bind_eq_bind, Option.bind_some]
      rfl
    · exact fun r hr => ne_of_pos hc (by decide) (List.cons.inj hr).1
  have hchars : '[' :: (key ++ [']', '\n']) ++ rest = '[' :: (key ++ ']' :: '\n' :: rest) := by simp
  have hskip : skipBlanks ('[' :: (key ++ ']' :: '\n' :: rest)) =
      '[' :: (key ++ ']' :: '\n' :: rest) := rfl
  rw [hchars, readLine, hskip]
  simp only [hheader, Option.bind_eq_bind, Option.bind_some]
  rfl

/-! ### Documents -/

/-- Written one after the other, lines are read one after the other. -/
theorem readLines_flatMap {written : List (List Char × Line)} (h : ∀ w ∈ written, IsLine w.1 w.2)
    {fuel : Nat} (hfuel : (written.flatMap Prod.fst).length ≤ fuel) :
    readLines fuel (written.flatMap Prod.fst) = some (written.map Prod.snd) := by
  induction written generalizing fuel with
  | nil => cases fuel <;> rfl
  | cons w written ih =>
    obtain ⟨hne, hread⟩ := h w List.mem_cons_self
    obtain ⟨c, cs, hcs⟩ := List.exists_cons_of_ne_nil hne
    have hline := hread (written.flatMap Prod.fst)
    rw [List.flatMap_cons, hcs, List.cons_append] at hfuel ⊢
    rw [hcs, List.cons_append] at hline
    rw [List.length_cons, List.length_append] at hfuel
    obtain ⟨fuel, rfl⟩ := Nat.exists_eq_add_one_of_ne_zero (show fuel ≠ 0 by omega)
    rw [readLines]
    · simp only [hline, ih (fun x hx => h x (List.mem_cons_of_mem _ hx)) (show _ ≤ fuel by omega),
        Option.bind_eq_bind, Option.bind_some]
      rfl
    · exact List.cons_ne_nil _ _

theorem ofString?_of_lines {written : List (List Char × Line)} {s : String}
    (hs : s.toList = written.flatMap Prod.fst) (h : ∀ w ∈ written, IsLine w.1 w.2)
    (hmark : s.toList.head? ≠ some '\ufeff') :
    Document.ofString? s =
      some ⟨(group (written.map Prod.snd)).1, (group (written.map Prod.snd)).2⟩ := by
  have hdrop : dropMark (written.flatMap Prod.fst) = written.flatMap Prod.fst := by
    rw [hs] at hmark
    rw [dropMark.eq_def]
    split
    case h_1 r hr => exact absurd (by rw [hr]; rfl) hmark
    case h_2 => rfl
  simp only [Document.ofString?, hs, hdrop, readLines_flatMap h (Nat.le_succ _),
    Option.bind_eq_bind, Option.bind_some]
  rfl

theorem group_entries (entries : List Entry) : group (entries.map .entry) = (entries, []) := by
  induction entries with
  | nil => rfl
  | cons e entries ih => rw [List.map_cons, group, ih]

end LeaseOrder.Toml
