/-
A batch is read line by line.

The lines of a file are those of its bytes: they end at line feeds, and it does not matter what
text the bytes are, or whether they are text at all.  Each line by itself holds a record, holds
none since it is blank, or is faulty.  Reading gives the records of the lines in their order, or
the fault of the first faulty line with its number, whatever comes behind it.  So what is read
of two files, one behind the other, is what is read of each of them.
-/
import Mathlib.Data.List.ReduceOption
import LeaseOrder.Proofs.Batch.Store
import LeaseOrder.Proofs.Utf8

namespace LeaseOrder.Batch

open Files

/-! ### The lines of a file -/

/-- The lines of a file: each one ends at a line feed, and a carriage return in front of it belongs
    to the end.  Behind the last line feed there is a line only if it is not empty. -/
inductive Lines : Text.Bytes → List Text.Bytes → Prop
  | none : Lines [] []
  | last {l : Text.Bytes} (hne : l ≠ []) (hfeed : 10 ∉ l) : Lines l [l]
  | feed {l rest : Text.Bytes} {ls : List Text.Bytes} (hfeed : 10 ∉ l)
      (hreturn : l.getLast? ≠ some 13) (h : Lines rest ls) : Lines (l ++ 10 :: rest) (l :: ls)
  | returnFeed {l rest : Text.Bytes} {ls : List Text.Bytes} (hfeed : 10 ∉ l)
      (h : Lines rest ls) : Lines (l ++ 13 :: 10 :: rest) (l :: ls)

variable {bs rest : Text.Bytes} {ls : List Text.Bytes}

theorem exists_lines (bs : Text.Bytes) : ∃ ls, Lines bs ls := by
  induction hn : bs.length using Nat.strongRecOn generalizing bs with
  | ind n ih =>
    by_cases hfeed : 10 ∈ bs
    · obtain ⟨l, rest, rfl, hl⟩ := List.eq_append_cons_of_mem hfeed
      have hlt : rest.length < n := by
        rw [← hn, List.length_append, List.length_cons]
        omega
      obtain ⟨ls, hls⟩ := ih _ hlt rest rfl
      by_cases hreturn : l.getLast? = some 13
      · obtain ⟨l, rfl⟩ := List.getLast?_eq_some_iff.mp hreturn
        refine ⟨l :: ls, ?_⟩
        rw [List.append_assoc]
        exact .returnFeed (fun h => hl (List.mem_append_left _ h)) hls
      · exact ⟨l :: ls, .feed hl hreturn hls⟩
    · by_cases hne : bs = []
      · subst hne
        exact ⟨[], .none⟩
      · exact ⟨[bs], .last hne hfeed⟩

section Decoded

variable {cs l : List (Option Char)}

theorem lines_of_no_feed (hne : cs ≠ []) (hfeed : some '\n' ∉ cs) : lines cs = [cs] := by
  induction cs with
  | nil => exact absurd rfl hne
  | cons c cs ih =>
    have hc : c ≠ some '\n' := fun h => hfeed (h ▸ List.mem_cons_self)
    have hrest : some '\n' ∉ cs := fun h => hfeed (List.mem_cons_of_mem _ h)
    have hpair : ¬ (c = some '\r' ∧ cs.head? = some (some '\n')) := fun h =>
      hrest (List.mem_of_mem_head? h.2)
    rw [lines, if_neg hc, if_neg (by simpa using hpair)]
    by_cases hcs : cs = []
    · subst hcs
      rfl
    · rw [ih hcs hrest]

/-- A carriage return in front of a line feed is not part of the line. -/
theorem lines_return_append (hfeed : some '\n' ∉ l) :
    lines (l ++ some '\r' :: some '\n' :: cs) = l :: lines cs := by
  induction l with
  | nil =>
    rw [List.nil_append, lines, if_neg (by decide), if_pos (by simp), lines, if_pos rfl]
  | cons c l ih =>
    have hc : c ≠ some '\n' := fun h => hfeed (h ▸ List.mem_cons_self)
    have hl : some '\n' ∉ l := fun h => hfeed (List.mem_cons_of_mem _ h)
    have hpair : ¬ (c = some '\r' ∧
        (l ++ some '\r' :: some '\n' :: cs).head? = some (some '\n')) := by
      rintro ⟨-, hhead⟩
      cases l with
      | nil => cases hhead
      | cons d l =>
        obtain rfl : d = some '\n' := by simpa using hhead
        exact hl List.mem_cons_self
    rw [List.cons_append, lines, if_neg hc, if_neg (by simpa using hpair), ih hl]

end Decoded

theorem not_mem_decode_of_feed (h : 10 ∉ bs) : some '\n' ∉ Text.decode bs := by
  intro hmem
  exact h (Text.mem_of_mem_decode hmem 10 (by decide))

theorem getLast?_decode_of_return (h : bs.getLast? ≠ some 13) :
    (Text.decode bs).getLast? ≠ some (some '\r') := by
  intro hlast
  obtain ⟨init, rfl⟩ := Text.suffix_of_getLast?_decode hlast
  have hreturn : String.utf8EncodeChar '\r' = [13] := by decide
  rw [hreturn, List.getLast?_concat] at h
  exact h rfl

theorem decode_feed (bs rest : Text.Bytes) :
    Text.decode (bs ++ 10 :: rest) = Text.decode bs ++ some '\n' :: Text.decode rest :=
  Text.decode_append_byte (by decide) (by decide) bs rest

/-- The lines can be told apart before it is known whether they are text. -/
theorem Lines.lines_decode (h : Lines bs ls) : lines (Text.decode bs) = ls.map Text.decode := by
  induction h with
  | none =>
    rw [Text.decode]
    rfl
  | @last l hne hfeed =>
    have hne' : Text.decode l ≠ [] := by
      intro h
      have hread := Text.reads_decode l
      rw [h] at hread
      cases hread
      exact hne rfl
    exact lines_of_no_feed hne' (not_mem_decode_of_feed hfeed)
  | feed hfeed hreturn _ ih =>
    rw [decode_feed, lines_append (not_mem_decode_of_feed hfeed)
      (getLast?_decode_of_return hreturn), ih, List.map_cons]
  | @returnFeed l rest ls hfeed _ ih =>
    have hreturn : Text.decode (l ++ 13 :: 10 :: rest) =
        Text.decode l ++ some '\r' :: some '\n' :: Text.decode rest := by
      rw [Text.decode_append_byte (c := '\r') (by decide) (by decide),
        ← List.nil_append (10 :: rest), decode_feed, Text.decode]
      rfl
    rw [hreturn, lines_return_append (not_mem_decode_of_feed hfeed), ih, List.map_cons]

theorem nil_or_getLast?_of_feed {l rest : Text.Bytes}
    (h : (l ++ 10 :: rest).getLast? = some 10) : rest = [] ∨ rest.getLast? = some 10 := by
  rcases List.eq_nil_or_concat rest with hnil | ⟨init, b, hconcat⟩
  · exact .inl hnil
  · right
    rw [List.concat_eq_append] at hconcat
    rw [hconcat, ← List.cons_append, ← List.append_assoc, List.getLast?_concat] at h
    rw [hconcat, List.getLast?_concat, h]

/-- The lines of two files, if the first one ends with the end of a line. -/
theorem Lines.append {more : Text.Bytes} {ls' : List Text.Bytes} (h : Lines bs ls)
    (hend : bs = [] ∨ bs.getLast? = some 10) (hmore : Lines more ls') :
    Lines (bs ++ more) (ls ++ ls') := by
  induction h with
  | none => exact hmore
  | last hne hfeed =>
    rcases hend with h | hlast
    · exact absurd h hne
    · exact absurd (List.mem_of_getLast? hlast) hfeed
  | feed hfeed hreturn _ ih =>
    have hlast := hend.resolve_left (by simp)
    rw [List.append_assoc]
    exact .feed hfeed hreturn (ih (nil_or_getLast?_of_feed hlast))
  | @returnFeed l rest ls hfeed _ ih =>
    have hlast := hend.resolve_left (by simp)
    rw [← List.singleton_append, ← List.append_assoc] at hlast
    rw [List.append_assoc]
    exact .returnFeed hfeed (ih (nil_or_getLast?_of_feed hlast))

/-! ### One line -/

section Records

variable {α : Type} [Record α] {l : Text.Bytes} {r : Option α} {fault : LineFault}

/-- What a line holds: a record, or none if it is blank. -/
inductive Holds : Text.Bytes → Option α → Prop
  | blank {s : String} (h : Text.isAllBlank s) : Holds (Text.encode s) none
  | record {s : String} {x : α} (h : ¬ Text.isAllBlank s) (hx : Record.ofText s = .ok x) :
      Holds (Text.encode s) (some x)

variable (α) in
/-- What is wrong with a line. -/
inductive Faulty : Text.Bytes → LineFault → Prop
  /-- The bytes are not those of a text. -/
  | unreadable {l : Text.Bytes} (h : ∀ s, l ≠ Text.encode s) : Faulty l (.unreadable .badText)
  | badRecord {s : String} {e : Json.Failure} (h : ¬ Text.isAllBlank s)
      (he : (Record.ofText s : Except Json.Failure α) = .error e) :
      Faulty (Text.encode s) (.badRecord e)

theorem assemble?_encode (s : String) :
    Text.assemble? (Text.decode (Text.encode s)) = some s :=
  Text.assemble?_decode_iff.mpr rfl

theorem readLine_of_holds (h : Holds l r) : readLine (Text.decode l) = .ok r := by
  cases h with
  | blank h => simp only [readLine, assemble?_encode, if_pos h]
  | record h hx => simp only [readLine, assemble?_encode, if_neg h, hx]

theorem readLine_of_faulty (h : Faulty α l fault) :
    readLine (α := α) (Text.decode l) = .error fault := by
  cases h with
  | unreadable h =>
    have hnone : Text.assemble? (Text.decode l) = none := by
      cases hs : Text.assemble? (Text.decode l) with
      | none => rfl
      | some s => exact absurd (Text.assemble?_decode_iff.mp hs) (h s)
    simp only [readLine, hnone]
  | badRecord h he => simp only [readLine, assemble?_encode, if_neg h, he]

variable (α) in
/-- Every line holds something or is faulty. -/
theorem holds_or_faulty (l : Text.Bytes) :
    (∃ r : Option α, Holds l r) ∨ ∃ fault, Faulty α l fault := by
  by_cases htext : ∃ s, l = Text.encode s
  · obtain ⟨s, rfl⟩ := htext
    by_cases hblank : Text.isAllBlank s
    · exact .inl ⟨none, .blank hblank⟩
    · cases hs : (Record.ofText s : Except Json.Failure α) with
      | ok x => exact .inl ⟨some x, .record hblank hs⟩
      | error e => exact .inr ⟨_, .badRecord hblank hs⟩
  · exact .inr ⟨_, .unreadable fun s h => htext ⟨s, h⟩⟩

/-! ### Line after line -/

variable {number : Nat} {xs : List α} {e : ReadFault}

theorem readLines_cons_ok (l : Text.Bytes) (ls : List Text.Bytes) (h : Holds l r) :
    readLines number ((l :: ls).map Text.decode) =
      (readLines (number + 1) (ls.map Text.decode)).map fun xs => r.toList ++ xs := by
  rw [List.map_cons, readLines, readLine_of_holds h]
  cases readLines (α := α) (number + 1) (ls.map Text.decode) <;> rfl

theorem readLines_cons_error (l : Text.Bytes) (ls : List Text.Bytes) (h : Faulty α l fault) :
    readLines (α := α) number ((l :: ls).map Text.decode) = .error ⟨number, fault⟩ := by
  rw [List.map_cons, readLines, readLine_of_faulty h]
  rfl

theorem readLines_of_held {held : List (Option α)} (h : List.Forall₂ Holds ls held) :
    readLines number (ls.map Text.decode) = .ok held.reduceOption := by
  induction h generalizing number with
  | nil => rfl
  | @cons l r ls held hr _ ih =>
    rw [readLines_cons_ok l ls hr, ih]
    cases r <;> rfl

theorem readLines_eq_ok_iff : readLines number (ls.map Text.decode) = .ok xs ↔
    ∃ held, List.Forall₂ Holds ls held ∧ xs = held.reduceOption := by
  refine ⟨?_, ?_⟩
  · intro h
    induction ls generalizing number xs with
    | nil => exact ⟨[], .nil, (Except.ok.inj h).symm⟩
    | cons l ls ih =>
      rcases holds_or_faulty α l with ⟨r, hr⟩ | ⟨fault, hfault⟩
      · rw [readLines_cons_ok l ls hr] at h
        obtain ⟨ys, hys, rfl⟩ := ok_of_map h
        obtain ⟨held, hheld, rfl⟩ := ih hys
        refine ⟨r :: held, .cons hr hheld, ?_⟩
        cases r <;> rfl
      · rw [readLines_cons_error l ls hfault] at h
        cases h
  · rintro ⟨held, hheld, rfl⟩
    exact readLines_of_held hheld

variable (α) in
/-- The first faulty line of lines, of which the first one has this number. -/
def FirstFault (number : Nat) (ls : List Text.Bytes) (e : ReadFault) : Prop :=
  ∃ front l back, ls = front ++ l :: back ∧ (∀ k ∈ front, ∃ r : Option α, Holds k r) ∧
    e.line = number + front.length ∧ Faulty α l e.fault

theorem readLines_eq_error_iff :
    readLines (α := α) number (ls.map Text.decode) = .error e ↔ FirstFault α number ls e := by
  refine ⟨?_, ?_⟩
  · intro h
    induction ls generalizing number with
    | nil => cases h
    | cons l ls ih =>
      rcases holds_or_faulty α l with ⟨r, hr⟩ | ⟨fault, hfault⟩
      · rw [readLines_cons_ok l ls hr] at h
        obtain ⟨front, k, back, rfl, hfront, hline, hk⟩ := ih (error_of_map h)
        refine ⟨l :: front, k, back, rfl, ?_, ?_, hk⟩
        · exact List.forall_mem_cons.mpr ⟨⟨r, hr⟩, hfront⟩
        · rw [hline, List.length_cons]
          omega
      · rw [readLines_cons_error l ls hfault] at h
        obtain rfl := Except.error.inj h
        exact ⟨[], l, ls, rfl, by simp, rfl, hfault⟩
  · rintro ⟨front, l, back, rfl, hfront, hline, hl⟩
    induction front generalizing number with
    | nil =>
      rw [List.nil_append, readLines_cons_error l back hl]
      exact congrArg Except.error (congrArg (ReadFault.mk · e.fault) hline.symm)
    | cons k front ih =>
      obtain ⟨⟨r, hr⟩, hrest⟩ := List.forall_mem_cons.mp hfront
      have hline' : e.line = number + 1 + front.length := by
        rw [hline, List.length_cons]
        omega
      rw [List.cons_append, readLines_cons_ok k _ hr, ih hrest hline']
      rfl

/-- The fault of a line that has other lines in front of it. -/
def ReadFault.behind (e : ReadFault) (count : Nat) : ReadFault :=
  { e with line := e.line + count }

theorem readLines_behind (number count : Nat) (ls : List (List (Option Char))) :
    readLines (α := α) (number + count) ls =
      (readLines number ls).mapError (·.behind count) := by
  induction ls generalizing number with
  | nil => rfl
  | cons l ls ih =>
    rw [readLines, readLines, Nat.add_right_comm, ih]
    cases readLine (α := α) l with
    | error fault => rfl
    | ok r => cases readLines (α := α) (number + 1) ls <;> rfl

theorem readLines_append (number : Nat) (ls ls' : List (List (Option Char))) :
    readLines (α := α) number (ls ++ ls') = do
      let xs ← readLines number ls
      let ys ← readLines (number + ls.length) ls'
      return xs ++ ys := by
  induction ls generalizing number with
  | nil =>
    show readLines number ls' = readLines number ls' >>= fun ys => .ok ys
    cases readLines (α := α) number ls' <;> rfl
  | cons l ls ih =>
    rw [List.cons_append, readLines, readLines, ih, List.length_cons, Nat.add_comm ls.length,
      ← Nat.add_assoc]
    cases readLine (α := α) l with
    | error fault => rfl
    | ok r =>
      cases readLines (α := α) (number + 1) ls with
      | error e => rfl
      | ok xs =>
        cases readLines (α := α) (number + 1 + ls.length) ls' with
        | error e => rfl
        | ok ys =>
          show Except.ok (r.toList ++ (xs ++ ys)) = Except.ok (r.toList ++ xs ++ ys)
          rw [List.append_assoc]

/-! ### Whole files -/

theorem parse_of_lines (h : Lines bs ls) :
    (parse bs : Except ReadFault (List α)) = readLines 1 (ls.map Text.decode) := by
  rw [parse, h.lines_decode]

/-- Two files, of which the first one ends with the end of a line, are read one after the other. -/
theorem parse_append {more : Text.Bytes} (h : Lines bs ls)
    (hend : bs = [] ∨ bs.getLast? = some 10) :
    (parse (bs ++ more) : Except ReadFault (List α)) = do
      let xs ← parse bs
      let ys ← (parse more).mapError (·.behind ls.length)
      return xs ++ ys := by
  obtain ⟨ls', hmore⟩ := exists_lines more
  rw [parse_of_lines (h.append hend hmore), parse_of_lines h, parse_of_lines hmore,
    List.map_append, readLines_append, List.length_map, readLines_behind]

/-- Blank lines are put between the lines of a file. -/
inductive InsertsBlanks : List Text.Bytes → List Text.Bytes → Prop
  | nil : InsertsBlanks [] []
  | keep {ls ls' : List Text.Bytes} (l : Text.Bytes) (h : InsertsBlanks ls ls') :
      InsertsBlanks (l :: ls) (l :: ls')
  | insert {ls ls' : List Text.Bytes} {s : String} (hs : Text.isAllBlank s)
      (h : InsertsBlanks ls ls') : InsertsBlanks ls (Text.encode s :: ls')

/-- Blank lines have no part in what is read, but for the number of the line of a fault. -/
theorem InsertsBlanks.readLines_eq {ls' : List Text.Bytes} (h : InsertsBlanks ls ls')
    (number number' : Nat) :
    (readLines (α := α) number' (ls'.map Text.decode)).mapError ReadFault.fault =
      (readLines number (ls.map Text.decode)).mapError ReadFault.fault := by
  induction h generalizing number number' with
  | nil => rfl
  | @keep ls ls' l _ ih =>
    rcases holds_or_faulty α l with ⟨r, hr⟩ | ⟨fault, hfault⟩
    · rw [readLines_cons_ok l ls hr, readLines_cons_ok l ls' hr, mapError_map, mapError_map,
        ih (number + 1) (number' + 1)]
    · rw [readLines_cons_error l ls hfault, readLines_cons_error l ls' hfault]
      rfl
  | @insert ls ls' s hs _ ih =>
    have hblank : Holds (α := α) (Text.encode s) none := .blank hs
    rw [readLines_cons_ok _ ls' hblank, mapError_map, ih number (number' + 1)]
    cases (readLines (α := α) number (ls.map Text.decode)).mapError ReadFault.fault <;> rfl

theorem run_read_input {w : World} :
    (read .input : StateM World (Except StoreError (List α))).run w =
      ((parse w.input).mapError (.cannotRead .input), w) := rfl

/-- **A batch is read line by line.**  Where every line holds a record or is blank, the records of the
    lines are what is read, and else the first faulty line is named, with its own fault.  Two
    files of which the first one ends with the end of a line are read one after the other, and
    blank lines have no part in what is read. -/
theorem parse_composes :
    (∀ bs, ∃ ls, Lines bs ls) ∧
      (∀ bs ls (xs : List α), Lines bs ls → (parse bs = .ok xs ↔
        ∃ held, List.Forall₂ Holds ls held ∧ xs = held.reduceOption)) ∧
      (∀ bs ls e, Lines bs ls →
        ((parse bs : Except ReadFault (List α)) = .error e ↔ FirstFault α 1 ls e)) ∧
      (∀ bs ls more, Lines bs ls → bs = [] ∨ bs.getLast? = some 10 →
        (parse (bs ++ more) : Except ReadFault (List α)) = do
          let xs ← parse bs
          let ys ← (parse more).mapError (·.behind ls.length)
          return xs ++ ys) ∧
      (∀ bs bs' ls ls', Lines bs ls → Lines bs' ls' → InsertsBlanks ls ls' →
        (parse bs' : Except ReadFault (List α)).mapError ReadFault.fault =
          (parse bs).mapError ReadFault.fault) ∧
      (∀ w, (read .input : StateM World (Except StoreError (List α))).run w =
        ((parse w.input).mapError (.cannotRead .input), w)) ∧
      ∀ w p contents, w.tree.openRead p = .ok (.file contents) →
        (read (.file p) : StateM World (Except StoreError (List α))).run w =
          ((parse contents).mapError (.cannotRead (.file p)), w) := by
  refine ⟨?_, ?_, ?_, ?_, ?_, ?_, ?_⟩
  · intro bs
    exact exists_lines bs
  · intro bs ls xs h
    rw [parse_of_lines h]
    exact readLines_eq_ok_iff
  · intro bs ls e h
    rw [parse_of_lines h]
    exact readLines_eq_error_iff
  · intro bs ls more h hend
    exact parse_append h hend
  · intro bs bs' ls ls' h h' hblanks
    rw [parse_of_lines h, parse_of_lines h']
    exact hblanks.readLines_eq 1 1
  · intro w
    exact run_read_input
  · intro w p contents h
    exact run_read h

end Records

/-- Two blank lines with different ends, and behind them a line that is no text. -/
theorem parse_composes_stray :
    Lines [13, 10, 32, 10] [[], [32]] ∧ Lines [255, 10, 120] [[255], [120]] ∧
      (parse [13, 10, 32, 10] : Except ReadFault (List Lease)) = .ok [] ∧
      (parse [13, 10, 32, 10, 255, 10, 120] : Except ReadFault (List Lease)) =
        .error ⟨3, .unreadable .badText⟩ ∧
      (read (.file (.ofString "f")) : StateM World (Except StoreError (List Lease))).run
          ⟨⟨[([['f']], .file [255, 10, 120])], []⟩, []⟩ =
        (.error (.cannotRead (.file (.ofString "f")) ⟨1, .unreadable .badText⟩),
          ⟨⟨[([['f']], .file [255, 10, 120])], []⟩, []⟩) := by
  have hblank : Lines [13, 10, 32, 10] [[], [32]] :=
    @Lines.returnFeed [] _ _ (by decide)
      (@Lines.feed [32] _ _ (by decide) (by decide) .none)
  have hstray : Lines [255, 10, 120] [[255], [120]] :=
    @Lines.feed [255] _ _ (by decide) (by decide) (.last (by decide) (by decide))
  obtain ⟨-, hok, herror, happend, -, -, hfile⟩ := parse_composes (α := Lease)
  have hnone : (parse [13, 10, 32, 10] : Except ReadFault (List Lease)) = .ok [] := by
    have hempty : Holds (α := Lease) (Text.encode "") none := .blank (by decide)
    have hspace : Holds (α := Lease) (Text.encode " ") none := .blank (by decide)
    exact (hok _ _ _ hblank).mpr ⟨[none, none], .cons hempty (.cons hspace .nil), rfl⟩
  have hfault : (parse [255, 10, 120] : Except ReadFault (List Lease)) =
      .error ⟨1, .unreadable .badText⟩ := by
    rw [herror _ _ _ hstray]
    refine ⟨[], [255], [[120]], rfl, by simp, rfl, .unreadable ?_⟩
    intro s hs
    have hread : Text.decode [255] = [none] := by
      have hfirst : Text.firstChar? [255] = none := by decide +kernel
      rw [Text.decode, hfirst]
      simp only [Text.decode]
    have htext := Text.assemble?_decode_iff.mpr hs
    rw [hread] at htext
    cases htext
  refine ⟨hblank, hstray, hnone, ?_, ?_⟩
  · have hall := happend _ _ [255, 10, 120] hblank (.inr rfl)
    rw [hnone, hfault] at hall
    exact hall
  · rw [hfile _ _ _ rfl, hfault]
    rfl

end LeaseOrder.Batch
