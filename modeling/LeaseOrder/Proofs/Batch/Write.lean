/-
What becomes of the files when a batch is written, whatever is refused.

A write creates the directories that are missing.  Then the temporary file is created empty, and
the lines of the batch are added to it one after the other.  Whatever stops this, the file then
holds a front part of the lines, and it stays where it is.  Only the whole of them is ever
renamed.  Where nothing is refused and every record has a text, the file is replaced if both of
its names are free to be used.
-/
import LeaseOrder.Proofs.Batch.Read

namespace LeaseOrder.Batch

open Files Files.Tree

variable {α : Type} {faults : Faults} {line : α → Except String String} {batch : List α}
  {w w' : World} {p : Path} {result : Except StoreError Unit}

/-! ### Filling a file -/

/-- The lines of a batch, up to the first record that has none. -/
def linesOf (line : α → Except String String) : List α → String
  | [] => ""
  | x :: batch =>
    match line x with
    | .ok text => text ++ "\n" ++ linesOf line batch
    | .error _ => ""

theorem linesOf_recordLine [Record α] (batch : List α) : linesOf recordLine batch = print batch := by
  induction batch with
  | nil => rfl
  | cons x batch ih =>
    rw [print, List.map_cons, String.join_cons, ← print, ← ih]
    rfl

/-- Why a file is not filled. -/
inductive Stops (faults : Faults) (line : α → Except String String) (batch : List α) :
    StoreError → Prop
  | record {x : α} {reason : String} (hx : x ∈ batch) (h : line x = .error reason) :
      Stops faults line batch (.cannotEncode reason)
  | append {e : FileError} (h : faults.Refuses e) :
      Stops faults line batch (.cannotWriteRecord e)
  | flush {e : FileError} (h : faults.Refuses e) : Stops faults line batch (.cannotFlush e)

theorem Stops.cons {e : StoreError} (h : Stops faults line batch e) (x : α) :
    Stops faults line (x :: batch) e := by
  cases h with
  | record hx h => exact .record (List.mem_cons_of_mem _ hx) h
  | append h => exact .append h
  | flush h => exact .flush h

theorem Stops.isWriteError {e : StoreError} (h : Stops faults line batch e) :
    e.isWriteError = true := by
  cases h <;> rfl

/-- What comes of filling a file, and what has been added to it. -/
inductive Fills (faults : Faults) (line : α → Except String String) (batch : List α) :
    Except StoreError Unit → Text.Bytes → Prop
  | all (h : ∀ x ∈ batch, ∃ text, line x = .ok text) :
      Fills faults line batch (.ok ()) (Text.encode (linesOf line batch))
  | part {e : StoreError} {added : Text.Bytes} (h : Stops faults line batch e)
      (hpart : added <+: Text.encode (linesOf line batch)) :
      Fills faults line batch (.error e) added

/-- One line more is in front of what the others add. -/
theorem Fills.cons {added : Text.Bytes} {x : α} {text : String}
    (h : Fills faults line batch result added) (hx : line x = .ok text) :
    Fills faults line (x :: batch) result (Text.encode (text ++ "\n") ++ added) := by
  have hlines : linesOf line (x :: batch) = text ++ "\n" ++ linesOf line batch := by
    simp only [linesOf, hx]
  cases h with
  | all h =>
    rw [← Text.encode_append, ← hlines]
    refine .all fun y hy => ?_
    rcases List.mem_cons.mp hy with rfl | hy
    · exact ⟨text, hx⟩
    · exact h y hy
  | part h hpart =>
    refine .part (h.cons x) ?_
    rw [hlines, Text.encode_append (text ++ "\n")]
    exact (List.prefix_append_right_inj _).mpr hpart

/-- **Whatever goes wrong, a front part of the lines has been added.** -/
theorem fills_of_fill {place : Place} (hplace : place ≠ []) {before : Text.Bytes}
    (h : (fill line place batch : Faulty faults _).Yields (w.withFile place before) result w') :
    ∃ added, Fills faults line batch result added ∧ w' = w.withFile place (before ++ added) := by
  induction batch generalizing before with
  | nil =>
    unfold fill at h
    obtain ⟨flushed, w₁, hflush, h⟩ := h.bind
    obtain ⟨rfl, rfl⟩ := h.pure
    obtain ⟨rfl, rfl | ⟨e, hrefuses, rfl⟩⟩ := Faulty.answer_cases hflush
    · exact ⟨[], .all (by simp), by rw [List.append_nil]⟩
    · exact ⟨[], .part (.flush hrefuses) List.nil_prefix, by rw [List.append_nil]⟩
  | cons x batch ih =>
    unfold fill at h
    cases hx : line x with
    | error reason =>
      simp only [hx] at h
      obtain ⟨rfl, rfl⟩ := h.pure
      exact ⟨[], .part (.record List.mem_cons_self hx) List.nil_prefix, by rw [List.append_nil]⟩
    | ok text =>
      simp only [hx] at h
      obtain ⟨appended, w₁, happend, h⟩ := h.bind
      rcases Faulty.append_cases hplace happend with
        ⟨rfl, rfl⟩ | ⟨e, kept, hrefuses, hkept, rfl, rfl⟩
      · obtain ⟨added, hadded, rfl⟩ := ih h
        exact ⟨_, hadded.cons hx, by rw [List.append_assoc]⟩
      · obtain ⟨rfl, rfl⟩ := h.pure
        refine ⟨kept, .part (.append hrefuses) (hkept.trans ?_), rfl⟩
        simp only [linesOf, hx]
        rw [Text.encode_append (text ++ "\n")]
        exact List.prefix_append _ _

/-! ### The temporary file -/

/-- What comes of writing the temporary file. -/
inductive Writes (faults : Faults) (line : α → Except String String) (p : Path) (batch : List α)
    (w : World) : Except StoreError Unit → World → Prop
  | uncreated {e : FileError}
      (h : faults.Refuses e ∨ w.tree.createFile (temporary p) = .error e) :
      Writes faults line p batch w (.error (.cannotCreateTemporary (temporary p) e)) w
  | unlocked {e : FileError} {place : Place} (hp : Leads w.tree (temporary p) place)
      (h : faults.Refuses e) :
      Writes faults line p batch w (.error (.cannotLockTemporary e)) (w.withFile place [])
  | stopped {e : StoreError} {place : Place} {kept : Text.Bytes}
      (hp : Leads w.tree (temporary p) place) (h : Stops faults line batch e)
      (hkept : kept <+: Text.encode (linesOf line batch)) :
      Writes faults line p batch w (.error e) (w.withFile place kept)
  | written {place : Place} (hp : Leads w.tree (temporary p) place)
      (h : ∀ x ∈ batch, ∃ text, line x = .ok text) :
      Writes faults line p batch w (.ok ())
        (w.withFile place (Text.encode (linesOf line batch)))

theorem writes_of_writeTemporary
    (h : (writeTemporary line p batch : Faulty faults _).Yields w result w') :
    Writes faults line p batch w result w' := by
  unfold writeTemporary at h
  obtain ⟨created, w₁, hcreate, h⟩ := h.bind
  rcases Faulty.create_cases hcreate with ⟨place, hp, rfl, rfl⟩ | ⟨e, hreason, rfl, rfl⟩
  · obtain ⟨locked, w₂, hlock, h⟩ := h.bind
    obtain ⟨rfl, rfl | ⟨e, hrefuses, rfl⟩⟩ := Faulty.answer_cases hlock
    · obtain ⟨filled, w₃, hfill, h⟩ := h.bind
      obtain ⟨added, hadded, rfl⟩ := fills_of_fill hp.ne_nil hfill
      rw [List.nil_append] at h
      cases hadded with
      | all hall =>
        obtain ⟨rfl, rfl⟩ := h.pure
        exact .written hp hall
      | part hstops hpart =>
        obtain ⟨_, w₄, habandon, h⟩ := h.bind
        obtain ⟨kept, hkept, rfl⟩ := Faulty.abandon_cases hp.ne_nil habandon
        obtain ⟨rfl, rfl⟩ := h.pure
        exact .stopped hp hstops (hkept.trans hpart)
    · obtain ⟨rfl, rfl⟩ := h.pure
      exact .unlocked hp hrefuses
  · obtain ⟨rfl, rfl⟩ := h.pure
    exact .uncreated hreason

/-! ### Replacing a file -/

/-- What comes of replacing a file. -/
inductive Replacement (faults : Faults) (line : α → Except String String) (p : Path)
    (batch : List α) (w : World) : Except StoreError Unit → World → Prop
  | unwritten {e : StoreError} {w' : World} (h : Writes faults line p batch w (.error e) w') :
      Replacement faults line p batch w (.error e) w'
  | unrenamed {e : FileError} {place : Place} (hp : Leads w.tree (temporary p) place)
      (h : faults.Refuses e ∨ (w.tree.put place (.file (Text.encode (linesOf line batch)))).rename
        (temporary p) p = .error e) :
      Replacement faults line p batch w (.error (.cannotRename (temporary p) p e))
        (w.withFile place (Text.encode (linesOf line batch)))
  | renamed {place : Place} {v : Tree} (hp : Leads w.tree (temporary p) place)
      (hall : ∀ x ∈ batch, ∃ text, line x = .ok text)
      (hr : (w.tree.put place (.file (Text.encode (linesOf line batch)))).rename
        (temporary p) p = .ok v) :
      Replacement faults line p batch w (.ok ()) { w with tree := v }

theorem replacement_of_yields
    (h : (replaceFile line p batch : Faulty faults _).Yields w result w') :
    Replacement faults line p batch w result w' := by
  unfold replaceFile at h
  obtain ⟨written, w₁, hwrite, h⟩ := h.bind
  have hwrites := writes_of_writeTemporary hwrite
  cases written with
  | error e =>
    obtain ⟨rfl, rfl⟩ := h.pure
    exact .unwritten hwrites
  | ok u =>
    cases hwrites with
    | written hp hall =>
      obtain ⟨renamed, w₂, hrename, h⟩ := h.bind
      obtain ⟨rfl, rfl⟩ := h.pure
      rcases Faulty.change_unit_cases hrename with ⟨v, hv, rfl, rfl⟩ | ⟨e, hreason, rfl, rfl⟩
      · exact .renamed hp hall hv
      · exact .unrenamed hp hreason

theorem Replacement.isWriteError {e : StoreError}
    (h : Replacement faults line p batch w (.error e) w') : e.isWriteError = true := by
  cases h with
  | unrenamed => rfl
  | unwritten hwrites =>
    cases hwrites with
    | uncreated => rfl
    | unlocked => rfl
    | stopped _ hstops => exact hstops.isWriteError

theorem openRead_of_replaceFile
    (h : (replaceFile line p batch : Faulty faults _).Yields w (.ok ()) w') :
    w'.tree.openRead p = .ok (.file (Text.encode (linesOf line batch))) := by
  cases replacement_of_yields h with
  | renamed hp _ hr => exact openRead_of_rename_put hp hr

theorem replaces_of_replaceFile
    (h : (replaceFile line p batch : Faulty faults _).Yields w (.ok ()) w') :
    w.tree.Replaces (temporary p) p w'.tree := by
  cases replacement_of_yields h with
  | renamed hp _ hr => exact replaces hp hr

/-- Nothing is written where one of the two names is that of a directory. -/
theorem exists_error_of_directory
    (hdir : w.tree.find (temporary p) = .ok .directory ∨ w.tree.find p = .ok .directory)
    (h : (replaceFile line p batch : Faulty faults _).Yields w result w') :
    ∃ e, result = .error e := by
  cases result with
  | error e => exact ⟨e, rfl⟩
  | ok u =>
    obtain ⟨⟨_, hsource, -⟩, ⟨_, hplace, -⟩, -⟩ := replaces_of_replaceFile h
    rcases hdir with htemporary | hp
    · exact absurd htemporary hsource.find_ne_directory
    · exact absurd hp hplace.find_ne_directory

/-- A batch can be written to this path: its directory is there, and neither the file nor the
    temporary file has a name that a directory has. -/
structure Ready (t : Tree) (p : Path) : Prop where
  directory : ∀ dir ∈ directory? p, t.find dir = .ok .directory
  temporary : ∃ place, t.Leads (temporary p) place
  destination : ∃ place, t.Leads p place

/-- Where nothing is refused nothing keeps a file from being replaced. -/
theorem exists_replaceFile (h : Ready w.tree p) (hall : ∀ x ∈ batch, ∃ text, line x = .ok text) :
    ∃ w', (replaceFile line p batch : StateM World _).run w = (.ok (), w') := by
  rcases hrun : (replaceFile line p batch : StateM World _).run w with ⟨result, w'⟩
  obtain ⟨source, hsource⟩ := h.temporary
  obtain ⟨place, hplace⟩ := h.destination
  have hnot : ∀ {P : Prop} {e : FileError}, Faults.none.Refuses e ∨ P → P := fun hor =>
    hor.resolve_left (Faults.not_refuses_none _)
  cases replacement_of_yields (Faulty.yields_none_iff.mpr hrun) with
  | renamed => exact ⟨_, rfl⟩
  | unrenamed hp hreason =>
    obtain ⟨v, hv⟩ := exists_replace hp hplace (Text.encode (linesOf line batch))
    rw [hnot hreason] at hv
    cases hv
  | unwritten hwrites =>
    cases hwrites with
    | uncreated hreason =>
      have hcreated := hnot hreason
      rw [hsource.createFile] at hcreated
      cases hcreated
    | unlocked _ hrefuses => exact absurd hrefuses (Faults.not_refuses_none _)
    | stopped _ hstops =>
      cases hstops with
      | record hx hline =>
        obtain ⟨text, htext⟩ := hall _ hx
        rw [hline] at htext
        cases htext
      | append hrefuses => exact absurd hrefuses (Faults.not_refuses_none _)
      | flush hrefuses => exact absurd hrefuses (Faults.not_refuses_none _)

/-- In an empty directory a batch can be written under any plain name, such as this one. -/
theorem ready_emptyDirectory : Ready ⟨[], []⟩ (.ofString "leases.jsonl") where
  directory dir h := by
    have hnone : directory? (.ofString "leases.jsonl") = none := by decide
    rw [hnone] at h
    cases h
  temporary := ⟨["leases.jsonl.tmp".toList], ⟨[], _, rfl, rfl⟩, rfl, by decide⟩
  destination := ⟨["leases.jsonl".toList], ⟨[], _, rfl, rfl⟩, rfl, by decide⟩

/-! ### The whole write -/

theorem mem_directory? {dir : Path} (h : dir ∈ directory? p) :
    p.parent? = some dir ∧ ¬ dir.isEmpty := by
  obtain ⟨hparent, hne⟩ := Option.filter_eq_some_iff.mp h
  exact ⟨hparent, by simpa using hne⟩

/-- What a write has done before it comes to its files. -/
structure Prepared (w w₁ : World) (p : Path) : Prop where
  input : w₁.input = w.input
  opens : Opens w.tree w₁.tree p.ancestors
  idle : (∀ dir ∈ directory? p, w.tree.find dir = .ok .directory) → w₁ = w

/-- **A write creates the directories and replaces the file, unless it fails before.** -/
theorem exists_prepared_of_write
    (h : (writeWith line (.file p) batch : Faulty faults _).Yields w result w') :
    ∃ w₁, Prepared w w₁ p ∧
      ((∃ dir e, result = .error (.cannotCreateDirectory dir e) ∧ w' = w₁) ∨
        (∀ dir ∈ directory? p, w₁.tree.find dir = .ok .directory) ∧
          (replaceFile line p batch : Faulty faults _).Yields w₁ result w') := by
  unfold writeWith at h
  dsimp only at h
  split at h
  case h_1 hnone => exact ⟨w, ⟨rfl, .refl _ _, fun _ => rfl⟩, .inr ⟨by simp [hnone], h⟩⟩
  case h_2 dir hdir =>
    obtain ⟨hparent, hne⟩ := mem_directory? hdir
    obtain ⟨created, w₁, hcreated, h⟩ := h.bind
    have hcreates := Faulty.creates_of_createDirs hcreated
    have hopens : Opens w.tree w₁.tree p.ancestors := by
      rw [Path.ancestors_of_parent? hparent]
      exact hcreates.opens
    refine ⟨w₁, ⟨hcreates.input, hopens, fun hall => hcreates.idle (hall dir hdir)⟩, ?_⟩
    cases created with
    | error e =>
      obtain ⟨rfl, rfl⟩ := h.pure
      exact .inl ⟨dir, e, rfl, rfl⟩
    | ok u =>
      refine .inr ⟨fun q hq => ?_, h⟩
      obtain rfl : dir = q := Option.some.inj (hdir.symm.trans hq)
      exact hcreates.find hne

/-- A write that does not get as far as the files has changed nothing. -/
theorem eq_of_write {s : Source} {e : StoreError} (he : e.isWriteError = false)
    (h : (writeWith line s batch : Faulty faults _).Yields w (.error e) w') : w' = w := by
  cases s with
  | input =>
    obtain ⟨-, rfl⟩ := h.pure
    rfl
  | file p =>
    obtain ⟨w₁, -, ⟨dir, f, herror, -⟩ | ⟨-, hreplace⟩⟩ := exists_prepared_of_write h
    · obtain rfl := Except.error.inj herror
      cases he
    · rw [(replacement_of_yields hreplace).isWriteError] at he
      cases he

/-- What was written to is a file. -/
theorem ofString_eq_file {dest : String}
    (h : (writeWith line (.ofString dest) batch : Faulty faults _).Yields w (.ok ()) w') :
    Source.ofString dest = .file (.ofString dest) := by
  unfold Source.ofString at h ⊢
  split at h
  · obtain ⟨hresult, -⟩ := h.pure
    cases hresult
  · rename_i hdash
    rw [if_neg hdash]

/-- What was written is in the file. -/
theorem openRead_of_writeWith
    (h : (writeWith line (.file p) batch : Faulty faults _).Yields w (.ok ()) w') :
    w'.tree.openRead p = .ok (.file (Text.encode (linesOf line batch))) := by
  obtain ⟨w₁, -, ⟨dir, e, herror, -⟩ | ⟨-, hreplace⟩⟩ := exists_prepared_of_write h
  · cases herror
  · exact openRead_of_replaceFile hreplace

end LeaseOrder.Batch
