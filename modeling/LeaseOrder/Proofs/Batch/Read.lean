/-
What comes of reading a batch, whatever is refused.

Reading changes nothing.  It ends with the records that the tree has for the source, or with an
error: what was read only in part is never taken for the whole.  The records that are read are
valid.
-/
import LeaseOrder.Batch.Store
import LeaseOrder.Proofs.Batch.Lines
import LeaseOrder.Proofs.Files.Faulty

namespace LeaseOrder.Batch

open Files

variable {α : Type} [Record α] {faults : Faults} {w w' : World} {s : Source} {p : Path}
  {c : Contents} {batch : List α} {result : Except StoreError (List α)}

/-- The error comes from writing a batch to a file. -/
def StoreError.isWriteError : StoreError → Bool
  | .cannotCreateDirectory _ _ | .cannotCreateTemporary _ _ | .cannotLockTemporary _
  | .cannotEncode _ | .cannotWriteRecord _ | .cannotFlush _ | .cannotRename _ _ _ => true
  | _ => false

/-! ### Contents -/

theorem parse_of_parseContents (h : parseContents c = .ok batch) : parse c.bytes = .ok batch := by
  unfold parseContents at h
  split at h
  · exact h
  · obtain ⟨_, -, h⟩ := ok_of_bind h
    cases h

/-- What was read only in part is not taken for the whole. -/
theorem exists_error_of_stopped (bytes : Text.Bytes) (e : FileError) :
    ∃ f, (parseContents ⟨bytes, some e⟩ : Except ReadFault (List α)) = .error f := by
  cases h : (parseContents ⟨bytes, some e⟩ : Except ReadFault (List α)) with
  | error f => exact ⟨f, rfl⟩
  | ok batch =>
    unfold parseContents at h
    obtain ⟨_, -, h⟩ := ok_of_bind h
    cases h

/-! ### Reading a source -/

/-- What there is to read of a source, if it can be opened. -/
def contentsOf (w : World) : Source → Except FileError Contents
  | .input => .ok ⟨w.input, none⟩
  | .file p => (w.tree.openRead p).map Opened.read

/-- What comes of reading a source. -/
inductive Reads (w : World) (s : Source) : Except StoreError (List α) → Prop
  | unread {e : StoreError} (h : e.isWriteError = false) : Reads w s (.error e)
  | read {c : Contents} (hc : contentsOf w s = .ok c) :
      Reads w s ((parseContents c).mapError (.cannotRead s))

theorem reads_of_readContents (hc : contentsOf w s = .ok c) {got : Contents}
    (h : (Faulty.readContents c : Faulty faults _).Yields w got w') :
    Reads (α := α) w s ((parseContents got).mapError (.cannotRead s)) ∧ w = w' := by
  obtain ⟨rfl, rfl | ⟨bytes, e, rfl⟩⟩ := Faulty.readContents_cases h
  · exact ⟨.read hc, rfl⟩
  · obtain ⟨f, hf⟩ := exists_error_of_stopped (α := α) bytes e
    rw [hf]
    exact ⟨.unread rfl, rfl⟩

/-- **Reading changes nothing, and gives what there is or an error.** -/
theorem reads_of_yields (h : (read s : Faulty faults _).Yields w result w') :
    Reads w s result ∧ w = w' := by
  unfold read at h
  cases s with
  | input =>
    obtain ⟨got, w₁, hread, h⟩ := h.bind
    obtain ⟨rfl, rfl⟩ := h.pure
    exact reads_of_readContents rfl (Faulty.readContents_of_readInput hread)
  | file p =>
    obtain ⟨opened, w₁, hopen, h⟩ := h.bind
    obtain ⟨rfl, rfl | ⟨e, -, rfl⟩⟩ := Faulty.answer_cases hopen
    · cases hfile : w.tree.openRead p with
      | error e =>
        rw [hfile] at h
        obtain ⟨rfl, rfl⟩ := h.pure
        exact ⟨.unread rfl, rfl⟩
      | ok file =>
        rw [hfile] at h
        obtain ⟨locked, w₂, hlock, h⟩ := h.bind
        obtain ⟨rfl, rfl | ⟨e, -, rfl⟩⟩ := Faulty.answer_cases hlock
        · obtain ⟨got, w₃, hread, h⟩ := h.bind
          obtain ⟨rfl, rfl⟩ := h.pure
          exact reads_of_readContents (by rw [contentsOf, hfile]; rfl) hread
        · obtain ⟨rfl, rfl⟩ := h.pure
          exact ⟨.unread rfl, rfl⟩
    · obtain ⟨rfl, rfl⟩ := h.pure
      exact ⟨.unread rfl, rfl⟩

theorem Reads.not_isWriteError {e : StoreError} (h : Reads (α := α) w s (.error e)) :
    e.isWriteError = false := by
  generalize hresult : (.error e : Except StoreError (List α)) = result at h
  cases h with
  | unread he =>
    obtain rfl := Except.error.inj hresult
    exact he
  | @read c =>
    cases hparse : (parseContents c : Except ReadFault (List α)) with
    | error f =>
      rw [hparse] at hresult
      obtain rfl := Except.error.inj hresult
      rfl
    | ok batch =>
      rw [hparse] at hresult
      cases hresult

/-! ### The reliable system -/

/-- What is read of a source where nothing is refused. -/
def records (α : Type) [Record α] (w : World) (s : Source) : Except StoreError (List α) :=
  ((read s : StateM World (Except StoreError (List α))).run w).1

theorem run_read_eq :
    (read s : StateM World (Except StoreError (List α))).run w = (records α w s, w) := by
  rcases hrun : (read s : Faulty .none (Except StoreError (List α))).run w with ⟨result, w'⟩
  obtain ⟨-, rfl⟩ := reads_of_yields (Faulty.yields_none_iff.mpr hrun)
  have hsame : ((read s : Faulty .none (Except StoreError (List α))).run w).2 = w := by
    rw [hrun]
  exact Prod.ext rfl hsame

theorem run_read {contents : Text.Bytes} (h : w.tree.openRead p = .ok (.file contents)) :
    (read (.file p) : StateM World (Except StoreError (List α))).run w =
      ((parse contents).mapError (.cannotRead (.file p)), w) := by
  unfold read
  dsimp only
  rw [World.run_bind_of World.run_openRead, h]
  rfl

theorem records_of_contentsOf (hc : contentsOf w s = .ok c) :
    records α w s = (parseContents c).mapError (.cannotRead s) := by
  cases s with
  | input =>
    obtain rfl := Except.ok.inj hc
    rfl
  | file p =>
    obtain ⟨file, hfile, rfl⟩ := ok_of_map hc
    unfold records read
    dsimp only
    rw [World.run_bind_of World.run_openRead, hfile]
    rfl

/-- What is read in spite of faults is what is read without them. -/
theorem Reads.records_eq (h : Reads w s (.ok batch)) : records α w s = .ok batch := by
  generalize hresult : (.ok batch : Except StoreError (List α)) = result at h
  cases h with
  | unread => cases hresult
  | read hc => rw [records_of_contentsOf hc, ← hresult]

/-- **What has been read is valid.** -/
theorem valid_of_records [Record.Lawful α] (h : records α w s = .ok batch) :
    ∀ x ∈ batch, Record.Lawful.Valid x := by
  have hrun : (read s : Faulty .none (Except StoreError (List α))).run w = (.ok batch, w) := by
    rw [← h]
    exact run_read_eq
  have hreads := (reads_of_yields (Faulty.yields_none_iff.mpr hrun)).1
  generalize hresult : (.ok batch : Except StoreError (List α)) = result at hreads
  cases hreads with
  | unread => cases hresult
  | read => exact valid_of_parse (parse_of_parseContents (ok_of_mapError hresult.symm))

end LeaseOrder.Batch
