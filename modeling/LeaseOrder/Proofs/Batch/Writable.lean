/-
Where a batch can be written.

The records of a batch have no say in whether it can be written: they only come into the
contents of the temporary file, and every step before and after depends on names alone.  So a
place is writable if an empty batch can be written there.  A batch that has been written leaves
its directory and both names as they have to be, so the next batch can be written over it.
-/
import LeaseOrder.Proofs.Batch.Store

namespace LeaseOrder.Batch

open Files

/-- Batches can be written to this source, as an empty one can be. -/
def Writable (w : World) (s : Source) : Prop :=
  ∃ w', (write s ([] : List Lease) : StateM World _).run w = (.ok (), w')

variable {α : Type} [Record α] {w w' : World} {p : Path} {s : Source} {batch : List α}

theorem ready_of_replaces {t u : Tree} (h : t.Replaces (temporary p) p u)
    (hdir : ∀ dir ∈ directory? p, t.find dir = .ok .directory) : Ready t p ∧ Ready u p := by
  obtain ⟨source, hsource, hsource'⟩ := h.source
  obtain ⟨place, hplace, hplace'⟩ := h.destination
  exact ⟨⟨hdir, ⟨source, hsource⟩, ⟨place, hplace⟩⟩,
    fun dir hmem => h.keepsDirs.find (hdir dir hmem), ⟨source, hsource'⟩, ⟨place, hplace'⟩⟩

/-- What a write does before it comes to its files does not depend on the batch. -/
theorem exists_ready_of_write (h : (write (.file p) batch : StateM World _).run w = (.ok (), w')) :
    ∃ w₁, Ready w₁.tree p ∧ Ready w'.tree p ∧
      ∀ {β : Type} [Record β] (other : List β),
        (write (.file p) other : StateM World _).run w =
          (replaceFile recordLine p other : StateM World _).run w₁ := by
  have hready : ∀ {w₁ : World}, (∀ dir ∈ directory? p, w₁.tree.find dir = .ok .directory) →
      (replaceFile recordLine p batch : StateM World _).run w₁ = (.ok (), w') →
      Ready w₁.tree p ∧ Ready w'.tree p := by
    intro w₁ hdirs hrun
    exact ready_of_replaces (replaces_of_replaceFile (Faulty.yields_none_iff.mpr hrun)) hdirs
  cases hdir : directory? p with
  | none =>
    have hwrite : ∀ {β : Type} [Record β] (other : List β),
        (write (.file p) other : StateM World _) = replaceFile recordLine p other := by
      intro β _ other
      unfold write writeWith
      simp only [hdir]
    rw [hwrite] at h
    obtain ⟨hbefore, hafter⟩ := hready (by simp [hdir]) h
    exact ⟨w, hbefore, hafter, fun other => by rw [hwrite]⟩
  | some dir =>
    rcases hcreated : (createDirs dir : StateM World _).run w with ⟨created, w₁⟩
    cases created with
    | error e =>
      unfold write writeWith at h
      simp only [hdir] at h
      rw [World.run_bind_of hcreated] at h
      cases h
    | ok u =>
      have hwrite : ∀ {β : Type} [Record β] (other : List β),
          (write (.file p) other : StateM World _).run w =
            (replaceFile recordLine p other : StateM World _).run w₁ := by
        intro β _ other
        unfold write writeWith
        simp only [hdir]
        rw [World.run_bind_of hcreated]
      have hfind : ∀ q ∈ directory? p, w₁.tree.find q = .ok .directory := by
        intro q hq
        obtain rfl : dir = q := Option.some.inj (hdir.symm.trans hq)
        have hcreates := Faulty.creates_of_createDirs (Faulty.yields_none_iff.mpr hcreated)
        exact hcreates.find (mem_directory? hdir).2
      rw [hwrite] at h
      obtain ⟨hbefore, hafter⟩ := hready hfind h
      exact ⟨w₁, hbefore, hafter, hwrite⟩

theorem writable_of_ready (h : Ready w.tree p) : Writable w (.file p) :=
  exists_write h []

theorem exists_write_of_run {w₁ : World} (h : Ready w₁.tree p) (other : List α)
    (hrun : (write (.file p) other : StateM World _).run w =
      (replaceFile recordLine p other : StateM World _).run w₁) :
    ∃ w', (write (.file p) other : StateM World _).run w = (.ok (), w') := by
  rw [hrun, ← run_write h]
  exact exists_write h other

/-- **Where one batch has been written every batch can be, both before and after.** -/
theorem writable_of_write (h : (write s batch : StateM World _).run w = (.ok (), w')) :
    Writable w s ∧ Writable w' s := by
  cases s with
  | input => cases h
  | file p =>
    obtain ⟨w₁, hready, hready', hwrite⟩ := exists_ready_of_write h
    exact ⟨exists_write_of_run hready [] (hwrite []), writable_of_ready hready'⟩

/-- What was written to is a file, since nothing can be written to the standard input. -/
theorem eq_file_of_write {dest : String}
    (h : (write (.ofString dest) batch : StateM World _).run w = (.ok (), w')) :
    Source.ofString dest = .file (.ofString dest) :=
  ofString_eq_file (Faulty.yields_none_iff.mpr h)

theorem openRead_of_write {dest : String}
    (h : (write (.ofString dest) batch : StateM World _).run w = (.ok (), w')) :
    w'.tree.openRead (.ofString dest) = .ok (.file (Text.encode (print batch))) := by
  rw [eq_file_of_write h] at h
  exact openRead_of_write_file h

theorem Writable.exists_write {dest : String} (h : Writable w (.ofString dest)) (batch : List α) :
    ∃ w', (write (.ofString dest) batch : StateM World _).run w = (.ok (), w') := by
  obtain ⟨w₀, h⟩ := h
  have hfile := eq_file_of_write h
  rw [hfile] at h ⊢
  obtain ⟨w₁, hready, -, hwrite⟩ := exists_ready_of_write h
  exact exists_write_of_run hready batch (hwrite batch)

end LeaseOrder.Batch
