/-
What a destination holds when writing a batch has failed, and when it has not.

Before the last step a write creates directories that are missing and fills the temporary file
beside the destination.  The temporary file never has the name of the destination, so what the
destination holds is safe until the file is renamed, whatever is refused before.  Directories that
are created can only matter where a path climbs out of a directory that was missing: there it may
lead to one of them or to what was beside them all along, and nothing is written there either.
-/
import LeaseOrder.Proofs.Batch.Lines
import LeaseOrder.Proofs.Batch.Write

namespace LeaseOrder.Files.Tree

variable {t u v : Tree} {p q : Path} {source : Place} {bytes : Text.Bytes} {target : Target}
  {x : Entry}

/-! ### A file beside another one -/

/-- The tree is the same, or there is a temporary file for a destination in it. -/
def Staged (t u : Tree) (p : Path) : Prop :=
  u = t ∨ ∃ source bytes, Leads t (Batch.temporary p) source ∧ u = t.put source (.file bytes)

/-- Every path leads where it led. -/
theorem Staged.locate_iff (h : Staged t u p) :
    u.locate q = .ok target ↔ t.locate q = .ok target := by
  rcases h with rfl | ⟨source, bytes, hsource, rfl⟩
  · rfl
  · have hkeep := keepsDirs_put (.file bytes) hsource.ne_nil hsource.free
    exact ⟨(hsource.keepsDirs_of_put bytes).locate, hkeep.locate⟩

/-- The temporary file is not at the destination and not below it. -/
theorem Staged.entry? (h : Staged t u p) (hl : t.locate p = .ok target) {place : Place}
    (hplace : target.place <+: place) : u.entry? place = t.entry? place := by
  rcases h with rfl | ⟨source, bytes, hsource, rfl⟩
  · rfl
  · have hne : place ≠ source := by
      rintro rfl
      exact hsource.not_below (by decide) hl hplace
    rw [entry?_put t _ hsource.ne_nil, if_neg hne]

theorem Staged.find_iff (h : Staged t u p) : u.find p = .ok x ↔ t.find p = .ok x := by
  have hsame : ∀ {target : Target}, t.locate p = .ok target → u.find p = t.find p := fun hl =>
    find_congr hl (h.locate_iff.mpr hl) (h.entry? hl List.prefix_rfl)
  refine ⟨?_, ?_⟩
  · intro hx
    obtain ⟨target, hl, -⟩ := ok_of_bind hx
    rwa [← hsame (h.locate_iff.mp hl)]
  · intro hx
    obtain ⟨target, hl, -⟩ := ok_of_bind hx
    rwa [hsame hl]

theorem Staged.kept {created : Tree} {paths : List Path} (h : Staged created u p)
    (hl : created.locate p = .ok target) (hk : Kept t created paths target.place) :
    Kept t u paths target.place := by
  have hsame := h.entry? hl List.prefix_rfl
  rcases hk with hold | ⟨hnone, hnew, q, hq, above, habove, hplace⟩
  · exact .inl (hsame.trans hold)
  · exact .inr ⟨hnone, hsame.trans hnew, q, hq, above, h.locate_iff.mpr habove, hplace⟩

/-- Once it has been renamed, the temporary file is gone. -/
theorem find_temporary_of_replace (hp : Leads t (Batch.temporary p) source)
    (hr : (t.put source (.file bytes)).rename (Batch.temporary p) p = .ok v) :
    v.find (Batch.temporary p) = .error .notFound := by
  obtain ⟨gone, hgone, hgone'⟩ := (replaces hp hr).source
  obtain rfl : gone = source := hgone.unique hp
  obtain ⟨source', place, bytes', hsource', hfile, hplace, rfl⟩ := leads_of_rename hr
  obtain rfl : source' = gone := hsource'.unique (hp.after_put hp _)
  have hne : source' ≠ place := by
    rintro rfl
    obtain ⟨dir, name, hl, hplace'⟩ := hplace.named
    exact hsource'.not_below (by decide) hl (hplace' ▸ List.prefix_rfl)
  have hnone : entry? ((remove (t.put source' (.file bytes)) source').put place
      (.file bytes')) source' = none := by
    rw [entry?_put _ _ hplace.ne_nil, if_neg hne, entry?_remove _ hgone.ne_nil, if_pos rfl]
  obtain ⟨dir, last, hl, rfl⟩ := hgone'.named
  rw [find, hl]
  simp only [bind, Except.bind, hnone]

end LeaseOrder.Files.Tree

namespace LeaseOrder.Batch

open Files Files.Tree

variable {α : Type} {faults : Faults} {line : α → Except String String} {batch : List α}
  {t u : Tree} {w w' : World} {p : Path}

/-! ### A write that fails -/

/-- What a failed write may leave: directories, and the temporary file. -/
structure Abandoned (t u : Tree) (p : Path) : Prop where
  exists_created : ∃ created : Tree, Opens t created p.ancestors ∧
    ((∀ dir ∈ directory? p, t.find dir = .ok .directory) → created = t) ∧ Staged created u p

/-- The path climbs out of a directory that was missing and has been created. -/
structure Climbs (t u : Tree) (p : Path) : Prop where
  dots : ['.', '.'] ∈ p.steps
  created : ∃ dir ∈ directory? p, t.find dir ≠ .ok .directory ∧ u.find dir = .ok .directory

/-- What a destination is sure of when a write fails. -/
structure Spared (t u : Tree) (p : Path) : Prop where
  /-- What it led to it still leads to, and there and below it everything is as it was. -/
  held : ∀ x, t.find p = .ok x → u.find p = .ok x ∧ ∀ target, t.locate p = .ok target →
    u.locate p = .ok target ∧ ∀ place, target.place <+: place → u.entry? place = t.entry? place
  /-- If it led to nothing it leads to nothing, unless it climbs. -/
  absent : ∀ e, t.find p = .error e → (∃ e', u.find p = .error e') ∨ Climbs t u p
  /-- Where it leads now there is what was there before, or a directory that has been created
      because a path above it leads there. -/
  leads : ∀ target, u.locate p = .ok target → Kept t u p.ancestors target.place

/-- Directories that are created above a path without double dots leave nothing at its place. -/
theorem find_of_grows {created : Tree} {x : Files.Entry} (hwf : t.WellFormed)
    (hgrows : Grows t created ((t.start p).length + p.names.dropLast.length))
    (hplain : ['.', '.'] ∉ p.steps) (hx : created.find p = .ok x) : ∃ x', t.find p = .ok x' := by
  obtain ⟨target, hl, -⟩ := ok_of_bind hx
  have hstart : created.start p = t.start p := by rw [start, start, hgrows.current]
  cases hname : p.fileName? with
  | none =>
    rcases Path.names_of_fileName?_eq_none hname with hnil | hup
    · have hwalk : Walks t (t.start p) p.names (t.start p) := by
        rw [hnil]
        exact .stop _
      exact ⟨_, find_of_walks (locate_spec hl).1 hwalk⟩
    · exact absurd (List.mem_of_mem_filter (List.mem_of_getLast? hup)) hplain
  | some name =>
    refine ⟨x, find_of_plain hwf hgrows.current.symm hname hplain hl ?_ hx⟩
    rcases hgrows.entry target.place with hsame | ⟨-, -, hdeep⟩
    · exact hsame.symm
    · rw [place_eq_append hplain hname hl, hstart, (Path.names_of_fileName? hname).1] at hdeep
      simp only [List.length_append, List.length_dropLast, List.length_singleton] at hdeep
      omega

/-- What leads to something now and led to nothing climbs. -/
theorem Abandoned.climbs {e : FileError} {x : Files.Entry} (h : Abandoned t u p)
    (hwf : t.WellFormed) (he : t.find p = .error e) (hx : u.find p = .ok x) : Climbs t u p := by
  obtain ⟨created, hopens, hthere, hstaged⟩ := h.exists_created
  have hcreated := hstaged.find_iff.mp hx
  refine ⟨?_, ?_⟩
  · by_contra hplain
    have hgrows := hopens.grows fun _ => reach_of_mem_ancestors
    obtain ⟨x', hx'⟩ := find_of_grows hwf hgrows hplain hcreated
    rw [he] at hx'
    cases hx'
  · by_contra hnone
    have hdirs : ∀ dir ∈ directory? p, t.find dir = .ok .directory := by
      intro dir hdir
      by_contra hmissing
      obtain ⟨hparent, hne⟩ := mem_directory? hdir
      exact hnone ⟨dir, hdir, hmissing, find_of_parent? hparent hne hx⟩
    rw [hthere hdirs, he] at hcreated
    cases hcreated

/-- **A failed write spares its destination.** -/
theorem Abandoned.spared (h : Abandoned t u p) (hwf : t.WellFormed) : Spared t u p where
  held x hx := by
    obtain ⟨created, -, hthere, hstaged⟩ := h.exists_created
    obtain rfl : created = t := hthere fun dir hdir =>
      find_of_parent? (mem_directory? hdir).1 (mem_directory? hdir).2 hx
    exact ⟨hstaged.find_iff.mpr hx, fun target hl =>
      ⟨hstaged.locate_iff.mpr hl, fun place => hstaged.entry? hl⟩⟩
  absent e he := by
    cases hu : u.find p with
    | error e' => exact .inl ⟨e', rfl⟩
    | ok x => exact .inr (h.climbs hwf he hu)
  leads target hl := by
    obtain ⟨created, hopens, -, hstaged⟩ := h.exists_created
    exact hstaged.kept (hstaged.locate_iff.mp hl) (hopens.kept target.place)

theorem staged_of_replaceFile {e : StoreError}
    (h : (replaceFile line p batch : Faulty faults _).Yields w (.error e) w') :
    Staged w.tree w'.tree p := by
  cases replacement_of_yields h with
  | unwritten hwrites =>
    cases hwrites with
    | uncreated => exact .inl rfl
    | unlocked hp => exact .inr ⟨_, _, hp, rfl⟩
    | stopped hp => exact .inr ⟨_, _, hp, rfl⟩
  | unrenamed hp => exact .inr ⟨_, _, hp, rfl⟩

theorem abandoned_of_write {e : StoreError}
    (h : (writeWith line (.file p) batch : Faulty faults _).Yields w (.error e) w') :
    Abandoned w.tree w'.tree p := by
  obtain ⟨w₁, hprepared, ⟨dir, f, -, rfl⟩ | ⟨-, hreplace⟩⟩ := exists_prepared_of_write h
  · exact ⟨_, hprepared.opens, fun hall => congrArg World.tree (hprepared.idle hall), .inl rfl⟩
  · exact ⟨_, hprepared.opens, fun hall => congrArg World.tree (hprepared.idle hall),
      staged_of_replaceFile hreplace⟩

theorem Spared.refl (t : Tree) (p : Path) : Spared t t p where
  held _ hx := ⟨hx, fun _ hl => ⟨hl, fun _ _ => rfl⟩⟩
  absent e he := .inl ⟨e, he⟩
  leads _ _ := .inl rfl

/-- Also the standard input is spared, to which nothing can be written. -/
theorem spared_of_write {dest : String} {e : StoreError} (hwf : w.tree.WellFormed)
    (h : (writeWith line (.ofString dest) batch : Faulty faults _).Yields w (.error e) w') :
    Spared w.tree w'.tree (.ofString dest) := by
  rw [Source.ofString] at h
  split at h
  case isTrue =>
    obtain ⟨-, rfl⟩ := h.pure
    exact .refl _ _
  case isFalse => exact (abandoned_of_write h).spared hwf

/-! ### A write that comes to its end -/

variable [Record α]

/-- What a batch has been written to holds its lines, and the temporary file is gone. -/
structure Replaced (w' : World) (p : Path) (batch : List α) : Prop where
  openRead : w'.tree.openRead p = .ok (.file (Text.encode (print batch)))
  lines : lines (Text.decode (Text.encode (print batch))) =
    batch.map fun x => (Record.text x).toList.map some
  temporary : w'.tree.find (temporary p) = .error .notFound

theorem replaced_of_write [Record.Lawful α] {dest : String}
    (h : (write (.ofString dest) batch : Faulty faults _).Yields w (.ok ()) w') :
    Replaced w' (.ofString dest) batch := by
  unfold write at h
  rw [ofString_eq_file h] at h
  obtain ⟨w₁, -, ⟨dir, e, herror, -⟩ | ⟨-, hreplace⟩⟩ := exists_prepared_of_write h
  · cases herror
  · have hopen := openRead_of_replaceFile hreplace
    rw [linesOf_recordLine] at hopen
    refine ⟨hopen, lines_print batch, ?_⟩
    cases replacement_of_yields hreplace with
    | renamed hp _ hr => exact find_temporary_of_replace hp hr

end LeaseOrder.Batch
