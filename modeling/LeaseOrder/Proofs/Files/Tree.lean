/-
What a file system in memory holds after each operation.

A path is walked through directories only, so it leads to the same place in every tree
that still has those directories.  Putting a file where one can be and renaming it take no
directory away.  So what was put under one name and renamed is found under the other.
-/
import LeaseOrder.Files.Tree
import LeaseOrder.Proofs.Outcome

namespace LeaseOrder.Files

/-- The system takes the text of the path. -/
structure Path.Sound (p : Path) : Prop where
  no_nul : '\x00' ∉ p.text.toList
  nonempty : ¬ p.isEmpty
  size_le : Tree.size p.text.toList ≤ Tree.maxPath

namespace Tree

/-! ### Entries -/

theorem entry?_of_ne_nil (t : Tree) {q : Place} (h : q ≠ []) :
    t.entry? q = (t.entries.find? fun e => e.1 == q).map (·.2) := by
  unfold entry?
  rw [if_neg h]

theorem find?_filter_ne (entries : List (Place × Entry)) (p q : Place) :
    (entries.filter fun x => x.1 ≠ p).find? (fun e => e.1 == q) =
      if q = p then none else entries.find? fun e => e.1 == q := by
  split
  · rename_i h
    subst h
    simp [List.find?_eq_none]
  · rename_i h
    rw [List.find?_filter]
    congr 1
    funext x
    by_cases hx : x.1 = q
    · subst hx
      simp [h]
    · simp [hx]

theorem entry?_remove (t : Tree) {p : Place} (hp : p ≠ []) (q : Place) :
    entry? (t.remove p) q = if q = p then none else t.entry? q := by
  by_cases hq : q = []
  · subst hq
    rw [if_neg hp.symm]
    rfl
  · rw [entry?_of_ne_nil _ hq, entry?_of_ne_nil t hq, remove, find?_filter_ne]
    split <;> rfl

theorem entry?_put (t : Tree) (e : Entry) {p : Place} (hp : p ≠ []) (q : Place) :
    entry? (t.put p e) q = if q = p then some e else t.entry? q := by
  by_cases hq : q = []
  · subst hq
    rw [if_neg hp.symm]
    rfl
  · rw [entry?_of_ne_nil _ hq, entry?_of_ne_nil t hq, put, List.find?_append, find?_filter_ne]
    by_cases hqp : q = p
    · subst hqp
      simp
    · have hpq : (p == q) = false := by simpa using Ne.symm hqp
      simp [hqp, hpq]

@[simp] theorem entry?_put_self (t : Tree) (e : Entry) {p : Place} (hp : p ≠ []) :
    entry? (t.put p e) p = some e := by
  rw [entry?_put t e hp, if_pos rfl]

/-- What was put first is gone. -/
@[simp] theorem put_put (t : Tree) (e e' : Entry) (p : Place) :
    (t.put p e).put p e' = t.put p e' := by
  simp [put, List.filter_append, List.filter_filter]

/-- Rewriting a file that was put there is putting another one. -/
@[simp] theorem rewrite_put (t : Tree) (bytes : Text.Bytes) (f : Text.Bytes → Text.Bytes)
    {p : Place} (hp : p ≠ []) : (t.put p (.file bytes)).rewrite p f = t.put p (.file (f bytes)) := by
  simp [rewrite, hp]

/-! ### Walking -/

/-- All directories of the one tree are directories of the other. -/
structure KeepsDirs (t u : Tree) : Prop where
  current : u.current = t.current
  directory : ∀ {q : Place}, t.entry? q = some .directory → u.entry? q = some .directory

variable {t u v : Tree} {p q : Path}

theorem KeepsDirs.trans (h₁ : KeepsDirs t u) (h₂ : KeepsDirs u v) : KeepsDirs t v :=
  ⟨h₂.current.trans h₁.current, fun h => h₂.directory (h₁.directory h)⟩

/-- A change at one place keeps the directories, unless it is at a directory. -/
theorem keepsDirs_of_ne {place : Place} (hcurrent : u.current = t.current)
    (h : t.entry? place ≠ some .directory) (hne : ∀ q, q ≠ place → u.entry? q = t.entry? q) :
    KeepsDirs t u := by
  refine ⟨hcurrent, fun {q} hq => ?_⟩
  have hqp : q ≠ place := by
    rintro rfl
    exact h hq
  rw [hne q hqp, hq]

theorem keepsDirs_put {place : Place} (e : Entry) (hplace : place ≠ [])
    (h : t.entry? place ≠ some .directory) : KeepsDirs t (t.put place e) := by
  refine keepsDirs_of_ne rfl h fun q hq => ?_
  rw [entry?_put t e hplace, if_neg hq]

theorem keepsDirs_remove {place : Place} (hplace : place ≠ [])
    (h : t.entry? place ≠ some .directory) : KeepsDirs t (t.remove place) := by
  refine keepsDirs_of_ne rfl h fun q hq => ?_
  rw [entry?_remove t hplace, if_neg hq]

/-- A walk that comes to its end. -/
inductive Walks (t : Tree) : Place → List (List Char) → Place → Prop
  | stop (place : Place) : Walks t place [] place
  | stay {place dir : Place} {names : List (List Char)} (h : Walks t place names dir) :
      Walks t place (['.'] :: names) dir
  | up {place dir : Place} {names : List (List Char)} (h : Walks t place.dropLast names dir) :
      Walks t place (['.', '.'] :: names) dir
  | down {place dir : Place} {name : List Char} {names : List (List Char)} (hdot : name ≠ ['.'])
      (hup : name ≠ ['.', '.']) (hsize : size name ≤ maxName)
      (hdir : t.entry? (place ++ [name]) = some .directory)
      (h : Walks t (place ++ [name]) names dir) : Walks t place (name :: names) dir

theorem walk_eq_ok_iff {place dir : Place} {names : List (List Char)} :
    t.walk place names = .ok dir ↔ Walks t place names dir := by
  refine ⟨?_, ?_⟩
  · intro h
    induction names generalizing place with
    | nil =>
      rw [Tree.walk] at h
      obtain rfl := Except.ok.inj h
      exact .stop place
    | cons name names ih =>
      rw [Tree.walk] at h
      split at h
      case isTrue hdot => exact hdot ▸ .stay (ih h)
      case isFalse hdot =>
        split at h
        case isTrue hup => exact hup ▸ .up (ih h)
        case isFalse hup =>
          split at h
          case isTrue => cases h
          case isFalse hsize =>
            split at h
            case h_1 => cases h
            case h_2 => cases h
            case h_3 hdir => exact .down hdot hup (Nat.not_lt.mp hsize) hdir (ih h)
  · intro h
    induction h with
    | stop place => rfl
    | stay _ ih => rw [Tree.walk, if_pos rfl, ih]
    | up _ ih => rw [Tree.walk, if_neg (by decide), if_pos rfl, ih]
    | down hdot hup hsize hdir _ ih =>
      rw [Tree.walk, if_neg hdot, if_neg hup, if_neg (Nat.not_lt.mpr hsize), hdir]
      exact ih

theorem KeepsDirs.walks (h : KeepsDirs t u) {place dir : Place} {names : List (List Char)}
    (hw : Walks t place names dir) : Walks u place names dir := by
  induction hw with
  | stop place => exact .stop place
  | stay _ ih => exact .stay ih
  | up _ ih => exact .up ih
  | down hdot hup hsize hdir _ ih => exact .down hdot hup hsize (h.directory hdir) ih

/-- The place where a path starts. -/
def start (t : Tree) (p : Path) : Place :=
  if p.rooted then [] else t.current

/-- What the last step of a path leads to from the directory that the other steps lead to. -/
inductive Ends (dir : Place) : Option (List Char) → Target → Prop
  | start : Ends dir none (.directory dir)
  | stay : Ends dir (some ['.']) (.directory dir)
  | up : Ends dir (some ['.', '.']) (.directory dir.dropLast)
  | down {name : List Char} (hdot : name ≠ ['.']) (hup : name ≠ ['.', '.'])
      (hsize : size name ≤ maxName) : Ends dir (some name) (.name dir name)

/-- A path leads to where its steps lead, if the system takes its text. -/
theorem locate_eq_ok_iff {target : Target} :
    t.locate p = .ok target ↔ p.Sound ∧ ∃ dir, Walks t (t.start p) p.steps.dropLast dir ∧
      Ends dir p.steps.getLast? target := by
  refine ⟨?_, ?_⟩
  · intro h
    unfold locate at h
    split at h
    · cases h
    rename_i hnul
    split at h
    · cases h
    rename_i hempty
    split at h
    · cases h
    rename_i hsize
    obtain ⟨dir, hdir, h⟩ := ok_of_bind h
    have hwalk : Walks t (t.start p) p.steps.dropLast dir := walk_eq_ok_iff.mp hdir
    refine ⟨⟨by simpa using hnul, hempty, Nat.not_lt.mp hsize⟩, dir, hwalk, ?_⟩
    split at h
    case h_1 hnone =>
      rw [List.getLast?_eq_none_iff.mp hnone] at hwalk ⊢
      cases hwalk
      rw [← Except.ok.inj h]
      exact .start
    case h_2 last hlast =>
      rw [hlast]
      split at h
      case isTrue hdot => exact Except.ok.inj h ▸ hdot ▸ .stay
      case isFalse hdot =>
        split at h
        case isTrue hup => exact Except.ok.inj h ▸ hup ▸ .up
        case isFalse hup =>
          split at h
          case isTrue => cases h
          case isFalse hle => exact Except.ok.inj h ▸ .down hdot hup (Nat.not_lt.mp hle)
  · rintro ⟨hsound, dir, hwalk, hends⟩
    have hdir := walk_eq_ok_iff.mpr hwalk
    rw [start] at hdir
    rw [locate, if_neg (by simpa using hsound.no_nul), if_neg hsound.nonempty,
      if_neg (Nat.not_lt.mpr hsound.size_le)]
    dsimp only
    rw [hdir]
    cases hlast : p.steps.getLast? with
    | none =>
      rw [List.getLast?_eq_none_iff.mp hlast] at hwalk
      rw [hlast] at hends
      cases hends
      cases hwalk
      rfl
    | some last =>
      rw [hlast] at hends
      cases hends with
      | stay => rfl
      | up => rfl
      | down hdot hup hsize =>
        simp only [bind, Except.bind, if_neg hdot, if_neg hup, if_neg (Nat.not_lt.mpr hsize)]
        rfl

/-- A path leads to the same in every tree in which its directory is found at the same place. -/
theorem locate_of_walks (hcurrent : u.current = t.current)
    (hwalk : ∀ dir, Walks t (t.start p) p.steps.dropLast dir →
      Walks u (t.start p) p.steps.dropLast dir) {target : Target}
    (hl : t.locate p = .ok target) : u.locate p = .ok target := by
  have hstart : u.start p = t.start p := by rw [start, start, hcurrent]
  rw [locate_eq_ok_iff] at hl ⊢
  obtain ⟨hsound, dir, hdir, hends⟩ := hl
  exact ⟨hsound, dir, hstart ▸ hwalk dir hdir, hends⟩

theorem KeepsDirs.locate (h : KeepsDirs t u) {target : Target} (hl : t.locate p = .ok target) :
    u.locate p = .ok target :=
  locate_of_walks h.current (fun _ hw => h.walks hw) hl

/-- A name under which a directory is found is that of a directory. -/
theorem entry?_of_find {dir : Place} {name : List Char} (hl : t.locate p = .ok (.name dir name))
    (h : t.find p = .ok .directory) : t.entry? (dir ++ [name]) = some .directory := by
  unfold Tree.find at h
  rw [hl] at h
  simp only [bind, Except.bind] at h
  split at h
  · cases h
  · assumption
  · split at h <;> cases h

theorem find_of_entry? {dir : Place} {name : List Char} (hl : t.locate p = .ok (.name dir name))
    (h : t.entry? (dir ++ [name]) = some .directory) : t.find p = .ok .directory := by
  unfold Tree.find
  rw [hl]
  simp only [bind, Except.bind, h]
  rfl

theorem KeepsDirs.find (h : KeepsDirs t u) (hfind : t.find p = .ok .directory) :
    u.find p = .ok .directory := by
  obtain ⟨target, hl, -⟩ := ok_of_bind hfind
  cases target with
  | directory d =>
    unfold Tree.find
    rw [h.locate hl]
    rfl
  | name dir name => exact find_of_entry? (h.locate hl) (h.directory (entry?_of_find hl hfind))

/-! ### Writing and renaming -/

/-- The path is that of a file, old or new, at this place. -/
structure Leads (t : Tree) (p : Path) (place : Place) : Prop where
  named : ∃ dir name, t.locate p = .ok (.name dir name) ∧ place = dir ++ [name]
  plain : p.endsInSlash = false
  free : t.entry? place ≠ some .directory

variable {place : Place} {bytes : Text.Bytes}

theorem Leads.ne_nil (h : Leads t p place) : place ≠ [] := by
  obtain ⟨dir, name, -, rfl⟩ := h.named
  simp

/-- No file can be where there is a directory. -/
theorem Leads.find_ne_directory (h : Leads t p place) : t.find p ≠ .ok .directory := by
  obtain ⟨dir, name, hl, rfl⟩ := h.named
  intro hfind
  rw [find, hl] at hfind
  dsimp only [bind, Except.bind] at hfind
  split at hfind
  · cases hfind
  · exact h.free ‹_›
  · split at hfind <;> cases hfind

theorem Leads.keep (h : Leads t p place) (hk : KeepsDirs t u)
    (hfree : u.entry? place ≠ some .directory) : Leads u p place := by
  obtain ⟨dir, name, hl, hplace⟩ := h.named
  exact ⟨⟨dir, name, hk.locate hl, hplace⟩, h.plain, hfree⟩

theorem Leads.unique {place' : Place} (h : Leads t p place) (h' : Leads t p place') :
    place = place' := by
  obtain ⟨dir, name, hl, rfl⟩ := h.named
  obtain ⟨dir', name', hl', rfl⟩ := h'.named
  rw [hl] at hl'
  cases hl'
  rfl

theorem Leads.createFile (h : Leads t p place) :
    t.createFile p = .ok (place, t.put place (.file [])) := by
  obtain ⟨dir, name, hl, rfl⟩ := h.named
  unfold Tree.createFile
  rw [hl]
  show (if p.endsInSlash then _ else _) = _
  rw [if_neg (by simp [h.plain])]
  split
  · exact absurd ‹_› h.free
  · rfl

theorem leads_of_createFile (h : t.createFile p = .ok (place, u)) :
    Leads t p place ∧ u = t.put place (.file []) := by
  obtain ⟨target, hl, h⟩ := ok_of_bind h
  cases target with
  | directory d => cases h
  | name dir name =>
    simp only at h
    split at h
    · cases h
    rename_i hslash
    split at h
    · cases h
    rename_i hdir
    obtain ⟨rfl, rfl⟩ := Prod.mk.inj (Except.ok.inj h)
    exact ⟨⟨⟨dir, name, hl, rfl⟩, by simpa using hslash, hdir⟩, rfl⟩

theorem Leads.rename {source : Place} (hp : Leads t p source)
    (hfile : t.entry? source = some (.file bytes)) (hq : Leads t q place) :
    t.rename p q = .ok ((t.remove source).put place (.file bytes)) := by
  obtain ⟨dir, name, hl, rfl⟩ := hp.named
  obtain ⟨dir', name', hl', rfl⟩ := hq.named
  unfold Tree.rename
  rw [hl, hl']
  simp only [bind, Except.bind, hfile]
  simp [hp.plain, hq.plain, hq.free]
  rfl

theorem leads_of_rename (h : t.rename p q = .ok u) :
    ∃ source place bytes, Leads t p source ∧ t.entry? source = some (.file bytes) ∧
      Leads t q place ∧ u = (t.remove source).put place (.file bytes) := by
  obtain ⟨target, hp, h⟩ := ok_of_bind h
  obtain ⟨target', hq, h⟩ := ok_of_bind h
  cases target with
  | directory d => cases target' <;> cases h
  | name dir name =>
    cases target' with
    | directory d => cases h
    | name dir' name' =>
      simp only at h
      split at h
      · cases h
      · cases h
      rename_i bytes hfile
      split at h
      · cases h
      rename_i hslash
      split at h
      · cases h
      rename_i hfree
      simp only [Bool.or_eq_true, not_or, Bool.not_eq_true] at hslash
      refine ⟨dir ++ [name], dir' ++ [name'], bytes, ⟨⟨dir, name, hp, rfl⟩, hslash.1, ?_⟩, hfile,
        ⟨⟨dir', name', hq, rfl⟩, hslash.2, hfree⟩, ?_⟩
      · simp [hfile]
      · cases h
        rfl

theorem Leads.openRead (h : Leads t p place)
    (hfile : t.entry? place = some (.file bytes)) : t.openRead p = .ok (.file bytes) := by
  obtain ⟨dir, name, hl, rfl⟩ := h.named
  have hfind : t.find p = .ok (.file bytes) := by
    unfold Tree.find
    rw [hl]
    simp only [bind, Except.bind, hfile]
    simp [h.plain]
    rfl
  rw [Tree.openRead, hfind]
  rfl

/-- The destination holds what the source held. -/
theorem openRead_of_rename (h : t.rename p q = .ok u) :
    ∃ source bytes, Leads t p source ∧ t.entry? source = some (.file bytes) ∧
      u.openRead q = .ok (.file bytes) := by
  obtain ⟨source, place, bytes, hp, hfile, hq, rfl⟩ := leads_of_rename h
  refine ⟨source, bytes, hp, hfile, ?_⟩
  have hremoved : entry? (t.remove source) place ≠ some .directory := by
    rw [entry?_remove t hp.ne_nil]
    split
    · simp
    · exact hq.free
  have hkeep := (keepsDirs_remove hp.ne_nil hp.free).trans
    (keepsDirs_put (.file bytes) hq.ne_nil hremoved)
  have hput := entry?_put_self (t.remove source) (.file bytes) hq.ne_nil
  exact (hq.keep hkeep (by simp [hput])).openRead hput

/-! ### Putting a file under one path and renaming it to another -/

variable {source : Place}

theorem Leads.keepsDirs (hp : Leads t p source) (bytes : Text.Bytes) :
    KeepsDirs t (t.put source (.file bytes)) :=
  keepsDirs_put _ hp.ne_nil hp.free

theorem Leads.after_put (hp : Leads t p source) (hq : Leads t q place)
    (bytes : Text.Bytes) : Leads (t.put source (.file bytes)) q place := by
  refine hq.keep (hp.keepsDirs bytes) ?_
  rw [entry?_put t _ hp.ne_nil]
  split
  · simp
  · exact hq.free

theorem Leads.openRead_put (hp : Leads t p source) (bytes : Text.Bytes) :
    (t.put source (.file bytes)).openRead p = .ok (.file bytes) :=
  (hp.after_put hp bytes).openRead (entry?_put_self t _ hp.ne_nil)

theorem openRead_of_rename_put (hp : Leads t p source)
    (hr : (t.put source (.file bytes)).rename p q = .ok v) :
    v.openRead q = .ok (.file bytes) := by
  obtain ⟨source', bytes', hsource, hfile, hopen⟩ := openRead_of_rename hr
  obtain rfl : source' = source := hsource.unique (hp.after_put hp _)
  rw [entry?_put_self t _ hp.ne_nil] at hfile
  obtain rfl : bytes = bytes' := by simpa using hfile
  exact hopen

/-- A file that is put is no directory, so every directory was there before. -/
theorem Leads.keepsDirs_of_put (hp : Leads t p source) (bytes : Text.Bytes) :
    KeepsDirs (t.put source (.file bytes)) t := by
  refine ⟨rfl, fun {d} hd => ?_⟩
  rw [entry?_put t _ hp.ne_nil] at hd
  split at hd
  · cases hd
  · exact hd

theorem Leads.before_put (hp : Leads t p source)
    (hq : Leads (t.put source (.file bytes)) q place) : Leads t q place := by
  refine hq.keep (hp.keepsDirs_of_put bytes) fun hfree => hq.free ?_
  have hne : place ≠ source := by
    rintro rfl
    exact hp.free hfree
  rw [entry?_put t _ hp.ne_nil, if_neg hne, hfree]

/-- What is there after a file has been put somewhere and renamed. -/
structure Replaces (t : Tree) (p q : Path) (v : Tree) : Prop where
  source : ∃ place, Leads t p place ∧ Leads v p place
  destination : ∃ place, Leads t q place ∧ Leads v q place
  keepsDirs : KeepsDirs t v

theorem replaces (hp : Leads t p source)
    (hr : (t.put source (.file bytes)).rename p q = .ok v) : Replaces t p q v := by
  obtain ⟨source', place, bytes', hp', hfile, hq, rfl⟩ := leads_of_rename hr
  obtain rfl : source' = source := hp'.unique (hp.after_put hp _)
  have hremoved : entry? (remove (t.put source' (.file bytes)) source') place ≠
      some .directory := by
    rw [entry?_remove _ hp.ne_nil]
    split
    · simp
    · exact hq.free
  have hkeep := (keepsDirs_remove hp'.ne_nil hp'.free).trans
    (keepsDirs_put (.file bytes') hq.ne_nil hremoved)
  refine ⟨⟨source', hp, hp'.keep hkeep ?_⟩, ⟨place, hp.before_put hq, hq.keep hkeep ?_⟩,
    (hp.keepsDirs bytes).trans hkeep⟩
  · rw [entry?_put _ _ hq.ne_nil, entry?_remove _ hp.ne_nil, if_pos rfl]
    split <;> simp
  · rw [entry?_put_self _ _ hq.ne_nil]
    simp

theorem exists_replace (hp : Leads t p source) (hq : Leads t q place) (bytes : Text.Bytes) :
    ∃ v, (t.put source (.file bytes)).rename p q = .ok v :=
  ⟨_, (hp.after_put hp _).rename (entry?_put_self t _ hp.ne_nil) (hp.after_put hq _)⟩

theorem makeDir_of_find (h : t.find p = .ok .directory) :
    t.makeDir p = .error .alreadyExists := by
  obtain ⟨target, hl, -⟩ := ok_of_bind h
  unfold makeDir
  rw [hl]
  cases target with
  | directory d => rfl
  | name dir name => simp only [bind, Except.bind, entry?_of_find hl h]

theorem find_of_makeDir (h : t.makeDir p = .ok u) : u.find p = .ok .directory := by
  obtain ⟨target, hl, h⟩ := ok_of_bind h
  cases target with
  | directory d => cases h
  | name dir name =>
    have hne : dir ++ [name] ≠ [] := by simp
    simp only at h
    split at h
    · cases h
    rename_i hnone
    obtain rfl := Except.ok.inj h
    have hkeep : KeepsDirs t (t.put (dir ++ [name]) .directory) :=
      keepsDirs_put _ hne (by simp [hnone])
    exact find_of_entry? (hkeep.locate hl) (entry?_put_self t _ hne)

end Tree

end LeaseOrder.Files
