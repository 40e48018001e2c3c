/-
Where paths lead, by the names in them.

A path is found by walking along all of its names but the last, so two paths that differ in the
last one lead into the same directory.  In a tree where everything is in a directory, a path
without double dots is found if something is at the place its names tell.
-/
import LeaseOrder.Proofs.Files.Path
import LeaseOrder.Proofs.Files.Tree

namespace LeaseOrder.Files

/-- The place that is meant. -/
def Tree.Target.place : Tree.Target → Place
  | .directory place => place
  | .name dir last => dir ++ [last]

namespace Tree

variable {t u : Tree} {p q : Path} {place dir : Place} {names : List (List Char)}
  {name : List Char} {target : Target} {x : Entry}

/-! ### Walking along names -/

theorem walk_filter (names : List (List Char)) (place : Place) :
    t.walk place (names.filter (· ≠ ['.'])) = t.walk place names := by
  induction names generalizing place with
  | nil => rfl
  | cons name names ih =>
    by_cases hdot : name = ['.']
    · rw [List.filter_cons_of_neg (by simpa using hdot), walk, if_pos hdot, ih]
    · rw [List.filter_cons_of_pos (by simpa using hdot), walk, walk, if_neg hdot, if_neg hdot]
      simp only [ih]

theorem walks_filter_iff :
    Walks t place (names.filter (· ≠ ['.'])) dir ↔ Walks t place names dir := by
  rw [← walk_eq_ok_iff, ← walk_eq_ok_iff, walk_filter]

theorem Walks.append {mid : Place} {more : List (List Char)} (h : Walks t place names mid)
    (hmore : Walks t mid more dir) : Walks t place (names ++ more) dir := by
  induction h with
  | stop place => exact hmore
  | stay _ ih => exact .stay (ih hmore)
  | up _ ih => exact .up (ih hmore)
  | down hdot hup hsize hdir _ ih => exact .down hdot hup hsize hdir (ih hmore)

theorem Walks.exists_of_append {more : List (List Char)} (h : Walks t place (names ++ more) dir) :
    ∃ mid, Walks t place names mid ∧ Walks t mid more dir := by
  induction names generalizing place with
  | nil => exact ⟨place, .stop place, h⟩
  | cons first names ih =>
    cases h with
    | stay h =>
      obtain ⟨mid, hmid, hmore⟩ := ih h
      exact ⟨mid, .stay hmid, hmore⟩
    | up h =>
      obtain ⟨mid, hmid, hmore⟩ := ih h
      exact ⟨mid, .up hmid, hmore⟩
    | down hdot hup hsize hdir h =>
      obtain ⟨mid, hmid, hmore⟩ := ih h
      exact ⟨mid, .down hdot hup hsize hdir hmid, hmore⟩

/-- Before its last name a walk is in the directory of that name. -/
theorem Walks.exists_of_concat (hname : Path.IsName name)
    (h : Walks t place (names ++ [name]) dir) :
    ∃ above, Walks t place names above ∧ dir = above ++ [name] ∧
      t.entry? (above ++ [name]) = some .directory := by
  obtain ⟨above, habove, h⟩ := h.exists_of_append
  cases h with
  | stay => exact absurd rfl hname.2.1
  | up => exact absurd rfl hname.2.2
  | down _ _ _ hdir h =>
    cases h
    exact ⟨above, habove, rfl, hdir⟩

theorem Walks.unique {dir' : Place} (h : Walks t place names dir) (h' : Walks t place names dir') :
    dir = dir' :=
  Except.ok.inj ((walk_eq_ok_iff.mpr h).symm.trans (walk_eq_ok_iff.mpr h'))

/-- A walk goes down at most one directory for each name. -/
theorem Walks.length_le (h : Walks t place names dir) :
    dir.length ≤ place.length + names.length := by
  induction h with
  | stop place => simp
  | stay _ ih => simp only [List.length_cons]; omega
  | up _ ih => simp only [List.length_cons, List.length_dropLast] at ih ⊢; omega
  | down _ _ _ _ _ ih =>
    simp only [List.length_cons, List.length_append, List.length_nil] at ih ⊢
    omega

/-- Without double dots a walk only goes down. -/
theorem Walks.eq_append (h : Walks t place names dir) (hplain : ['.', '.'] ∉ names) :
    dir = place ++ names.filter (· ≠ ['.']) := by
  induction h with
  | stop place => simp
  | stay _ ih =>
    rw [List.filter_cons_of_neg (by simp)]
    exact ih fun h => hplain (List.mem_cons_of_mem _ h)
  | up _ _ => exact absurd List.mem_cons_self hplain
  | down hdot _ _ _ _ ih =>
    rw [List.filter_cons_of_pos (by simpa using hdot),
      ih fun h => hplain (List.mem_cons_of_mem _ h), List.append_assoc, List.singleton_append]

/-- Without double dots a walk depends only on the directories above its end. -/
theorem Walks.of_plain (h : Walks u place names dir) (hplain : ['.', '.'] ∉ names)
    (hdir : ∀ q, q <+: dir → u.entry? q = some .directory → t.entry? q = some .directory) :
    Walks t place names dir := by
  induction h with
  | stop place => exact .stop place
  | stay _ ih => exact .stay (ih (fun h => hplain (List.mem_cons_of_mem _ h)) hdir)
  | up _ _ => exact absurd List.mem_cons_self hplain
  | down hdot hup hsize hentry hwalk ih =>
    have hrest := fun h => hplain (List.mem_cons_of_mem _ h)
    have hbelow := hwalk.eq_append hrest ▸ List.prefix_append _ _
    exact .down hdot hup hsize (hdir _ hbelow hentry) (ih hrest hdir)

/-! ### Finding a path -/

/-- A path that is located leads into the directory that its names but the last lead to, or it
    ends in dots there. -/
theorem locate_spec (h : t.locate p = .ok target) :
    p.Sound ∧ ((∃ dir, target = .directory dir ∧ Walks t (t.start p) p.names dir) ∨
      ∃ dir name, target = .name dir name ∧ Path.IsName name ∧
        p.names = p.names.dropLast ++ [name] ∧ Walks t (t.start p) p.names.dropLast dir) := by
  obtain ⟨hsound, dir, hwalk, hends⟩ := locate_eq_ok_iff.mp h
  refine ⟨hsound, ?_⟩
  cases hlast : p.steps.getLast? with
  | none =>
    rw [List.getLast?_eq_none_iff.mp hlast] at hwalk hends
    cases hends
    refine .inl ⟨dir, rfl, ?_⟩
    rw [Path.names, List.getLast?_eq_none_iff.mp hlast]
    exact hwalk
  | some last =>
    have hsteps : p.steps = p.steps.dropLast ++ [last] :=
      (List.dropLast_append_getLast? last hlast).symm
    have hnames : p.names = p.steps.dropLast.filter (· ≠ ['.']) ++ [last].filter (· ≠ ['.']) := by
      rw [← List.filter_append, ← hsteps]
      rfl
    rw [← walks_filter_iff] at hwalk
    rw [hlast] at hends
    cases hends with
    | stay => exact .inl ⟨dir, rfl, hnames ▸ hwalk.append (.stop dir)⟩
    | up => exact .inl ⟨dir.dropLast, rfl, hnames ▸ hwalk.append (.up (.stop _))⟩
    | down hdot hup _ =>
      rw [List.filter_cons_of_pos (by simpa using hdot), List.filter_nil] at hnames
      have hne : last ≠ [] := by
        have hmem : last ∈ p.steps := List.mem_of_getLast? hlast
        simpa [Path.steps] using (List.mem_filter.mp hmem).2
      refine .inr ⟨dir, last, rfl, ⟨hne, hdot, hup⟩, ?_⟩
      rw [hnames, List.dropLast_concat]
      exact ⟨rfl, hwalk⟩

/-- The path points to this place, whether or not there is something. -/
def PointsTo (t : Tree) (p : Path) (place : Place) : Prop :=
  ∃ target, t.locate p = .ok target ∧ target.place = place

theorem PointsTo.unique {place' : Place} (h : t.PointsTo p place) (h' : t.PointsTo p place') :
    place = place' := by
  obtain ⟨target, hl, rfl⟩ := h
  obtain ⟨target', hl', rfl⟩ := h'
  rw [Except.ok.inj (hl.symm.trans hl')]

theorem KeepsDirs.pointsTo (hk : KeepsDirs t u) (h : t.PointsTo p place) : u.PointsTo p place := by
  obtain ⟨target, hl, hplace⟩ := h
  exact ⟨target, hk.locate hl, hplace⟩

theorem Leads.pointsTo (h : Leads t p place) : t.PointsTo p place := by
  obtain ⟨dir, last, hl, rfl⟩ := h.named
  exact ⟨_, hl, rfl⟩

/-- How deep a path can lead. -/
def reach (t : Tree) (p : Path) : Nat :=
  (t.start p).length + p.names.length

theorem PointsTo.length_le (h : t.PointsTo p place) : place.length ≤ t.reach p := by
  obtain ⟨target, hl, rfl⟩ := h
  obtain ⟨-, ⟨dir, rfl, hwalk⟩ | ⟨dir, last, rfl, -, hnames, hwalk⟩⟩ := locate_spec hl
  · exact hwalk.length_le
  · have hdir := hwalk.length_le
    have hlast := congrArg List.length hnames
    rw [List.length_append, List.length_singleton] at hlast
    show (dir ++ [last]).length ≤ _
    rw [reach, List.length_append, List.length_singleton]
    omega

theorem entry?_of_find_name {last : List Char} (hl : t.locate p = .ok (.name dir last))
    (h : t.find p = .ok x) : t.entry? (dir ++ [last]) = some x := by
  rw [find, hl] at h
  simp only [bind, Except.bind] at h
  split at h
  case h_1 => cases h
  case h_2 hdir =>
    rw [hdir, ← Except.ok.inj h]
  case h_3 contents hfile =>
    split at h
    case isTrue => cases h
    case isFalse => rw [hfile, ← Except.ok.inj h]

/-- A path with a name at its end leads to that name in its directory. -/
theorem exists_of_locate (hname : p.fileName? = some name) (hl : t.locate p = .ok target) :
    ∃ dir, Walks t (t.start p) p.names.dropLast dir ∧ target.place = dir ++ [name] ∧
      ∀ x, t.find p = .ok x → t.entry? target.place = some x := by
  obtain ⟨hnames, hisName⟩ := Path.names_of_fileName? hname
  obtain ⟨-, ⟨dir, rfl, hwalk⟩ | ⟨dir, last, rfl, -, hlast, hwalk⟩⟩ := locate_spec hl
  · rw [hnames] at hwalk
    obtain ⟨above, habove, rfl, hdir⟩ := hwalk.exists_of_concat hisName
    refine ⟨above, habove, rfl, fun x hx => ?_⟩
    rw [find, hl] at hx
    rw [← Except.ok.inj hx]
    exact hdir
  · obtain rfl : name = last := by
      rw [hnames] at hlast
      simpa using hlast
    exact ⟨dir, hwalk, rfl, fun x hx => entry?_of_find_name hl hx⟩

/-- Without double dots a path leads where its names tell. -/
theorem place_eq_append (hplain : ['.', '.'] ∉ p.steps) (hname : p.fileName? = some name)
    (hl : t.locate p = .ok target) : target.place = t.start p ++ p.names := by
  obtain ⟨dir, hwalk, hplace, -⟩ := exists_of_locate hname hl
  have hplain' : ['.', '.'] ∉ p.names.dropLast := fun h =>
    hplain (List.mem_of_mem_filter (List.dropLast_subset _ h))
  have hnodots : p.names.dropLast.filter (· ≠ ['.']) = p.names.dropLast :=
    List.filter_eq_self.mpr fun s hs => (List.mem_filter.mp (List.dropLast_subset _ hs)).2
  rw [hplace, hwalk.eq_append hplain', hnodots, List.append_assoc,
    ← (Path.names_of_fileName? hname).1]

/-- What a path leads to depends on where it leads, and on what is there. -/
theorem find_congr (hl : t.locate p = .ok target) (hl' : u.locate p = .ok target)
    (he : u.entry? target.place = t.entry? target.place) : u.find p = t.find p := by
  rw [find, find, hl, hl']
  cases target with
  | directory place => rfl
  | name dir last =>
    have hentry : u.entry? (dir ++ [last]) = t.entry? (dir ++ [last]) := he
    simp only [bind, Except.bind, hentry]

/-! ### The directory of a path -/

theorem find_of_walks (hsound : p.Sound) (h : Walks t (t.start p) p.names dir) :
    t.find p = .ok .directory := by
  have hwalk : Walks t (t.start p) p.steps dir := walks_filter_iff.mp h
  have hlocate : ∀ {above target}, Walks t (t.start p) p.steps.dropLast above →
      Ends above p.steps.getLast? target → t.locate p = .ok target := fun habove hends =>
    locate_eq_ok_iff.mpr ⟨hsound, _, habove, hends⟩
  have hdirectory : ∀ {place}, t.locate p = .ok (.directory place) →
      t.find p = .ok .directory := by
    intro place hl
    rw [find, hl]
    rfl
  rcases List.eq_nil_or_concat p.steps with hnil | ⟨init, last, hconcat⟩
  · rw [hnil] at hlocate
    exact hdirectory (hlocate (.stop _) .start)
  · rw [List.concat_eq_append] at hconcat
    rw [hconcat] at hwalk
    rw [hconcat, List.dropLast_concat, List.getLast?_concat] at hlocate
    obtain ⟨above, habove, hlast⟩ := hwalk.exists_of_append
    cases hlast with
    | stay => exact hdirectory (hlocate habove .stay)
    | up => exact hdirectory (hlocate habove .up)
    | down hdot hup hsize hdir => exact find_of_entry? (hlocate habove (.down hdot hup hsize)) hdir

theorem size_mono {xs ys : List Char} (h : xs <+: ys) : size xs ≤ size ys := by
  obtain ⟨rest, rfl⟩ := h
  induction xs with
  | nil => exact Nat.zero_le _
  | cons c xs ih => exact Nat.add_le_add_left ih _

theorem sound_of_parent? (h : p.Sound) (hq : p.parent? = some q) (hne : ¬ q.isEmpty) :
    q.Sound where
  no_nul hmem := h.no_nul ((Path.text_of_parent? hq).subset hmem)
  nonempty := hne
  size_le := Nat.le_trans (size_mono (Path.text_of_parent? hq)) h.size_le

/-- Where a path leads to something, its directory is there. -/
theorem find_of_parent? (hq : p.parent? = some q) (hne : ¬ q.isEmpty) (hx : t.find p = .ok x) :
    t.find q = .ok .directory := by
  obtain ⟨target, hl, -⟩ := ok_of_bind hx
  obtain ⟨hsound, hwalk⟩ := locate_spec hl
  have habove : ∃ dir, Walks t (t.start p) p.names.dropLast dir := by
    rcases hwalk with ⟨dir, -, hwalk⟩ | ⟨dir, -, -, -, -, hwalk⟩
    · rcases List.eq_nil_or_concat p.names with hnil | ⟨init, last, hconcat⟩
      · rw [hnil]
        exact ⟨_, .stop _⟩
      · rw [List.concat_eq_append] at hconcat
        rw [hconcat] at hwalk
        obtain ⟨above, habove, -⟩ := hwalk.exists_of_append
        rw [hconcat, List.dropLast_concat]
        exact ⟨above, habove⟩
    · exact ⟨dir, hwalk⟩
  obtain ⟨dir, hdir⟩ := habove
  have hstart : t.start q = t.start p := by rw [start, start, Path.rooted_of_parent? hq]
  exact find_of_walks (sound_of_parent? hsound hq hne) (by rwa [hstart, Path.names_of_parent? hq])

/-! ### Another extension -/

variable {source : Place} {extension : String}

theorem Leads.exists_name (h : Leads t (p.withExtension extension) source)
    (hdot : '.' ∈ extension.toList) :
    ∃ name dir last, p.fileName? = some name ∧ Walks t (t.start p) p.names.dropLast dir ∧
      source = dir ++ [last] ∧ last ≠ name := by
  obtain ⟨dir, last, hl, rfl⟩ := h.named
  obtain ⟨-, ⟨dir', hdir', -⟩ | ⟨dir', last', htarget, hisName, hlast, hwalk⟩⟩ := locate_spec hl
  · cases hdir'
  obtain ⟨rfl, rfl⟩ := Target.name.inj htarget
  cases hname : p.fileName? with
  | none =>
    -- Where there is no name, the extension goes nowhere.
    have hsame : p.withExtension extension = p := by rw [Path.withExtension, hname]
    rw [hsame] at hlast
    rcases Path.names_of_fileName?_eq_none hname with hnil | hup
    · rw [hnil] at hlast
      simp at hlast
    · rw [hlast, List.getLast?_concat] at hup
      exact absurd (Option.some.inj hup) hisName.2.2
  | some name =>
    obtain ⟨other, hnames, hother⟩ := Path.names_withExtension hname hdot
    have hstart : t.start (p.withExtension extension) = t.start p := by
      simp [start]
    rw [hnames, List.dropLast_concat] at hlast hwalk
    rw [hstart] at hwalk
    obtain rfl : other = last := by simpa using hlast
    exact ⟨name, dir, other, rfl, hwalk, rfl, hother⟩

/-- The file with another extension is neither the one without it nor below it. -/
theorem Leads.not_below (h : Leads t (p.withExtension extension) source)
    (hdot : '.' ∈ extension.toList) (hl : t.locate p = .ok target) : ¬ target.place <+: source := by
  obtain ⟨name, dir, last, hname, hwalk, rfl, hne⟩ := h.exists_name hdot
  obtain ⟨dir', hwalk', hplace, -⟩ := exists_of_locate hname hl
  obtain rfl := hwalk.unique hwalk'
  rw [hplace, List.prefix_append_right_inj]
  intro hbelow
  exact hne (List.cons_prefix_cons.mp hbelow).1.symm

/-! ### Trees where everything is in a directory -/

/-- Whatever there is, is in a directory. -/
structure WellFormed (t : Tree) : Prop where
  directory : ∀ {dir : Place} {name : List Char}, t.entry? (dir ++ [name]) ≠ none →
    t.entry? dir = some .directory

/-- Where everything is in the root there is nothing to ask for. -/
theorem wellFormed_of_flat (h : ∀ x ∈ t.entries, x.1.length ≤ 1) : t.WellFormed where
  directory {dir name} hthere := by
    by_cases hnil : dir = []
    · simp [hnil, entry?]
    · unfold entry? at hthere
      rw [if_neg (by simp), ne_eq, Option.map_eq_none_iff, List.find?_eq_none] at hthere
      obtain ⟨x, hx, hplace⟩ : ∃ x ∈ t.entries, x.1 = dir ++ [name] := by simpa using hthere
      have hlength := h x hx
      rw [hplace, List.length_append, List.length_singleton] at hlength
      have hpos := List.length_pos_of_ne_nil hnil
      omega

theorem WellFormed.directory_above (h : t.WellFormed) {below : Place}
    (he : t.entry? below ≠ none) (habove : place <+: below) (hne : place ≠ below) :
    t.entry? place = some .directory := by
  obtain ⟨rest, rfl⟩ := habove
  induction rest using List.reverseRecOn with
  | nil => simp at hne
  | append_singleton rest last ih =>
    rw [← List.append_assoc] at he
    have hdir := h.directory he
    by_cases hrest : rest = []
    · simpa [hrest] using hdir
    · exact ih (by simp [hdir]) (by simpa using hrest)

/-- Without double dots, what is found at a place in one tree is found in every other that has it
    there as well. -/
theorem find_of_plain (hwf : t.WellFormed) (hcurrent : t.current = u.current)
    (hname : p.fileName? = some name) (hplain : ['.', '.'] ∉ p.steps) (hl : u.locate p = .ok target)
    (he : t.entry? target.place = u.entry? target.place) (hx : u.find p = .ok x) :
    t.find p = .ok x := by
  obtain ⟨dir, hwalk, hplace, hentry⟩ := exists_of_locate hname hl
  have hthere : t.entry? target.place = some x := he.trans (hentry x hx)
  have hdirs : ∀ q, q <+: target.place → u.entry? q = some .directory →
      t.entry? q = some .directory := by
    intro q hq hdir
    by_cases hne : q = target.place
    · rw [hne, he, ← hne, hdir]
    · exact hwf.directory_above (by simp [hthere]) hq hne
  have hl' : t.locate p = .ok target := by
    refine locate_of_walks hcurrent (fun above habove => ?_) hl
    have hplain' : ['.', '.'] ∉ p.steps.dropLast := fun h => hplain (List.dropLast_subset _ h)
    refine habove.of_plain hplain' fun q hq => hdirs q (hq.trans ?_)
    rw [habove.eq_append hplain', place_eq_append hplain hname hl]
    exact (List.prefix_append_right_inj _).mpr ((List.dropLast_prefix _).filter _)
  exact (find_congr hl hl' he).trans hx

end Tree

end LeaseOrder.Files
