/-
Paths by the names in them.

Single dots and empty segments lead nowhere, so what counts of a path are the other components:
its names and its double dots.  The directory of a path has all of them but the last one, and
another extension changes only the last one, and always changes it.
-/
import Mathlib.Data.List.Induction
import LeaseOrder.Files.Path

namespace LeaseOrder.Files.Path

variable {p q : Path} {name : List Char}

/-- The components that lead somewhere else: names and double dots. -/
def names (p : Path) : List (List Char) :=
  p.steps.filter (· ≠ ['.'])

/-- A component that is a name. -/
def IsName (s : List Char) : Prop :=
  s ≠ [] ∧ s ≠ ['.'] ∧ s ≠ ['.', '.']

/-- A segment that leads nowhere. -/
def IsIdle (s : List Char) : Prop :=
  s = [] ∨ s = ['.']

theorem names_eq_filter (p : Path) :
    p.names = p.segments.filter fun s => s ≠ [] && s ≠ ['.'] := by
  rw [names, steps, List.filter_filter]
  congr 1
  funext s
  simp [Bool.and_comm]

theorem names_of_append {r : Bool} {init tail : List (List Char)} :
    (⟨r, init ++ tail⟩ : Path).names = (⟨r, init⟩ : Path).names ++ (⟨r, tail⟩ : Path).names := by
  simp [names_eq_filter]

theorem names_of_idle {r : Bool} {tail : List (List Char)} (h : ∀ s ∈ tail, IsIdle s) :
    (⟨r, tail⟩ : Path).names = [] := by
  rw [names_eq_filter, List.filter_eq_nil_iff]
  intro s hs
  rcases h s hs with rfl | rfl <;> simp

theorem names_of_cons {r : Bool} {s : List Char} {tail : List (List Char)} (hs : ¬ IsIdle s)
    (h : ∀ x ∈ tail, IsIdle x) : (⟨r, s :: tail⟩ : Path).names = [s] := by
  obtain ⟨hne, hdot⟩ := not_or.mp hs
  have htail := names_of_idle (r := r) h
  rw [names_eq_filter] at htail ⊢
  rw [List.filter_cons_of_pos (by simp [hne, hdot]), htail]

/-! ### The last component -/

theorem extent_concat {r : Bool} {init : List (List Char)} {s : List Char} :
    (⟨r, init ++ [s]⟩ : Path).extent =
      if (⟨r, init⟩ : Path).isComponent init.length s then init.length + 1
      else (⟨r, init⟩ : Path).extent := by
  simp only [extent, List.zipIdx_append, List.foldl_append]
  simp [isComponent]

/-- The segments of a path, cut at the last component, which comes before segments that lead
    nowhere; or all segments are like that. -/
theorem extent_spec (p : Path) :
    (p.extent = 0 ∧ ∀ s ∈ p.segments, IsIdle s) ∨
      ∃ init s tail, p.segments = init ++ s :: tail ∧ p.extent = init.length + 1 ∧
        (IsIdle s → s = ['.'] ∧ init = []) ∧ ∀ x ∈ tail, IsIdle x := by
  obtain ⟨r, segments⟩ := p
  induction segments using List.reverseRecOn with
  | nil => exact .inl ⟨rfl, by simp⟩
  | append_singleton segments last ih =>
    rw [extent_concat]
    split
    case isTrue hlast =>
      refine .inr ⟨segments, last, [], rfl, rfl, ?_, by simp⟩
      rintro (rfl | rfl)
      · simp [isComponent] at hlast
      · simp [isComponent] at hlast
        exact ⟨rfl, hlast.1⟩
    case isFalse hlast =>
      have hidle : IsIdle last := by
        by_contra h
        obtain ⟨hne, hdot⟩ := not_or.mp h
        exact hlast (by simp [isComponent, hne, hdot])
      rcases ih with ⟨hext, hall⟩ | ⟨init, s, tail, hsplit, hext, hs, htail⟩
      · refine .inl ⟨hext, ?_⟩
        intro x hx
        rcases List.mem_append.mp hx with hx | hx
        · exact hall x hx
        · exact List.mem_singleton.mp hx ▸ hidle
      · refine .inr ⟨init, s, tail ++ [last], ?_, hext, hs, ?_⟩
        · rw [show segments = init ++ s :: tail from hsplit]
          simp
        · intro x hx
          rcases List.mem_append.mp hx with hx | hx
          · exact htail x hx
          · exact List.mem_singleton.mp hx ▸ hidle

theorem trimmed_segments {init tail : List (List Char)} {s : List Char}
    (hsplit : p.segments = init ++ s :: tail) (hext : p.extent = init.length + 1) :
    p.trimmed.segments = init ++ [s] := by
  rw [trimmed, hext, hsplit]
  show (init ++ s :: tail).take (init.length + 1) = _
  rw [List.take_length_add_append, List.take_succ_cons, List.take_zero]

@[simp] theorem names_trimmed (p : Path) : p.trimmed.names = p.names := by
  rcases p.extent_spec with ⟨hext, hall⟩ | ⟨init, s, tail, hsplit, hext, -, htail⟩
  · have hnone : p.names = [] := names_of_idle (r := p.rooted) hall
    rw [hnone, trimmed, hext, List.take_zero]
    rfl
  · have htrimmed : p.trimmed = ⟨p.rooted, init ++ [s]⟩ :=
      congrArg (Path.mk p.rooted) (trimmed_segments hsplit hext)
    have hp : p = ⟨p.rooted, (init ++ [s]) ++ tail⟩ := by
      rw [List.append_assoc, List.singleton_append, ← hsplit]
    rw [htrimmed]
    conv_rhs => rw [hp, names_of_append, names_of_idle htail, List.append_nil]

/-- A path with a name at its end. -/
structure EndsIn (p : Path) (above : List (List Char)) (name : List Char) : Prop where
  isName : IsName name
  segments : ∃ tail, p.segments = above ++ name :: tail ∧ ∀ x ∈ tail, IsIdle x
  extent : p.extent = above.length + 1

theorem exists_endsIn (h : p.fileName? = some name) : ∃ above, p.EndsIn above name := by
  rw [fileName?] at h
  rcases p.extent_spec with ⟨hext, -⟩ | ⟨init, s, tail, hsplit, hext, hs, htail⟩
  · rw [trimmed, hext, List.take_zero] at h
    cases h
  · rw [trimmed_segments hsplit hext, List.getLast?_concat] at h
    simp only at h
    split at h
    case isTrue => cases h
    case isFalse hdots =>
      obtain rfl := Option.some.inj h
      simp only [Bool.or_eq_true, decide_eq_true_eq, not_or] at hdots
      have hne : s ≠ [] := by
        rintro rfl
        exact absurd (hs (.inl rfl)).1 (by decide)
      exact ⟨init, ⟨hne, hdots⟩, ⟨tail, hsplit, htail⟩, hext⟩

/-- Without a name at its end a path ends in double dots, or leads nowhere. -/
theorem names_of_fileName?_eq_none (h : p.fileName? = none) :
    p.names = [] ∨ p.names.getLast? = some ['.', '.'] := by
  rw [fileName?] at h
  rcases p.extent_spec with ⟨-, hall⟩ | ⟨init, s, tail, hsplit, hext, hs, htail⟩
  · exact .inl (names_of_idle (r := p.rooted) hall)
  · have hnames : p.names =
        (⟨p.rooted, init⟩ : Path).names ++ (⟨p.rooted, s :: tail⟩ : Path).names := by
      rw [← names_of_append, ← hsplit]
    rw [trimmed_segments hsplit hext, List.getLast?_concat] at h
    simp only at h
    split at h
    case isTrue hdots =>
      simp only [Bool.or_eq_true, decide_eq_true_eq] at hdots
      rcases hdots with rfl | rfl
      · obtain ⟨-, rfl⟩ := hs (.inr rfl)
        refine .inl ?_
        have hidle : ∀ x ∈ ['.'] :: tail, IsIdle x := List.forall_mem_cons.mpr ⟨.inr rfl, htail⟩
        rw [hnames, names_of_idle hidle]
        rfl
      · have hdots : ¬ IsIdle ['.', '.'] := by
          rintro (h | h) <;> cases h
        refine .inr ?_
        rw [hnames, names_of_cons hdots htail]
        simp
    case isFalse => cases h

theorem names_eq_of_split {init tail : List (List Char)} {s : List Char}
    (hsplit : p.segments = init ++ s :: tail) (hs : ¬ IsIdle s) (htail : ∀ x ∈ tail, IsIdle x) :
    p.names = (⟨p.rooted, init⟩ : Path).names ++ [s] := by
  rw [← names_of_cons (r := p.rooted) hs htail, ← names_of_append, ← hsplit]

theorem IsName.not_isIdle {s : List Char} (h : IsName s) : ¬ IsIdle s := by
  rintro (rfl | rfl)
  · exact h.1 rfl
  · exact h.2.1 rfl

theorem names_of_fileName? (h : p.fileName? = some name) :
    p.names = p.names.dropLast ++ [name] ∧ IsName name := by
  obtain ⟨above, hname, ⟨tail, hsplit, htail⟩, -⟩ := exists_endsIn h
  have hnames := names_eq_of_split hsplit hname.not_isIdle htail
  refine ⟨?_, hname⟩
  rw [hnames, List.dropLast_concat]

/-! ### The directory -/

theorem rooted_of_parent? (h : p.parent? = some q) : q.rooted = p.rooted := by
  rw [parent?] at h
  split at h
  · cases h
  · rw [← Option.some.inj h]
    rfl

theorem names_of_parent? (h : p.parent? = some q) : q.names = p.names.dropLast := by
  rw [parent?] at h
  split at h
  · cases h
  rename_i hext
  obtain rfl := Option.some.inj h
  rw [names_trimmed]
  rcases p.extent_spec with ⟨hzero, -⟩ | ⟨init, s, tail, hsplit, hext, hs, htail⟩
  · exact absurd hzero hext
  have hinit : p.segments.take (p.extent - 1) = init := by
    rw [hext, hsplit, Nat.add_sub_cancel, List.take_left]
  rw [hinit]
  by_cases hidle : IsIdle s
  · -- Only at the beginning can a dot be a component; it leads nowhere even there.
    obtain ⟨rfl, rfl⟩ := hs hidle
    have hall : ∀ x ∈ ['.'] :: tail, IsIdle x := List.forall_mem_cons.mpr ⟨hidle, htail⟩
    have hnames : p.names = [] := by
      rw [names_eq_filter, hsplit]
      exact (names_eq_filter ⟨p.rooted, _⟩).symm.trans (names_of_idle hall)
    rw [hnames]
    rfl
  · rw [names_eq_of_split hsplit hidle htail, List.dropLast_concat]

/-- The paths above a path, the nearest first. -/
def ancestors (p : Path) : List Path :=
  match _h : p.parent? with
  | none => []
  | some q => q :: ancestors q
termination_by p.segments.length
decreasing_by exact parent?_segments_lt _h

theorem ancestors_eq (p : Path) :
    p.ancestors = match p.parent? with
      | none => []
      | some q => q :: q.ancestors := by
  rw [ancestors]
  split
  case h_1 hnone => rw [hnone]
  case h_2 q hq => rw [hq]

theorem ancestors_of_parent? (h : p.parent? = some q) : p.ancestors = q :: q.ancestors := by
  rw [ancestors_eq, h]

theorem glue_mono {xs ys : List (List Char)} (h : xs <+: ys) : glue xs <+: glue ys := by
  obtain ⟨rest, rfl⟩ := h
  induction xs with
  | nil => exact List.nil_prefix
  | cons x xs ih =>
    cases xs with
    | nil =>
      cases rest with
      | nil => exact List.prefix_rfl
      | cons y rest => exact List.prefix_append x ('/' :: glue (y :: rest))
    | cons x' xs =>
      show x ++ '/' :: glue (x' :: xs) <+: x ++ '/' :: glue (x' :: xs ++ rest)
      exact (List.prefix_append_right_inj x).mpr (List.cons_prefix_cons.mpr ⟨rfl, ih⟩)

theorem text_of_parent? (h : p.parent? = some q) : q.text.toList <+: p.text.toList := by
  have hrooted := rooted_of_parent? h
  have hsegments : q.segments <+: p.segments := by
    rw [parent?] at h
    split at h
    · cases h
    rw [← Option.some.inj h]
    exact (List.take_prefix _ _).trans (List.take_prefix _ _)
  rw [text, text, String.toList_ofList, String.toList_ofList, hrooted]
  exact (List.prefix_append_right_inj _).mpr (glue_mono hsegments)

/-! ### Another extension -/

/-- A name is its stem, or its stem with a dot and something behind it that has no dot. -/
theorem stem_spec (name : List Char) :
    stem name = name ∨ ∃ rest, name = stem name ++ '.' :: rest ∧ '.' ∉ rest := by
  have hsplit := List.takeWhile_append_dropWhile (p := (· ≠ '.')) (l := name.reverse)
  have hfree : '.' ∉ name.reverse.takeWhile (· ≠ '.') := fun h => by
    simpa using List.all_eq_true.mp List.all_takeWhile '.' h
  rw [stem]
  cases hdrop : name.reverse.dropWhile (· ≠ '.') with
  | nil => exact .inl rfl
  | cons c before =>
    obtain rfl : c = '.' := by
      have hhead := List.head?_dropWhile_not (· ≠ '.') name.reverse
      rw [hdrop] at hhead
      simpa using hhead
    rw [hdrop] at hsplit
    have hname : name = before.reverse ++ '.' :: (name.reverse.takeWhile (· ≠ '.')).reverse := by
      have hreverse := congrArg List.reverse hsplit
      rw [List.reverse_append, List.reverse_cons, List.append_assoc,
        List.reverse_reverse] at hreverse
      exact hreverse.symm
    rw [List.tail_cons]
    split
    case h_1 => exact .inl rfl
    case h_2 => exact .inr ⟨_, hname, by simpa using hfree⟩

theorem stem_ne_nil (h : name ≠ []) : stem name ≠ [] := by
  rw [stem]
  split
  case h_1 => exact h
  case h_2 hne => exact hne

/-- An extension with a dot in it is not the one that a name has after its stem. -/
theorem stem_append_ne {extension : List Char} (h : '.' ∈ extension) :
    stem name ++ '.' :: extension ≠ name := by
  intro heq
  rcases stem_spec name with hstem | ⟨rest, hrest, hfree⟩
  · rw [hstem] at heq
    simpa using congrArg List.length heq
  · have hsame := heq.trans hrest
    rw [List.append_cancel_left_eq, List.cons.injEq] at hsame
    exact hfree (hsame.2 ▸ h)

/-- Another extension changes the name at the end, and nothing else. -/
theorem names_withExtension (h : p.fileName? = some name) {extension : String}
    (hdot : '.' ∈ extension.toList) :
    ∃ last, (p.withExtension extension).names = p.names.dropLast ++ [last] ∧ last ≠ name := by
  obtain ⟨above, hname, ⟨tail, hsplit, htail⟩, hext⟩ := exists_endsIn h
  have hnames := names_eq_of_split hsplit hname.not_isIdle htail
  have habove : p.segments.take (p.extent - 1) = above := by
    rw [hext, hsplit, Nat.add_sub_cancel, List.take_left]
  have hlast : ∀ last, ¬ IsIdle last →
      (⟨p.rooted, above ++ [last]⟩ : Path).names = p.names.dropLast ++ [last] := by
    intro last hidle
    rw [hnames, List.dropLast_concat, names_of_append, names_of_cons hidle (by simp)]
  rw [withExtension, h]
  simp only [habove]
  split
  case isTrue =>
    refine ⟨['.', '.'], hlast _ ?_, hname.2.2.symm⟩
    rintro (h | h) <;> cases h
  case isFalse =>
    refine ⟨_, hlast _ ?_, stem_append_ne hdot⟩
    rintro (h | h)
    · simp at h
    · have hlength := congrArg List.length h
      have hstem := List.length_pos_iff.mpr (stem_ne_nil hname.1)
      simp at hlength
      omega

@[simp] theorem rooted_withExtension (extension : String) :
    (p.withExtension extension).rooted = p.rooted := by
  rw [withExtension]
  split <;> rfl

end LeaseOrder.Files.Path
