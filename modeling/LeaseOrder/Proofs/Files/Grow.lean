/-
Trees that differ by new directories.

Nothing that was there changes.  What is new are directories, and one of the paths that were
asked for points to each of them, so none is deeper than those paths.
-/
import LeaseOrder.Proofs.Files.Walk

namespace LeaseOrder.Files

namespace Tree

variable {t u v : Tree} {p q : Path} {paths : List Path} {place : Place} {depth : Nat}

/-- At this place there is what was there, or a new directory to which one of these paths points. -/
def Kept (t u : Tree) (paths : List Path) (place : Place) : Prop :=
  u.entry? place = t.entry? place ∨
    t.entry? place = none ∧ u.entry? place = some .directory ∧ ∃ q ∈ paths, u.PointsTo q place

theorem Kept.mono {more : List Path} (h : Kept t u paths place) (hsub : paths ⊆ more) :
    Kept t u more place := by
  rcases h with hsame | ⟨hnone, hnew, q, hq, hpoints⟩
  · exact .inl hsame
  · exact .inr ⟨hnone, hnew, q, hsub hq, hpoints⟩

theorem Kept.trans (h₁ : Kept t u paths place) (h₂ : Kept u v paths place) (hk : KeepsDirs u v) :
    Kept t v paths place := by
  rcases h₂ with hsame | ⟨hnone, hnew, hq⟩
  · rcases h₁ with hsame' | ⟨hnone, hnew, q, hq, hpoints⟩
    · exact .inl (hsame.trans hsame')
    · exact .inr ⟨hnone, hsame.trans hnew, q, hq, hk.pointsTo hpoints⟩
  · rcases h₁ with hsame | ⟨-, hdir, -⟩
    · exact .inr ⟨hsame ▸ hnone, hnew, hq⟩
    · rw [hnone] at hdir
      cases hdir

/-- The tree has directories that were not there, where these paths point, and nothing else is
    new. -/
structure Opens (t u : Tree) (paths : List Path) : Prop where
  current : u.current = t.current
  kept : ∀ place, Kept t u paths place

theorem Opens.refl (t : Tree) (paths : List Path) : Opens t t paths :=
  ⟨rfl, fun _ => .inl rfl⟩

theorem Opens.mono {more : List Path} (h : Opens t u paths) (hsub : paths ⊆ more) :
    Opens t u more :=
  ⟨h.current, fun place => (h.kept place).mono hsub⟩

theorem Opens.keepsDirs (h : Opens t u paths) : KeepsDirs t u := by
  refine ⟨h.current, fun {place} hdir => ?_⟩
  rcases h.kept place with hsame | ⟨hnone, -, -⟩
  · rw [hsame, hdir]
  · rw [hnone] at hdir
    cases hdir

theorem Opens.trans (h₁ : Opens t u paths) (h₂ : Opens u v paths) : Opens t v paths :=
  ⟨h₂.current.trans h₁.current, fun place => (h₁.kept place).trans (h₂.kept place) h₂.keepsDirs⟩

theorem opens_makeDir (h : t.makeDir p = .ok u) (hp : p ∈ paths) : Opens t u paths := by
  obtain ⟨target, hl, h⟩ := ok_of_bind h
  cases target with
  | directory dir => cases h
  | name dir name =>
    simp only at h
    split at h
    case h_1 => cases h
    case h_2 hnone =>
      obtain rfl := Except.ok.inj h
      have hne : dir ++ [name] ≠ [] := by simp
      have hkeep : KeepsDirs t (t.put (dir ++ [name]) .directory) :=
        keepsDirs_put _ hne (by simp [hnone])
      refine ⟨rfl, fun place => ?_⟩
      rw [Kept, entry?_put t _ hne]
      split
      case isTrue hplace =>
        exact .inr ⟨hplace ▸ hnone, rfl, p, hp, _, hkeep.locate hl, hplace.symm⟩
      case isFalse => exact .inl rfl

/-! ### How deep new directories are -/

/-- The tree has directories that were not there, down to a depth, and nothing else is new. -/
structure Grows (t u : Tree) (depth : Nat) : Prop where
  current : u.current = t.current
  entry : ∀ place, u.entry? place = t.entry? place ∨
    t.entry? place = none ∧ u.entry? place = some .directory ∧ place.length ≤ depth

theorem Opens.grows (h : Opens t u paths) (hdepth : ∀ q ∈ paths, t.reach q ≤ depth) :
    Grows t u depth := by
  refine ⟨h.current, fun place => ?_⟩
  rcases h.kept place with hsame | ⟨hnone, hnew, q, hq, hpoints⟩
  · exact .inl hsame
  · have hreach : u.reach q = t.reach q := by rw [reach, reach, start, start, h.current]
    exact .inr ⟨hnone, hnew, Nat.le_trans (hreach ▸ hpoints.length_le) (hdepth q hq)⟩

/-- A path can lead deeper than the paths above it. -/
theorem reach_of_mem_ancestors (hq : q ∈ p.ancestors) :
    t.reach q ≤ (t.start p).length + p.names.dropLast.length := by
  induction p using Path.ancestors.induct with
  | case1 p hnone =>
    rw [Path.ancestors_eq, hnone] at hq
    cases hq
  | case2 p r hr ih =>
    have hreach : t.reach r = (t.start p).length + p.names.dropLast.length := by
      rw [reach, start, start, Path.rooted_of_parent? hr, Path.names_of_parent? hr]
    rw [Path.ancestors_of_parent? hr] at hq
    rcases List.mem_cons.mp hq with rfl | hq
    · exact Nat.le_of_eq hreach
    · have hdeeper := ih hq
      rw [reach] at hreach
      rw [List.length_dropLast] at hdeeper
      omega

end Tree

end LeaseOrder.Files
