/-
What writing a batch leaves alone.

A write creates directories above its destination, fills the temporary file and renames it.  So
there are two places where something may change: where the destination points, and where the
temporary file does.  The temporary file is opened whether or not there is a file of its name, and
nobody takes it away when something fails after that, so its place is not as it was after a write
that has come that far: such a file is lost, and a temporary file may stay, which holds as much of
the batch as got through.
-/
import LeaseOrder.Proofs.Batch.Replace

namespace LeaseOrder.Files.Tree

variable {t v : Tree} {p q : Path} {source place : Place} {bytes : Text.Bytes}

/-! ### One step at a time -/

/-- A file that is put under a path changes nothing but the place to which the path points. -/
theorem Leads.entry?_put (hp : Leads t p source)
    (hother : ¬ (t.put source (.file bytes)).PointsTo p place) :
    Tree.entry? (t.put source (.file bytes)) place = t.entry? place := by
  have hne : place ≠ source := by
    rintro rfl
    exact hother (hp.after_put hp bytes).pointsTo
  rw [Tree.entry?_put t _ hp.ne_nil, if_neg hne]

/-- Putting a file and renaming it changes nothing but the places of its two names. -/
theorem Leads.entry?_rename (hp : Leads t p source)
    (hr : (t.put source (.file bytes)).rename p q = .ok v) (hp' : ¬ v.PointsTo p place)
    (hq' : ¬ v.PointsTo q place) : v.entry? place = t.entry? place := by
  obtain ⟨⟨gone, hgone, hgone'⟩, ⟨dest, hdest, hdest'⟩, -⟩ := replaces hp hr
  obtain rfl : gone = source := hgone.unique hp
  have hne : place ≠ gone := by
    rintro rfl
    exact hp' hgone'.pointsTo
  have hne' : place ≠ dest := by
    rintro rfl
    exact hq' hdest'.pointsTo
  obtain ⟨renamed, target, bytes', hrenamed, -, htarget, rfl⟩ := leads_of_rename hr
  obtain rfl : renamed = gone := hrenamed.unique (hp.after_put hp _)
  obtain rfl : target = dest := (hp.before_put htarget).unique hdest
  rw [Tree.entry?_put _ _ hdest.ne_nil, if_neg hne', entry?_remove _ hp.ne_nil, if_neg hne,
    Tree.entry?_put t _ hp.ne_nil, if_neg hne]

end LeaseOrder.Files.Tree

namespace LeaseOrder.Batch

open Files Files.Tree

variable {α : Type} {faults : Faults} {line : α → Except String String} {batch : List α}
  {t u v : Tree} {w w' : World} {p : Path} {paths : List Path} {result : Except StoreError Unit}

/-! ### The whole write -/

/-- Everything is as it was but for new directories above a path, except where these paths point. -/
def KeepsBut (paths : List Path) (t u : Tree) (p : Path) : Prop :=
  ∀ place, (∀ q ∈ paths, ¬ u.PointsTo q place) → Kept t u p.ancestors place

theorem KeepsBut.mono {more : List Path} (h : KeepsBut paths t u p) (hsub : paths ⊆ more) :
    KeepsBut more t u p :=
  fun place hplace => h place fun q hq => hplace q (hsub hq)

/-- New directories above a path, and then a change at these places alone, leave everything else. -/
theorem keepsBut_of_opens (hopens : Opens t u p.ancestors) (hk : KeepsDirs u v)
    (hsame : ∀ place, (∀ q ∈ paths, ¬ v.PointsTo q place) → v.entry? place = u.entry? place) :
    KeepsBut paths t v p := fun place hplace =>
  (hopens.kept place).trans (.inl (hsame place hplace)) hk

/-- The temporary file for a path has been left behind with these bytes. -/
structure LeftBehind (t u : Tree) (p : Path) (bytes : Text.Bytes) : Prop where
  elsewhere : KeepsBut [temporary p] t u p
  /-- The destination is none of the places where something has changed. -/
  destination : ∀ place, u.PointsTo p place → Kept t u p.ancestors place
  openRead : u.openRead (temporary p) = .ok (.file bytes)

/-- What becomes of a destination and of the temporary file beside it, as the result tells, when
    this text was to be written. -/
def Leaves (t u : Tree) (p : Path) (text : String) : Except StoreError Unit → Prop
  | .ok () => KeepsBut [p, temporary p] t u p ∧
      u.openRead p = .ok (.file (Text.encode text)) ∧ u.find (temporary p) = .error .notFound
  | .error (.cannotLockTemporary _) => LeftBehind t u p []
  | .error (.cannotEncode _) | .error (.cannotWriteRecord _) | .error (.cannotFlush _) =>
      ∃ kept, kept <+: Text.encode text ∧ LeftBehind t u p kept
  | .error (.cannotRename _ _ _) => LeftBehind t u p (Text.encode text)
  | .error _ => KeepsBut [] t u p

theorem leftBehind_of_opens {place : Place} {bytes : Text.Bytes}
    (hopens : Opens t w.tree p.ancestors) (hp : Leads w.tree (temporary p) place) :
    LeftBehind t (w.withFile place bytes).tree p bytes where
  elsewhere := keepsBut_of_opens hopens (hp.keepsDirs bytes) fun _ hplace =>
    hp.entry?_put (hplace _ List.mem_cons_self)
  destination place' h := by
    have hp' : w.tree.PointsTo p place' := (hp.keepsDirs_of_put bytes).pointsTo h
    have hne : place' ≠ place := by
      rintro rfl
      obtain ⟨target, hl, rfl⟩ := hp'
      exact hp.not_below (by decide) hl List.prefix_rfl
    have hsame : (w.withFile place bytes).tree.entry? place' = w.tree.entry? place' := by
      rw [World.tree_withFile, Tree.entry?_put _ _ hp.ne_nil, if_neg hne]
    exact (hopens.kept place').trans (.inl hsame) (hp.keepsDirs bytes)
  openRead := hp.openRead_put bytes

/-- What a write has left as it was, and what it has not. -/
structure Frames (line : α → Except String String) (batch : List α) (w w' : World) (p : Path)
    (result : Except StoreError Unit) : Prop where
  input : w'.input = w.input
  current : w'.tree.current = w.tree.current
  /-- Whatever comes of the write, it touches nothing but the two files. -/
  elsewhere : KeepsBut [p, temporary p] w.tree w'.tree p
  leaves : Leaves w.tree w'.tree p (linesOf line batch) result
  /-- Every record has been written if the write has come to its end. -/
  complete : result = .ok () → ∀ x ∈ batch, ∃ text, line x = .ok text

section

variable {e : StoreError} {w₁ : World} (hinput : w₁.input = w.input)
  (hopens : Opens w.tree w₁.tree p.ancestors)
include hinput hopens

theorem frames_of_opens (hleaves : KeepsBut [] w.tree w₁.tree p →
    Leaves w.tree w₁.tree p (linesOf line batch) (.error e)) :
    Frames line batch w w₁ p (.error e) where
  input := hinput
  current := hopens.current
  elsewhere place _ := hopens.kept place
  leaves := hleaves fun place _ => hopens.kept place
  complete h := by cases h

theorem frames_of_leftBehind {place : Place} {bytes : Text.Bytes}
    (hp : Leads w₁.tree (temporary p) place)
    (hleaves : LeftBehind w.tree (w₁.withFile place bytes).tree p bytes →
      Leaves w.tree (w₁.withFile place bytes).tree p (linesOf line batch) (.error e)) :
    Frames line batch w (w₁.withFile place bytes) p (.error e) where
  input := hinput
  current := hopens.current
  elsewhere := (leftBehind_of_opens hopens hp).elsewhere.mono (by simp)
  leaves := hleaves (leftBehind_of_opens hopens hp)
  complete h := by cases h

theorem frames_of_replaceFile
    (h : (replaceFile line p batch : Faulty faults _).Yields w₁ result w') :
    Frames line batch w w' p result := by
  cases replacement_of_yields h with
  | unwritten hwrites =>
    cases hwrites with
    | uncreated => exact frames_of_opens hinput hopens id
    | unlocked hp => exact frames_of_leftBehind hinput hopens hp id
    | stopped hp hstops hkept =>
      refine frames_of_leftBehind hinput hopens hp fun hleft => ?_
      cases hstops with
      | record => exact ⟨_, hkept, hleft⟩
      | append => exact ⟨_, hkept, hleft⟩
      | flush => exact ⟨_, hkept, hleft⟩
  | unrenamed hp => exact frames_of_leftBehind hinput hopens hp id
  | renamed hp hall hr =>
    have hkeep := (replaces hp hr).keepsDirs
    have hkept : KeepsBut [p, temporary p] w.tree _ p := keepsBut_of_opens hopens hkeep
      fun place hplace => hp.entry?_rename hr (hplace _ (by simp)) (hplace _ (by simp))
    exact ⟨hinput, hkeep.current.trans hopens.current, hkept,
      ⟨hkept, openRead_of_rename_put hp hr, find_temporary_of_replace hp hr⟩, fun _ => hall⟩

end

theorem frames_of_write
    (h : (writeWith line (.file p) batch : Faulty faults _).Yields w result w') :
    Frames line batch w w' p result := by
  obtain ⟨w₁, ⟨hinput, hopens, -⟩, ⟨dir, e, rfl, rfl⟩ | ⟨-, hreplace⟩⟩ := exists_prepared_of_write h
  · exact frames_of_opens hinput hopens id
  · exact frames_of_replaceFile hinput hopens hreplace

/-- **Writing a batch touches nothing but its destination and the temporary file beside it**, and
    creates nothing else but directories above the destination, whatever is refused on the way.  A
    file that had the name of the temporary file is lost as soon as the temporary file is created.
    That one stays if anything fails from then on, with a front part of the text, and with all of
    it if only the rename has failed. -/
theorem write_touches_two {dest : String}
    (h : (writeWith line (.ofString dest) batch : Faulty faults _).Yields w result w') :
    Frames line batch w w' (.ofString dest) result := by
  rw [Source.ofString] at h
  split at h
  case isTrue =>
    obtain ⟨rfl, rfl⟩ := h.pure
    exact frames_of_opens rfl (.refl _ _) id
  case isFalse => exact frames_of_write h

/-- A file that has the name of the temporary file for `a.jsonl`, beside a directory. -/
def crowded : World :=
  ⟨⟨[(["a.jsonl.tmp".toList], .file (Text.encode "keep")), (["d".toList], .directory)], []⟩, []⟩

/-- A lease to be written there. -/
def newLease : Lease := .new ⟨"s", ShardId.valid_of_all (by decide)⟩

/-- After it has been written to `a.jsonl`. -/
def crowdedWritten : World :=
  ⟨⟨[(["d".toList], .directory),
    (["a.jsonl".toList], .file (Text.encode (print [newLease])))], []⟩, []⟩

/-- After it has not been written to `d`. -/
def crowdedUnrenamed : World :=
  ⟨⟨[(["a.jsonl.tmp".toList], .file (Text.encode "keep")), (["d".toList], .directory),
    (["d.jsonl.tmp".toList], .file (Text.encode (print [newLease])))], []⟩, []⟩

/-- A disk that grants so many requests, and of what comes then only three bytes. -/
@[reducible]
def failingDisk : Faults where
  State := World × Nat
  world s := s.1
  setTree s t := ({ s.1 with tree := t }, s.2)
  ask s _ :=
    if s.2 = 0 then (some (.other "Input/output error (os error 5)"), s)
    else (none, (s.1, s.2 - 1))
  kept _ bytes := bytes.take 3
  world_setTree _ _ := rfl
  world_ask s _ := by by_cases h : s.2 = 0 <;> simp [h]
  kept_prefix _ bytes := List.take_prefix 3 bytes

/-- After the second of two lines has not been written to `a.jsonl`. -/
def crowdedHalf : World :=
  ⟨⟨[(["d".toList], .directory), (["a.jsonl.tmp".toList], .file (Text.encode "one"))], []⟩, []⟩

theorem run_write_crowded :
    (write (.ofString "a.jsonl") [newLease] : Faulty .none _).run crowded =
      (.ok (), crowdedWritten) := by
  decide +kernel

theorem run_write_crowded_directory :
    (write (.ofString "d") [newLease] : Faulty .none _).run crowded =
      (.error (.cannotRename (.ofString "d.jsonl.tmp") (.ofString "d") .isDirectory),
        crowdedUnrenamed) := by
  decide +kernel

theorem run_write_crowded_failing :
    (writeWith .ok (.ofString "a.jsonl") ["one", "two"] : Faulty failingDisk _).run (crowded, 3) =
      (.error (.cannotWriteRecord (.other "Input/output error (os error 5)")),
        (crowdedHalf, 0)) := by
  decide +kernel

/-- One batch is written there, one is not because a directory has its name, and one is not because
    the disk fails in the middle of it. -/
theorem write_touches_two_crowded :
    Frames recordLine [newLease] crowded crowdedWritten (.ofString "a.jsonl") (.ok ()) ∧
      Frames recordLine [newLease] crowded crowdedUnrenamed (.ofString "d")
        (.error (.cannotRename (.ofString "d.jsonl.tmp") (.ofString "d") .isDirectory)) ∧
      Frames .ok ["one", "two"] crowded crowdedHalf (.ofString "a.jsonl")
        (.error (.cannotWriteRecord (.other "Input/output error (os error 5)"))) :=
  ⟨write_touches_two (Faulty.yields_none_iff.mpr run_write_crowded),
    write_touches_two (Faulty.yields_none_iff.mpr run_write_crowded_directory),
    write_touches_two ⟨_, _, rfl, run_write_crowded_failing, rfl⟩⟩

/-! ### What is not left alone -/

theorem not_keepsBut {dest place : Place} {after : Option Files.Entry} (hp : u.PointsTo p dest)
    (hne : dest ≠ place) (hafter : u.entry? place = after) (hchanged : t.entry? place ≠ after)
    (hfile : after ≠ some .directory) : ¬ KeepsBut [p] t u p := by
  intro h
  have hother : ∀ q ∈ [p], ¬ u.PointsTo q place := by
    intro q hq hpoints
    obtain rfl := List.mem_singleton.mp hq
    exact hne (hp.unique hpoints)
  rcases h place hother with hsame | ⟨-, hnew, -⟩
  · exact hchanged (hsame ▸ hafter)
  · exact hfile (hafter ▸ hnew)

/-- More than the destination is touched: a file that has the name of the temporary file is lost
    when the batch is written, and a temporary file is left behind when it cannot be renamed. -/
theorem write_touches_temporary :
    ((write (.ofString "a.jsonl") [newLease] : Faulty .none _).run crowded =
        (.ok (), crowdedWritten) ∧
      ¬ KeepsBut [.ofString "a.jsonl"] crowded.tree crowdedWritten.tree (.ofString "a.jsonl")) ∧
    (write (.ofString "d") [newLease] : Faulty .none _).run crowded =
        (.error (.cannotRename (.ofString "d.jsonl.tmp") (.ofString "d") .isDirectory),
          crowdedUnrenamed) ∧
      ¬ KeepsBut [.ofString "d"] crowded.tree crowdedUnrenamed.tree (.ofString "d") := by
  have hwritten : crowdedWritten.tree.PointsTo (.ofString "a.jsonl") ["a.jsonl".toList] :=
    ⟨_, rfl, rfl⟩
  have hunrenamed : crowdedUnrenamed.tree.PointsTo (.ofString "d") ["d".toList] := ⟨_, rfl, rfl⟩
  refine ⟨⟨run_write_crowded, ?_⟩, run_write_crowded_directory, ?_⟩
  · have hlost : crowdedWritten.tree.entry? ["a.jsonl.tmp".toList] = none := rfl
    exact not_keepsBut hwritten (by decide) hlost (by decide) (by decide)
  · have hleft : crowdedUnrenamed.tree.entry? ["d.jsonl.tmp".toList] =
        some (.file (Text.encode (print [newLease]))) := rfl
    exact not_keepsBut hunrenamed (by decide) hleft (by decide) (by simp)

end LeaseOrder.Batch
