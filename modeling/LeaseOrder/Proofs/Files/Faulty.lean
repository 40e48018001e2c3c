/-
What the operations do to a world, whatever is refused.

A request that is refused changes nothing, except that appending to a file may have come halfway.
So an operation does what the tree says or leaves the world as it is.  The system has a state of
which the world is all that shows, so `Yields` says what a run may come to from a world, and it can
be taken apart without knowing the faults.  Creating directories only adds directories on the way,
whether it comes to its end or not.  Without faults nothing is refused, and what the tree allows is
done.
-/
import LeaseOrder.Proofs.Files.Grow

namespace LeaseOrder.Files

open Files.Tree

/-- Some request is refused for this reason at some time. -/
def Faults.Refuses (faults : Faults) (e : FileError) : Prop :=
  ∃ s r, (faults.ask s r).1 = some e

theorem Faults.not_refuses_none (e : FileError) : ¬ Faults.none.Refuses e := by
  rintro ⟨s, r, h⟩
  cases h

namespace World

/-- The world with a file at a place. -/
def withFile (w : World) (place : Place) (bytes : Text.Bytes) : World :=
  { w with tree := w.tree.put place (.file bytes) }

@[simp] theorem tree_withFile (w : World) (place : Place) (bytes : Text.Bytes) :
    (w.withFile place bytes).tree = w.tree.put place (.file bytes) :=
  rfl

theorem rewrite_withFile (w : World) {place : Place} (hplace : place ≠ []) (bytes : Text.Bytes)
    (f : Text.Bytes → Text.Bytes) :
    { w.withFile place bytes with tree := (w.withFile place bytes).tree.rewrite place f } =
      w.withFile place (f bytes) := by
  simp [withFile, hplace]

end World

namespace Faulty

variable {faults : Faults} {w w' : World} {p q : Path}

section

variable {α β : Type} {x : Faulty faults α} {f : α → Faulty faults β} {a : α} {b : β}

/-- From a state that shows the one world this may come out, and then the other world shows. -/
def Yields (x : Faulty faults α) (w : World) (a : α) (w' : World) : Prop :=
  ∃ s s', faults.world s = w ∧ x.run s = (a, s') ∧ faults.world s' = w'

/-- An operation whose result is known is followed by what comes after it. -/
theorem run_bind_of {s s' : faults.State} (h : x.run s = (a, s')) :
    (x >>= f).run s = (f a).run s' := by
  have hbind : (x >>= f).run s = (f (x.run s).1).run (x.run s).2 := rfl
  rw [hbind, h]

theorem Yields.pure {a' : α} (h : (Pure.pure a : Faulty faults α).Yields w a' w') :
    a = a' ∧ w = w' := by
  obtain ⟨s, s', rfl, hrun, rfl⟩ := h
  obtain ⟨rfl, rfl⟩ := Prod.mk.inj hrun
  exact ⟨rfl, rfl⟩

/-- A run comes through what its first part may come to. -/
theorem Yields.bind (h : (x >>= f).Yields w b w') :
    ∃ a w₁, x.Yields w a w₁ ∧ (f a).Yields w₁ b w' := by
  obtain ⟨s, s', rfl, hrun, rfl⟩ := h
  rcases hfirst : x.run s with ⟨a, s₁⟩
  rw [run_bind_of hfirst] at hrun
  exact ⟨a, faults.world s₁, ⟨s, s₁, rfl, hfirst, rfl⟩, s₁, s', rfl, hrun, rfl⟩

end

/-- Without faults the world is all that there is. -/
theorem yields_none_iff {α : Type} {x : Faulty .none α} {a : α} :
    x.Yields w a w' ↔ x.run w = (a, w') := by
  refine ⟨?_, fun h => ⟨w, w', rfl, h, rfl⟩⟩
  rintro ⟨s, s', rfl, h, rfl⟩
  exact h

/-! ### Single operations -/

section

variable {α : Type} {r : Request}

theorem answer_cases {refused : FileError → α} {f : World → α} {a : α}
    (h : (answer r refused f : Faulty faults α).Yields w a w') :
    w = w' ∧ (a = f w ∨ ∃ e, faults.Refuses e ∧ a = refused e) := by
  obtain ⟨s, s', rfl, hrun, rfl⟩ := h
  have hworld := faults.world_ask s r
  simp only [Faulty.run, StateT.run, answer] at hrun
  rcases hasked : faults.ask s r with ⟨refusal, s₁⟩
  rw [hasked] at hrun hworld
  cases refusal with
  | none =>
    obtain ⟨rfl, rfl⟩ := Prod.mk.inj hrun
    exact ⟨hworld.symm, .inl (congrArg f hworld)⟩
  | some e =>
    obtain ⟨rfl, rfl⟩ := Prod.mk.inj hrun
    exact ⟨hworld.symm, .inr ⟨e, ⟨s, r, congrArg Prod.fst hasked⟩, rfl⟩⟩

theorem change_cases {f : Tree → Except FileError (α × Tree)} {result : Except FileError α}
    (h : (change r f : Faulty faults _).Yields w result w') :
    (∃ a u, f w.tree = .ok (a, u) ∧ result = .ok a ∧ w' = { w with tree := u }) ∨
      ∃ e, (faults.Refuses e ∨ f w.tree = .error e) ∧ result = .error e ∧ w = w' := by
  obtain ⟨s, s', rfl, hrun, rfl⟩ := h
  have hworld := faults.world_ask s r
  simp only [Faulty.run, StateT.run, change] at hrun
  rcases hasked : faults.ask s r with ⟨refusal, s₁⟩
  rw [hasked] at hrun hworld
  dsimp only at hrun hworld
  cases refusal with
  | none =>
    dsimp only at hrun
    rw [hworld] at hrun
    cases hf : f (faults.world s).tree with
    | ok changed =>
      obtain ⟨a, u⟩ := changed
      rw [hf] at hrun
      obtain ⟨rfl, rfl⟩ := Prod.mk.inj hrun
      exact .inl ⟨a, u, rfl, rfl, by rw [faults.world_setTree, hworld]⟩
    | error e =>
      rw [hf] at hrun
      obtain ⟨rfl, rfl⟩ := Prod.mk.inj hrun
      exact .inr ⟨e, .inr rfl, rfl, hworld.symm⟩
  | some e =>
    obtain ⟨rfl, rfl⟩ := Prod.mk.inj hrun
    exact .inr ⟨e, .inl ⟨s, r, congrArg Prod.fst hasked⟩, rfl, hworld.symm⟩

end

/-- Whatever gets through, reading changes nothing. -/
theorem readContents_cases {c got : Contents}
    (h : (readContents c : Faulty faults _).Yields w got w') :
    w = w' ∧ (got = c ∨ ∃ bytes e, got = ⟨bytes, some e⟩) := by
  obtain ⟨s, s', rfl, hrun, rfl⟩ := h
  have hworld := faults.world_ask s (.read c)
  simp only [Faulty.run, StateT.run, readContents] at hrun
  rcases hasked : faults.ask s (.read c) with ⟨refusal, s₁⟩
  rw [hasked] at hrun hworld
  cases refusal with
  | some e =>
    obtain ⟨rfl, rfl⟩ := Prod.mk.inj hrun
    exact ⟨hworld.symm, .inr ⟨_, _, rfl⟩⟩
  | none =>
    obtain ⟨rfl, rfl⟩ := Prod.mk.inj hrun
    exact ⟨hworld.symm, .inl rfl⟩

theorem readContents_of_readInput {got : Contents}
    (h : (FileSystem.readInput : Faulty faults _).Yields w got w') :
    (readContents ⟨w.input, none⟩ : Faulty faults _).Yields w got w' := by
  obtain ⟨s, s', rfl, hrun, rfl⟩ := h
  exact ⟨s, s', rfl, hrun, rfl⟩

theorem create_cases {result : Except FileError Place}
    (h : (FileSystem.create p : Faulty faults _).Yields w result w') :
    (∃ place, Leads w.tree p place ∧ result = .ok place ∧ w' = w.withFile place []) ∨
      ∃ e, (faults.Refuses e ∨ w.tree.createFile p = .error e) ∧ result = .error e ∧ w = w' := by
  rcases change_cases h with ⟨place, u, hcreate, rfl, rfl⟩ | hfailed
  · obtain ⟨hleads, rfl⟩ := leads_of_createFile hcreate
    exact .inl ⟨place, hleads, rfl, rfl⟩
  · exact .inr hfailed

section

variable {result : Except FileError Unit}

/-- A change of the tree that has no other result. -/
theorem change_unit_cases {r : Request} {f : Tree → Except FileError Tree}
    (h : (change r fun t => (f t).map (Prod.mk ()) : Faulty faults _).Yields w result w') :
    (∃ u, f w.tree = .ok u ∧ result = .ok () ∧ w' = { w with tree := u }) ∨
      ∃ e, (faults.Refuses e ∨ f w.tree = .error e) ∧ result = .error e ∧ w = w' := by
  rcases change_cases h with ⟨_, u, hf, rfl, rfl⟩ | ⟨e, hreason, rfl, rfl⟩
  · obtain ⟨v, hv, hpair⟩ := ok_of_map hf
    obtain ⟨-, rfl⟩ := Prod.mk.inj hpair
    exact .inl ⟨u, hv, rfl, rfl⟩
  · exact .inr ⟨e, hreason.imp_right error_of_map, rfl, rfl⟩

variable {place : Place} {bytes : Text.Bytes} {text : String}

theorem world_rewrite {s : faults.State} (hplace : place ≠ [])
    (hs : faults.world s = w.withFile place bytes) (f : Text.Bytes → Text.Bytes) :
    faults.world (faults.setTree s ((faults.world s).tree.rewrite place f)) =
      w.withFile place (f bytes) := by
  rw [faults.world_setTree, hs, World.rewrite_withFile w hplace]

/-- Of a text that is refused a front part may get into the file. -/
theorem append_cases (hplace : place ≠ [])
    (h : (FileSystem.append place text : Faulty faults _).Yields (w.withFile place bytes) result
      w') :
    (result = .ok () ∧ w' = w.withFile place (bytes ++ Text.encode text)) ∨
      ∃ e kept, faults.Refuses e ∧ kept <+: Text.encode text ∧ result = .error e ∧
        w' = w.withFile place (bytes ++ kept) := by
  obtain ⟨s, s', hs, hrun, rfl⟩ := h
  have hworld := faults.world_ask s (.append place text)
  change (append place text : Faulty faults _).run s = _ at hrun
  simp only [Faulty.run, StateT.run, append] at hrun
  rcases hasked : faults.ask s (.append place text) with ⟨refusal, s₁⟩
  rw [hasked, hs] at hworld
  rw [hasked] at hrun
  cases refusal with
  | none =>
    obtain ⟨rfl, rfl⟩ := Prod.mk.inj hrun
    exact .inl ⟨rfl, world_rewrite hplace hworld _⟩
  | some e =>
    obtain ⟨rfl, rfl⟩ := Prod.mk.inj hrun
    exact .inr ⟨e, _, ⟨s, _, congrArg Prod.fst hasked⟩, faults.kept_prefix _ _, rfl,
      world_rewrite hplace hworld _⟩

/-- Of a file that is let go a front part may stay. -/
theorem abandon_cases (hplace : place ≠ []) {u : Unit}
    (h : (FileSystem.abandon place : Faulty faults _).Yields (w.withFile place bytes) u w') :
    ∃ kept, kept <+: bytes ∧ w' = w.withFile place kept := by
  obtain ⟨s, s', hs, hrun, rfl⟩ := h
  obtain ⟨-, rfl⟩ := Prod.mk.inj hrun
  exact ⟨_, faults.kept_prefix s bytes, world_rewrite hplace hs _⟩

/-! ### Creating directories -/

/-- What comes of creating one directory, unless it is there. -/
inductive Ensures (p : Path) (w : World) : Except FileError Unit → World → Prop
  | made {u : Tree} (h : w.tree.makeDir p = .ok u) : Ensures p w (.ok ()) { w with tree := u }
  | there (h : w.tree.find p = .ok .directory) : Ensures p w (.ok ()) w
  | failed (e : FileError) : Ensures p w (.error e) w

/-- What comes of creating a directory with all directories above it that are missing. -/
inductive Creates : Path → World → Except FileError Unit → World → Prop
  | empty {p : Path} {w : World} (h : p.isEmpty) : Creates p w (.ok ()) w
  | ensured {p : Path} {w w' : World} {result : Except FileError Unit} (hne : ¬ p.isEmpty)
      (h : Ensures p w result w') : Creates p w result w'
  | inside {p q : Path} {w w₁ w' : World} {result : Except FileError Unit} (hne : ¬ p.isEmpty)
      (hq : p.parent? = some q) (habove : Creates q w (.ok ()) w₁)
      (h : Ensures p w₁ result w') : Creates p w result w'
  | stuck {p q : Path} {w w' : World} {e : FileError} (hne : ¬ p.isEmpty)
      (hq : p.parent? = some q) (habove : Creates q w (.error e) w') : Creates p w (.error e) w'

/-- What is found to be a directory is one. -/
theorem isDir_cases {found : Bool}
    (h : (FileSystem.isDir p : Faulty faults _).Yields w found w') :
    w = w' ∧ (found = true → w.tree.find p = .ok .directory) := by
  change (inspect p _ : Faulty faults _).Yields w found w' at h
  obtain ⟨rfl, rfl | ⟨-, -, rfl⟩⟩ := answer_cases h
  · refine ⟨rfl, fun hmatches => ?_⟩
    dsimp only at hmatches
    split at hmatches
    · assumption
    · cases hmatches
  · exact ⟨rfl, nofun⟩

theorem ensures_of_isDir {e : FileError}
    (h : (do
      if ← FileSystem.isDir p then return Except.ok ()
      else return Except.error e : Faulty faults _).Yields w result w') :
    Ensures p w result w' := by
  obtain ⟨found, w₁, hfound, h⟩ := h.bind
  obtain ⟨rfl, hdir⟩ := isDir_cases hfound
  cases found with
  | true =>
    obtain ⟨rfl, rfl⟩ := h.pure
    exact .there (hdir rfl)
  | false =>
    obtain ⟨rfl, rfl⟩ := h.pure
    exact .failed e

theorem ensures_of_ensureDir (h : (ensureDir p : Faulty faults _).Yields w result w') :
    Ensures p w result w' := by
  unfold ensureDir at h
  obtain ⟨made, w₁, hmake, h⟩ := h.bind
  rcases change_unit_cases hmake with ⟨u, hu, rfl, rfl⟩ | ⟨e, -, rfl, rfl⟩
  · obtain ⟨rfl, rfl⟩ := h.pure
    exact .made hu
  · exact ensures_of_isDir h

theorem creates_of_createDirs (h : (createDirs p : Faulty faults _).Yields w result w') :
    Creates p w result w' := by
  induction hn : p.segments.length using Nat.strongRecOn generalizing p w w' result with
  | ind n ih =>
    unfold createDirs at h
    split at h
    case isTrue hempty =>
      obtain ⟨rfl, rfl⟩ := h.pure
      exact .empty hempty
    case isFalse hne =>
      obtain ⟨made, w₁, hmake, h⟩ := h.bind
      rcases change_unit_cases hmake with ⟨u, hu, rfl, rfl⟩ | ⟨e, -, rfl, rfl⟩
      · obtain ⟨rfl, rfl⟩ := h.pure
        exact .ensured hne (.made hu)
      cases e
      case notFound =>
        dsimp only at h
        split at h
        case h_1 =>
          obtain ⟨rfl, rfl⟩ := h.pure
          exact .ensured hne (.failed _)
        case h_2 q hq =>
          obtain ⟨above, w₂, hrun, h⟩ := h.bind
          have habove := ih _ (hn ▸ Path.parent?_segments_lt hq) hrun rfl
          cases above with
          | ok u => exact .inside hne hq habove (ensures_of_ensureDir h)
          | error f =>
            obtain ⟨rfl, rfl⟩ := h.pure
            exact .stuck hne hq habove
      all_goals exact .ensured hne (ensures_of_isDir h)

variable {paths : List Path}

theorem Ensures.find (h : Ensures p w (.ok ()) w') : w'.tree.find p = .ok .directory := by
  cases h with
  | made h => exact Tree.find_of_makeDir h
  | there h => exact h

/-- A directory that has been created is there. -/
theorem Creates.find (hp : ¬ p.isEmpty) (h : Creates p w (.ok ()) w') :
    w'.tree.find p = .ok .directory := by
  cases h with
  | empty h => exact absurd h hp
  | ensured _ h => exact h.find
  | inside _ _ _ h => exact h.find

theorem Ensures.idle (h : Ensures p w result w') (hfind : w.tree.find p = .ok .directory) :
    w' = w := by
  cases h with
  | made h =>
    rw [makeDir_of_find hfind] at h
    cases h
  | there => rfl
  | failed => rfl

/-- Where the directory is there, nothing is done. -/
theorem Creates.idle (h : Creates p w result w') (hfind : w.tree.find p = .ok .directory) :
    w' = w := by
  induction h with
  | empty => rfl
  | ensured _ h => exact h.idle hfind
  | @inside p q w w₁ w' result _ hq habove h ih =>
    obtain rfl : w₁ = w := by
      by_cases hempty : q.isEmpty
      · cases habove with
        | empty => rfl
        | ensured hne => exact absurd hempty hne
        | inside hne => exact absurd hempty hne
      · exact ih (find_of_parent? hq hempty hfind)
    exact h.idle hfind
  | @stuck p q w w' e _ hq habove ih =>
    refine ih (find_of_parent? hq ?_ hfind)
    intro hempty
    cases habove with
    | ensured hne => exact absurd hempty hne
    | inside hne => exact absurd hempty hne
    | stuck hne => exact absurd hempty hne

theorem Ensures.opens (h : Ensures p w result w') (hp : p ∈ paths) :
    Opens w.tree w'.tree paths := by
  cases h with
  | made h => exact opens_makeDir h hp
  | there h => exact .refl _ _
  | failed => exact .refl _ _

/-- **Creating directories only adds directories on the way**, also when it fails there. -/
theorem Creates.opens (h : Creates p w result w') :
    Opens w.tree w'.tree (p :: p.ancestors) := by
  induction h with
  | empty => exact .refl _ _
  | ensured _ h => exact h.opens List.mem_cons_self
  | inside _ hq _ h ih =>
    rw [← Path.ancestors_of_parent? hq] at ih
    exact (ih.mono (List.subset_cons_self _ _)).trans (h.opens List.mem_cons_self)
  | stuck _ hq _ ih =>
    rw [← Path.ancestors_of_parent? hq] at ih
    exact ih.mono (List.subset_cons_self _ _)

theorem Ensures.input (h : Ensures p w result w') : w'.input = w.input := by
  cases h <;> rfl

theorem Creates.input (h : Creates p w result w') : w'.input = w.input := by
  induction h with
  | empty => rfl
  | ensured _ h => exact h.input
  | inside _ _ _ h ih => exact h.input.trans ih
  | stuck _ _ _ ih => exact ih

end

end Faulty

/-! ### The reliable system -/

namespace World

variable {w w' : World} {p : Path}

theorem run_bind_of {α β : Type} {x : StateM World α} {f : α → StateM World β} {a : α}
    (h : x.run w = (a, w')) : (x >>= f).run w = (f a).run w' := by
  rw [StateT.run_bind, h]
  rfl

theorem run_openRead : (FileSystem.openRead p : StateM World _).run w = (w.tree.openRead p, w) :=
  rfl

theorem run_isDir : (FileSystem.isDir p : StateM World _).run w =
    (w.tree.find p matches .ok .directory, w) := rfl

theorem run_makeDir_error {e : FileError} (h : w.tree.makeDir p = .error e) :
    (FileSystem.makeDir p : StateM World _).run w = (.error e, w) := by
  show (Faulty.change (.makeDir p) fun t => (t.makeDir p).map (Prod.mk ()) :
    Faulty .none _).run w = _
  simp only [Faulty.run, StateT.run, Faulty.change, Faults.none, h, Except.map]

/-- A directory that is there is left as it is. -/
theorem run_createDirs (h : w.tree.find p = .ok .directory) :
    (createDirs p : StateM World _).run w = (.ok (), w) := by
  unfold createDirs
  split
  · rfl
  rw [run_bind_of (run_makeDir_error (Tree.makeDir_of_find h))]
  dsimp only
  rw [run_bind_of run_isDir, h]
  rfl

end World

end LeaseOrder.Files
