/-
What a chain of steps went through that may fail and did not.

Where the whole chain has a result, so has every step of it.
-/
import Mathlib.Data.List.Forall2

namespace LeaseOrder

variable {ε δ α β : Type}

theorem ok_of_bind {x : Except ε α} {f : α → Except ε β} {b : β} (h : x >>= f = .ok b) :
    ∃ a, x = .ok a ∧ f a = .ok b := by
  cases x with
  | error e => cases h
  | ok a => exact ⟨a, rfl, h⟩

theorem ok_of_map {x : Except ε α} {f : α → β} {b : β} (h : x.map f = .ok b) :
    ∃ a, x = .ok a ∧ b = f a := by
  cases x with
  | error e => cases h
  | ok a => exact ⟨a, rfl, (Except.ok.inj h).symm⟩

theorem error_of_map {x : Except ε α} {f : α → β} {e : ε} (h : x.map f = .error e) :
    x = .error e := by
  cases x with
  | error e' => rw [Except.error.inj h]
  | ok a => cases h

theorem ok_of_mapError {x : Except ε α} {f : ε → δ} {a : α} (h : x.mapError f = .ok a) :
    x = .ok a := by
  cases x with
  | error e => cases h
  | ok b => rw [Except.ok.inj h]

theorem mapError_map (x : Except ε α) (f : α → β) (g : ε → δ) :
    (x.map f).mapError g = (x.mapError g).map f := by
  cases x <;> rfl

theorem forall₂_of_mapM {f : α → Except ε β} {xs : List α} {ys : List β}
    (h : xs.mapM f = .ok ys) : List.Forall₂ (fun x y => f x = .ok y) xs ys := by
  induction xs generalizing ys with
  | nil =>
    obtain rfl := Except.ok.inj h
    exact .nil
  | cons x xs ih =>
    rw [List.mapM_cons] at h
    obtain ⟨y, hy, h⟩ := ok_of_bind h
    obtain ⟨rest, hrest, h⟩ := ok_of_bind h
    obtain rfl := Except.ok.inj h
    exact .cons hy (ih hrest)

/-! ### Outcomes that are told beforehand

Where it is known what leads to each result and what to each error, and one of these is the case,
nothing else leads there.
-/

section

variable {x : Except ε α} {P : α → Prop} {Q : ε → Prop}

theorem eq_ok_iff_of_told (hok : ∀ a, P a → x = .ok a) (herror : ∀ e, Q e → x = .error e)
    (htold : (∃ a, P a) ∨ ∃ e, Q e) (a : α) : x = .ok a ↔ P a := by
  refine ⟨?_, hok a⟩
  intro h
  rcases htold with ⟨a', ha⟩ | ⟨e, he⟩
  · have hsame := (hok a' ha).symm.trans h
    exact Except.ok.inj hsame ▸ ha
  · have hother := (herror e he).symm.trans h
    cases hother

theorem eq_error_iff_of_told (hok : ∀ a, P a → x = .ok a) (herror : ∀ e, Q e → x = .error e)
    (htold : (∃ a, P a) ∨ ∃ e, Q e) (e : ε) : x = .error e ↔ Q e := by
  refine ⟨?_, herror e⟩
  intro h
  rcases htold with ⟨a, ha⟩ | ⟨e', he⟩
  · have hother := (hok a ha).symm.trans h
    cases hother
  · have hsame := (herror e' he).symm.trans h
    exact Except.error.inj hsame ▸ he

end

end LeaseOrder
