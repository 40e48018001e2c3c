/-
Texts compare as their bytes do.

IDs are kept in ascending order of their code points.  UTF-8 keeps that order: the first byte
of a character tells how many bytes follow, longer forms start with greater bytes, and within
one form the bits of the code point are laid out from the greatest to the least.  So the first
character that differs decides the comparison of the bytes as well.
-/
import Mathlib.Tactic.SplitIfs
import LeaseOrder.Text.Utf8

namespace LeaseOrder.Text

/-- Numbers compare as their digits to the base 64 do. -/
theorem sextets_lt {m n : Nat} (h : m < n) :
    m / 262144 < n / 262144 ∨ m / 262144 = n / 262144 ∧
      (m / 4096 % 64 < n / 4096 % 64 ∨ m / 4096 % 64 = n / 4096 % 64 ∧
        (m / 64 % 64 < n / 64 % 64 ∨ m / 64 % 64 = n / 64 % 64 ∧ m % 64 < n % 64)) := by
  have hdigit : ∀ {a b : Nat}, a < b → a / 64 < b / 64 ∨ a / 64 = b / 64 ∧ a % 64 < b % 64 := by
    intro a b hab
    omega
  have hm₂ : m / 4096 = m / 64 / 64 := by rw [Nat.div_div_eq_div_mul]
  have hn₂ : n / 4096 = n / 64 / 64 := by rw [Nat.div_div_eq_div_mul]
  have hm₃ : m / 262144 = m / 64 / 64 / 64 := by
    rw [Nat.div_div_eq_div_mul, Nat.div_div_eq_div_mul]
  have hn₃ : n / 262144 = n / 64 / 64 / 64 := by
    rw [Nat.div_div_eq_div_mul, Nat.div_div_eq_div_mul]
  rw [hm₂, hn₂, hm₃, hn₃]
  rcases hdigit h with h₁ | ⟨h₁, hlast⟩
  · rcases hdigit h₁ with h₂ | ⟨h₂, hlast⟩
    · rcases hdigit h₂ with h₃ | ⟨h₃, hlast⟩
      · exact Or.inl h₃
      · exact Or.inr ⟨h₃, Or.inl hlast⟩
    · rw [h₂]
      exact Or.inr ⟨rfl, Or.inr ⟨rfl, Or.inl hlast⟩⟩
  · rw [h₁]
    exact Or.inr ⟨rfl, Or.inr ⟨rfl, Or.inr ⟨rfl, hlast⟩⟩⟩

theorem toNat_ofNat_of_lt {n : Nat} (h : n < 256) : (UInt8.ofNat n).toNat = n :=
  UInt8.toNat_ofNat_of_lt' h

/-- The character with the smaller code point has the smaller bytes, whatever comes behind. -/
theorem utf8EncodeChar_append_lt {c d : Char} (h : c < d) (bs cs : Bytes) :
    String.utf8EncodeChar c ++ bs < String.utf8EncodeChar d ++ cs := by
  have hlt : c.val.toNat < d.val.toNat := h
  have hmax : d.val.toNat < 0x110000 := by
    have := d.valid
    simp only [UInt32.isValidChar, Nat.isValidChar] at this
    omega
  unfold String.utf8EncodeChar
  generalize c.val.toNat = m at hlt
  generalize d.val.toNat = n at hlt hmax
  have hdigits := sextets_lt hlt
  have hm : m / 262144 % 8 = m / 262144 := Nat.mod_eq_of_lt (by omega)
  have hn : n / 262144 % 8 = n / 262144 := Nat.mod_eq_of_lt (by omega)
  dsimp only
  rw [hm, hn]
  split_ifs <;> simp (disch := omega) only [List.cons_append, List.nil_append,
    List.cons_lt_cons_iff, UInt8.lt_iff_toNat_lt, ← UInt8.toNat_inj, toNat_ofNat_of_lt]
  -- Forms of different lengths differ in their first bytes already.
  all_goals first
    | exact Or.inl (by omega)
    | by_cases hrest : bs < cs <;> simp only [hrest, and_true, and_false, or_false] <;> omega

theorem flatMap_utf8EncodeChar_lt {as bs : List Char} (h : as < bs) :
    as.flatMap String.utf8EncodeChar < bs.flatMap String.utf8EncodeChar := by
  induction as generalizing bs with
  | nil =>
    cases bs with
    | nil => exact absurd h (List.lt_irrefl _)
    | cons b bs =>
      obtain ⟨x, xs, hx⟩ := List.exists_cons_of_ne_nil (String.utf8EncodeChar_ne_nil (c := b))
      rw [List.flatMap_nil, List.flatMap_cons, hx]
      exact List.nil_lt_cons _ _
  | cons a as ih =>
    cases bs with
    | nil => exact absurd h (List.not_lt_nil _)
    | cons b bs =>
      rw [List.flatMap_cons, List.flatMap_cons]
      rcases List.cons_lt_cons_iff.mp h with hab | ⟨rfl, hrest⟩
      · exact utf8EncodeChar_append_lt hab _ _
      · exact List.append_left_lt (ih hrest)

/-- **Of two texts the smaller one has the smaller bytes.** -/
theorem encode_lt_encode {s t : String} (h : s < t) : encode s < encode t :=
  flatMap_utf8EncodeChar_lt (String.lt_iff.mp h)

end LeaseOrder.Text
