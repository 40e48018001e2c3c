/-
Binary floating point of 64 bits, in exact arithmetic.

A magnitude is `mantissa · 2 ^ exponent` with a mantissa of at most 53 bits.  `round`
is the only way in: it takes a fraction to the nearest magnitude, a tie to the even
mantissa, and what is too great to none.
-/

namespace LeaseOrder.Decimal

/-- A finite magnitude, `mantissa · 2 ^ exponent`. -/
structure Binary64 where
  mantissa : Nat
  exponent : Int
deriving DecidableEq, Repr

namespace Binary64

/-- One more than the greatest mantissa. -/
def bound : Nat := 9007199254740992

/-- The magnitude 0. -/
def zero : Binary64 := ⟨0, -1074⟩

/-- A fraction rounded to an integer, ties to even. -/
def roundDiv (num den : Nat) : Nat :=
  let q := num / den
  let r := num % den
  if den < 2 * r || (2 * r = den && q % 2 = 1) then q + 1 else q

/-- The fraction `num / den` divided by `2 ^ e`. -/
def shift (num den : Nat) (e : Int) : Nat × Nat :=
  if 0 ≤ e then (num, den * Nat.pow 2 e.toNat) else (num * Nat.pow 2 (-e).toNat, den)

/-- The exponent at which the mantissa of a positive fraction has 53 bits, or the least one. -/
def scaleOf (num den : Nat) : Int :=
  let e := (num.log2 : Int) - den.log2 - 53
  let (a, b) := shift num den e
  max (-1074) (if a / b < bound then e else e + 1)

/-- The magnitude nearest to `num / den`. -/
def round (num den : Nat) : Option Binary64 :=
  if num = 0 then some zero
  else
    let e := scaleOf num den
    let (a, b) := shift num den e
    let m := roundDiv a b
    let r : Binary64 := if m = bound then ⟨bound / 2, e + 1⟩ else ⟨m, e⟩
    if 971 < r.exponent then none else some r

/-- The magnitude as a fraction. -/
def fraction (x : Binary64) : Nat × Nat :=
  if 0 ≤ x.exponent then (x.mantissa * Nat.pow 2 x.exponent.toNat, 1)
  else (x.mantissa, Nat.pow 2 (-x.exponent).toNat)

/-- The rounded product. -/
def mul (x y : Binary64) : Option Binary64 :=
  let (a, b) := x.fraction
  let (c, d) := y.fraction
  round (a * c) (b * d)

/-- The rounded quotient by a positive magnitude. -/
def div (x y : Binary64) : Option Binary64 :=
  let (a, b) := x.fraction
  let (c, d) := y.fraction
  round (a * d) (b * c)

/-- The greatest power of ten that a magnitude is multiplied or divided by in one step. -/
def maxStep : Nat := 308

/-- The rounded power of ten. -/
def powerOfTen (k : Nat) : Option Binary64 :=
  round (Nat.pow 10 k) 1

/-- The rounded value of `x · 10 ^ e`: one product or quotient with a rounded power of ten,
    after as many quotients by the greatest power as it takes. -/
def scale10 (x : Binary64) (e : Int) : Option Binary64 :=
  if e.natAbs ≤ maxStep then
    (powerOfTen e.natAbs).bind fun p => if 0 ≤ e then x.mul p else x.div p
  else if x.mantissa = 0 then some x
  else if 0 ≤ e then none
  else (powerOfTen maxStep).bind fun p => (x.div p).bind fun y => scale10 y (e + maxStep)
termination_by e.natAbs
decreasing_by have hm : maxStep = 308 := rfl; omega

end Binary64

end LeaseOrder.Decimal
