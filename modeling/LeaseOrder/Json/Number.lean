/-
Numbers of a JSON text.

A literal keeps its digits as they are written.  Its value is a machine word where it
has neither point nor exponent and fits one; all else is floating point, built from
the digits that fit a word and a power of ten.  A literal that is too great for
floating point has no value.
-/
import LeaseOrder.Decimal.Shortest

namespace LeaseOrder.Json

/-- A number as it is written. -/
structure Literal where
  negative : Bool
  whole : List Char
  /-- The digits after the point; none where there is no point. -/
  fraction : List Char
  /-- The sign and the digits of the exponent. -/
  exponent : Option (Bool × List Char)
deriving DecidableEq, Repr

/-- The value of a number. -/
inductive Number where
  | unsigned (n : UInt64)
  /-- An integer below zero. -/
  | negative (n : Int64)
  | float (minus : Bool) (magnitude : Decimal.Binary64)
deriving DecidableEq, Repr

/-- Appends digits to a word for as long as it stays a word; the rest is handed back. -/
def absorb (n : Nat) : List Char → Nat × List Char
  | [] => (n, [])
  | c :: r =>
    let m := 10 * n + Text.digitValue c
    if m < UInt64.size then absorb m r else (n, c :: r)

/-- The floating point number `n · 10 ^ e`. -/
def Number.ofParts (minus : Bool) (n : Nat) (e : Int) : Option Number := do
  let x ← Decimal.Binary64.round n 1
  return .float minus (← x.scale10 e)

namespace Literal

/-- The value of the exponent, 0 where there is none. -/
def power (l : Literal) : Int :=
  match l.exponent with
  | none => 0
  | some (true, ds) => -(Text.value ds : Int)
  | some (false, ds) => Text.value ds

/-- The value, if it is not too great. -/
def number? (l : Literal) : Option Number :=
  let (n, left) := absorb 0 l.whole
  if l.fraction.isEmpty && l.exponent.isNone && left.isEmpty then
    if !l.negative then some (.unsigned (UInt64.ofNat n))
    else if 0 < n && n ≤ Text.signedBound then some (.negative (Int64.ofInt (-(n : Int))))
    else Number.ofParts true n 0
  else
    let (m, unread) := absorb n l.fraction
    Number.ofParts l.negative m
      ((left.length : Int) - (l.fraction.length - unread.length) + l.power)

end Literal

/-- The text of a number. -/
def Number.text : Number → String
  | .unsigned n => Text.decimal n.toNat
  | .negative n => Text.decimalInt n.toInt
  | .float minus x => (if minus then "-" else "") ++ Decimal.Shortest.magnitudeText x

end LeaseOrder.Json
