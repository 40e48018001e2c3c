/-
The shortest decimal text of a binary floating point number.

`digits` tries one digit, two digits and so on: the first decimal grid that has a point
which reads back as the number wins, and of two such points the nearer one.  `text`
writes the digits positionally where the number is neither very small nor very great.
-/
import LeaseOrder.Decimal.Binary64
import LeaseOrder.Text.Basic

namespace LeaseOrder.Decimal

/-- A decimal number `digits · 10 ^ exponent`. -/
structure Scientific where
  digits : Nat
  exponent : Int
deriving DecidableEq, Repr

namespace Scientific

/-- The number as a fraction. -/
def fraction (s : Scientific) : Nat × Nat :=
  if 0 ≤ s.exponent then (s.digits * Nat.pow 10 s.exponent.toNat, 1)
  else (s.digits, Nat.pow 10 (-s.exponent).toNat)

/-- The same number without trailing zero digits. -/
def strip (s : Scientific) : Scientific :=
  if s.digits ≠ 0 ∧ s.digits % 10 = 0 then strip ⟨s.digits / 10, s.exponent + 1⟩ else s
termination_by s.digits
decreasing_by omega

end Scientific

namespace Shortest

/-- The exponent of the leading decimal digit of a positive fraction. -/
def magnitude (num den : Nat) : Int :=
  if den ≤ num then ((Text.decimalChars (num / den)).length : Int) - 1
  else match (List.range 400).find? fun j => den ≤ num * Nat.pow 10 j with
    | some j => -(j : Int)
    | none => -400

/-- The two neighbours of a fraction on the grid of multiples of `10 ^ e`, the nearer first. -/
def neighbours (num den : Nat) (e : Int) : List Scientific :=
  let (a, b) := if 0 ≤ e then (num, den * Nat.pow 10 e.toNat) else (num * Nat.pow 10 (-e).toNat, den)
  let q := a / b
  let r := a % b
  if r = 0 then [⟨q, e⟩]
  else if 2 * r < b || (2 * r = b && q % 2 = 0) then [⟨q, e⟩, ⟨q + 1, e⟩]
  else [⟨q + 1, e⟩, ⟨q, e⟩]

/-- The decimal number reads back as the magnitude. -/
def readsBack (x : Binary64) (s : Scientific) : Bool :=
  let (a, b) := s.fraction
  Binary64.round a b == some x

/-- The decimal number of fewest digits that reads back as the magnitude. -/
def digits (x : Binary64) : Scientific :=
  let (num, den) := x.fraction
  let k := magnitude num den
  let candidates := (List.range 17).flatMap fun (n : Nat) => neighbours num den (k - n)
  ((candidates.find? (readsBack x)).getD ⟨0, 0⟩).strip

/-- The least exponent of a leading digit that is written positionally. -/
def minPositional : Int := -5

/-- The greatest exponent of a leading digit that is written positionally. -/
def maxPositional : Int := 15

/-- The exponent after the letter, always with its sign. -/
def exponentText (e : Int) : String :=
  (if e < 0 then "-" else "+") ++ Text.decimal e.natAbs

/-- The text of the magnitude, with at least one place after the point where it has one. -/
def magnitudeText (x : Binary64) : String :=
  if x.mantissa = 0 then "0.0"
  else
    let s := digits x
    let ds := Text.decimalChars s.digits
    let lead := s.exponent + ds.length - 1
    if minPositional ≤ lead ∧ lead ≤ maxPositional then
      if 0 ≤ s.exponent then
        String.ofList (ds ++ List.replicate s.exponent.toNat '0' ++ ['.', '0'])
      else if 0 ≤ lead then
        String.ofList (ds.take (lead.toNat + 1) ++ '.' :: ds.drop (lead.toNat + 1))
      else
        String.ofList ('0' :: '.' :: List.replicate ((-lead).toNat - 1) '0' ++ ds)
    else
      match ds with
      | [d] => String.ofList [d, 'e'] ++ exponentText lead
      | d :: r => String.ofList (d :: '.' :: r) ++ "e" ++ exponentText lead
      | [] => ""

end Shortest

end LeaseOrder.Decimal
