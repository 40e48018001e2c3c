/-
Numbers of TOML.

Digits may have single underscores between them.  A decimal number has a sign or none and
no needless zero in front; an integer has to be a signed word, and a float with a point or
an exponent must not round to infinity from below.
-/
import LeaseOrder.Decimal.Binary64
import LeaseOrder.Text.Basic
import LeaseOrder.Toml.Node

namespace LeaseOrder.Toml

/-- The further digits of a number: an underscore has to be followed by a digit. -/
def readMoreDigits (isDigit : Char → Bool) : List Char → Option (List Char × List Char)
  | [] => some ([], [])
  | '_' :: c :: r =>
    if isDigit c then (readMoreDigits isDigit r).map fun p => (c :: p.1, p.2) else none
  | c :: r =>
    if isDigit c then (readMoreDigits isDigit r).map fun p => (c :: p.1, p.2)
    else if c = '_' then none
    else some ([], c :: r)

/-- The digits of a number; there has to be one. -/
def readDigits (isDigit : Char → Bool) : List Char → Option (List Char × List Char)
  | [] => none
  | c :: r =>
    if isDigit c then (readMoreDigits isDigit r).map fun p => (c :: p.1, p.2) else none

/-- A sign that may be left out, and whether it is a minus. -/
def readSign : List Char → Bool × List Char
  | '-' :: r => (true, r)
  | '+' :: r => (false, r)
  | cs => (false, cs)

/-- The digits of a decimal number: a zero alone, or digits that start with another one. -/
def readDecimal : List Char → Option (List Char × List Char)
  | '0' :: r => some (['0'], r)
  | cs => readDigits Char.isDigit cs

/-- The digits of a fraction, after the point. -/
def readFraction : List Char → Option (List Char × List Char)
  | '.' :: r => readDigits Char.isDigit r
  | cs => some ([], cs)

/-- A sign and the digits of an exponent, after its letter. -/
def readExponent : List Char → Option ((Bool × List Char) × List Char)
  | [] => some ((false, []), [])
  | c :: r =>
    if c = 'e' || c = 'E' then
      (readDigits Char.isDigit (readSign r).2).map fun p => (((readSign r).1, p.1), p.2)
    else some ((false, []), c :: r)

/-- The number `whole.fraction · 10 ^ exponent` rounds to a finite one. -/
def isFinite (whole fraction : List Char) (exponent : Int) : Bool :=
  let digits := (whole ++ fraction).dropWhile (· = '0')
  let power := exponent - fraction.length
  let leading := power + digits.length
  if digits.isEmpty || leading ≤ 308 then true
  else if 309 < leading then false
  else if 0 ≤ power then (Decimal.Binary64.round (Text.value digits * Nat.pow 10 power.toNat) 1).isSome
  else (Decimal.Binary64.round (Text.value digits) (Nat.pow 10 (-power).toNat)).isSome

/-- The words for infinity and for what is no number. -/
def readSpecial : List Char → Option (List Char)
  | 'i' :: 'n' :: 'f' :: r => some r
  | 'n' :: 'a' :: 'n' :: r => some r
  | _ => none

/-- An integer with this sign and these digits, if it is a signed word. -/
def integer? (negative : Bool) (n : Nat) : Option Node :=
  if negative then
    if n ≤ Text.signedBound then some (.integer (Int64.ofInt (-(n : Int)))) else none
  else if n < Text.signedBound then some (.integer (Int64.ofInt n))
  else none

/-- A decimal number, an integer or a float. -/
def readDecimalNumber (cs : List Char) : Option (Node × List Char) := do
  let (negative, cs) := readSign cs
  match readSpecial cs with
  | some rest => return (.float, rest)
  | none =>
    let (whole, rest) ← readDecimal cs
    let (fraction, rest) ← readFraction rest
    let ((minus, power), rest) ← readExponent rest
    if fraction.isEmpty && power.isEmpty then
      return (← integer? negative (Text.value whole), rest)
    else
      let exponent : Int := if minus then -(Text.value power : Int) else Text.value power
      if negative || isFinite whole fraction exponent then return (.float, rest) else none

/-- The digits of a base below ten. -/
def isDigitBelow (bound : Char) (c : Char) : Bool :=
  '0' ≤ c && c < bound

/-- An integer in another base, after the letter of the base. -/
def readBase (base : Nat) (isDigit : Char → Bool) (cs : List Char) : Option (Node × List Char) := do
  let (digits, rest) ← readDigits isDigit cs
  let n := digits.foldl (fun n c => base * n + (Text.hexValue? c).getD 0) 0
  return (← integer? false n, rest)

/-- A number of any kind. -/
def readNumber : List Char → Option (Node × List Char)
  | '0' :: 'x' :: r => readBase 16 (fun c => (Text.hexValue? c).isSome) r
  | '0' :: 'o' :: r => readBase 8 (isDigitBelow '8') r
  | '0' :: 'b' :: r => readBase 2 (isDigitBelow '2') r
  | cs => readDecimalNumber cs

end LeaseOrder.Toml
