/-
What texts are made of: blank and control characters, and numerals.

`isBlank` and `isControl` decide a Unicode property for every character; `trim` drops a
longest blank run at each end and leaves the inside alone.  `decimal` writes a number without
leading zeros, `value` reads a run of digits of any length.  The readers of machine words,
`readUnsigned` and `readSigned`, take an optional sign and refuse what does not fit.
-/

namespace LeaseOrder.Text

/-! ### Classes of characters -/

/-- The Unicode general category Cc, which is closed for good. -/
def isControl (c : Char) : Bool :=
  c.val ≤ 0x1f || (0x7f ≤ c.val && c.val ≤ 0x9f)

/-- The Unicode property White_Space. -/
def isBlank (c : Char) : Bool :=
  (0x9 ≤ c.val && c.val ≤ 0xd) || c.val == 0x20 || c.val == 0x85 || c.val == 0xa0 ||
  c.val == 0x1680 || (0x2000 ≤ c.val && c.val ≤ 0x200a) || c.val == 0x2028 || c.val == 0x2029 ||
  c.val == 0x202f || c.val == 0x205f || c.val == 0x3000

/-- The characters without the blank runs at both ends. -/
def trimChars (cs : List Char) : List Char :=
  ((cs.dropWhile isBlank).reverse.dropWhile isBlank).reverse

/-- The text without the blank runs at both ends. -/
def trim (s : String) : String :=
  String.ofList (trimChars s.toList)

/-- A text of nothing but blanks. -/
def isAllBlank (s : String) : Bool :=
  s.toList.all isBlank

/-! ### Numerals -/

/-- The value of a decimal digit. -/
def digitValue (c : Char) : Nat :=
  c.toNat - 48

/-- The value of a run of decimal digits, most significant first. -/
def value (digits : List Char) : Nat :=
  digits.foldl (fun n c => 10 * n + digitValue c) 0

/-- The digit of a number below ten. -/
def digitChar (n : Nat) : Char :=
  Char.ofNat (48 + n)

/-- The decimal digits of a number, without leading zeros. -/
def decimalChars (n : Nat) : List Char :=
  if n < 10 then [digitChar n] else decimalChars (n / 10) ++ [digitChar (n % 10)]

/-- The decimal text of a natural number. -/
def decimal (n : Nat) : String :=
  String.ofList (decimalChars n)

/-- The decimal text of an integer. -/
def decimalInt (n : Int) : String :=
  if n < 0 then "-" ++ decimal n.natAbs else decimal n.natAbs

/-- At least one digit, and nothing but digits. -/
def isNumeral (cs : List Char) : Bool :=
  !cs.isEmpty && cs.all Char.isDigit

/-- One more than the greatest signed word of 64 bits. -/
def signedBound : Nat := 9223372036854775808

/-- An unsigned 64-bit numeral: digits, after at most one plus sign. -/
def readUnsigned (cs : List Char) : Option UInt64 :=
  let digits := match cs with
    | '+' :: r => r
    | _ => cs
  if isNumeral digits && value digits < UInt64.size then some (UInt64.ofNat (value digits)) else none

/-- A signed 64-bit numeral: digits, after at most one sign. -/
def readSigned (cs : List Char) : Option Int64 :=
  match cs with
  | '-' :: r =>
    if isNumeral r && value r ≤ signedBound then some (Int64.ofInt (-(value r : Int))) else none
  | _ =>
    let digits := match cs with
      | '+' :: r => r
      | _ => cs
    if isNumeral digits && value digits < signedBound then some (Int64.ofInt (value digits)) else none

/-- The value of a hexadecimal digit of either case. -/
def hexValue? (c : Char) : Option Nat :=
  if '0' ≤ c && c ≤ '9' then some (c.toNat - 48)
  else if 'a' ≤ c && c ≤ 'f' then some (c.toNat - 87)
  else if 'A' ≤ c && c ≤ 'F' then some (c.toNat - 55)
  else none

/-- The lower-case digit of a number below sixteen. -/
def hexChar (n : Nat) : Char :=
  if n < 10 then Char.ofNat (48 + n) else Char.ofNat (87 + n)

/-- The lower-case hexadecimal digits of a number, without leading zeros. -/
def hexChars (n : Nat) : List Char :=
  if n < 16 then [hexChar n] else hexChars (n / 16) ++ [hexChar (n % 16)]

end LeaseOrder.Text
