/-
Dates and times of TOML.

A date, a time, or both with a letter T or a space between them, and then perhaps an
offset from universal time.  Only the form is of interest, which includes that a month
has the day.
-/
import LeaseOrder.Text.Basic

namespace LeaseOrder.Toml

/-- A number of exactly so many digits, within bounds. -/
def readTwo (least most : Nat) : List Char → Option (Nat × List Char)
  | a :: b :: r =>
    let n := Text.value [a, b]
    if a.isDigit && b.isDigit && least ≤ n && n ≤ most then some (n, r) else none
  | _ => none

/-- A year of four digits. -/
def readYear : List Char → Option (Nat × List Char)
  | a :: b :: c :: d :: r =>
    if [a, b, c, d].all Char.isDigit then some (Text.value [a, b, c, d], r) else none
  | _ => none

/-- A character that has to come next. -/
def readMark (mark : Char) : List Char → Option (List Char)
  | [] => none
  | c :: r => if c = mark then some r else none

/-- February has a day more in this year. -/
def isLeapYear (year : Nat) : Bool :=
  year % 4 = 0 && (year % 100 ≠ 0 || year % 400 = 0)

/-- The number of days of a month. -/
def daysIn (year month : Nat) : Nat :=
  if month = 2 then (if isLeapYear year then 29 else 28)
  else if month ∈ [4, 6, 9, 11] then 30
  else 31

/-- The characters after a date. -/
def readDate (cs : List Char) : Option (List Char) := do
  let (year, cs) ← readYear cs
  let (month, cs) ← readTwo 1 12 (← readMark '-' cs)
  let (day, cs) ← readTwo 1 31 (← readMark '-' cs)
  if day ≤ daysIn year month then some cs else none

/-- The characters after a part of a second, if there is one. -/
def readSecondPart : List Char → List Char
  | '.' :: c :: r => if c.isDigit then r.dropWhile Char.isDigit else '.' :: c :: r
  | cs => cs

/-- The characters after a time. A minute may have a leap second. -/
def readTime (cs : List Char) : Option (List Char) := do
  let (_, cs) ← readTwo 0 23 cs
  let (_, cs) ← readTwo 0 59 (← readMark ':' cs)
  let (_, cs) ← readTwo 0 60 (← readMark ':' cs)
  return readSecondPart cs

/-- The characters after an offset, if there is one. -/
def readOffset : List Char → Option (List Char)
  | [] => some []
  | c :: r =>
    if c = 'Z' || c = 'z' then some r
    else if c = '+' || c = '-' then do
      let (_, cs) ← readTwo 0 23 r
      let (_, cs) ← readTwo 0 59 (← readMark ':' cs)
      return cs
    else some (c :: r)

/-- The characters after a time that belongs to a date, if there is one. -/
def readTimeOfDay : List Char → Option (List Char)
  | [] => some []
  | c :: r =>
    if c = 'T' || c = 't' || c = ' ' then
      match readTime r with
      | some cs => readOffset cs
      | none => some (c :: r)
    else some (c :: r)

/-- The characters after a date, a time or both. -/
def readDatetime (cs : List Char) : Option (List Char) :=
  match readDate cs with
  | some rest => readTimeOfDay rest
  | none => readTime cs

end LeaseOrder.Toml
