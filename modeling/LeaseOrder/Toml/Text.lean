/-
Characters, line ends and strings of TOML.

There are four kinds of strings: between double quotes, with escapes, or between single
quotes, without; and of each kind one that may run over several lines, between three
quotes.  A line feed, or a carriage return and a line feed, ends a line, and stands for a
line feed inside a string.
-/
import LeaseOrder.Text.Basic

namespace LeaseOrder.Toml

/-- A blank within a line. -/
def isBlank (c : Char) : Bool :=
  c = ' ' || c = '\t'

/-- A character that a comment may hold: no control character of ASCII but the tab. -/
def isPlain (c : Char) : Bool :=
  c = '\t' || (0x20 ≤ c.val && c.val ≠ 0x7f)

/-- A character that stands for itself between double quotes. -/
def isBasic (c : Char) : Bool :=
  isPlain c && c ≠ '"' && c ≠ '\\'

/-- A character that stands for itself between single quotes. -/
def isLiteral (c : Char) : Bool :=
  isPlain c && c ≠ '\''

/-- The characters after a line end. -/
def readNewline : List Char → Option (List Char)
  | '\n' :: r => some r
  | '\r' :: '\n' :: r => some r
  | _ => none

/-- The characters after the blanks. -/
def skipBlanks (cs : List Char) : List Char :=
  cs.dropWhile isBlank

/-- The characters after the rest of a line, which may hold a comment. -/
def readLineEnd (cs : List Char) : Option (List Char) :=
  let rest := match skipBlanks cs with
    | '#' :: r => r.dropWhile isPlain
    | r => r
  if rest.isEmpty then some [] else readNewline rest

/-- Leaves out blanks, line ends and comments; a comment has to end with its line. -/
def skipGaps (inComment : Bool) : List Char → Option (List Char)
  | [] => if inComment then none else some []
  | '\n' :: r => skipGaps false r
  | '\r' :: '\n' :: r => skipGaps false r
  | c :: r =>
    if inComment then if isPlain c then skipGaps true r else none
    else if isBlank c then skipGaps false r
    else if c = '#' then skipGaps true r
    else some (c :: r)

/-! ### Strings -/

/-- The character that a one-letter escape stands for. -/
def escaped? (c : Char) : Option Char :=
  if c = '"' || c = '\\' then some c
  else if c = 'b' then some '\x08'
  else if c = 'f' then some '\x0c'
  else if c = 'n' then some '\n'
  else if c = 'r' then some '\r'
  else if c = 't' then some '\t'
  else none

/-- The character with a number in hexadecimal digits. -/
def scalar? (digits : List Char) : Option Char := do
  let n ← digits.foldlM (fun n c => (Text.hexValue? c).map (16 * n + ·)) 0
  if n.isValidChar then some (Char.ofNat n) else none

/-- Puts a character in front of what was read. -/
def push (c : Char) (r : Option (List Char × List Char)) : Option (List Char × List Char) :=
  r.map fun p => (c :: p.1, p.2)

/-- A string on one line, after its double quote. -/
def readBasic : List Char → Option (List Char × List Char)
  | [] => none
  | '"' :: r => some ([], r)
  | '\\' :: 'u' :: a :: b :: c :: d :: r => do
    push (← scalar? [a, b, c, d]) (readBasic r)
  | '\\' :: 'U' :: a :: b :: c :: d :: e :: f :: g :: h :: r => do
    push (← scalar? [a, b, c, d, e, f, g, h]) (readBasic r)
  | '\\' :: c :: r => do push (← escaped? c) (readBasic r)
  | c :: r => if isBasic c then push c (readBasic r) else none

/-- A string on one line, after its single quote. -/
def readLiteral : List Char → Option (List Char × List Char)
  | [] => none
  | '\'' :: r => some ([], r)
  | c :: r => if isLiteral c then push c (readLiteral r) else none

/-- The end of a string on several lines, after three quotes: up to two more of them belong to
    the string. -/
def readClosing (quote : Char) : List Char → List Char × List Char
  | a :: b :: r =>
    if a = quote then if b = quote then ([a, b], r) else ([a], b :: r) else ([], a :: b :: r)
  | [a] => if a = quote then ([a], []) else ([], [a])
  | [] => ([], [])

/-- Nothing but blanks up to the end of the line. -/
def endsLine (cs : List Char) : Bool :=
  (readNewline (skipBlanks cs)).isSome

/-- A string on several lines, after its double quotes. After a backslash at the end of a line
    blanks and line ends are left out. -/
def readMultiBasic (skipping : Bool) : List Char → Option (List Char × List Char)
  | [] => none
  | '\n' :: r => if skipping then readMultiBasic true r else push '\n' (readMultiBasic false r)
  | '\r' :: '\n' :: r =>
    if skipping then readMultiBasic true r else push '\n' (readMultiBasic false r)
  | '"' :: '"' :: '"' :: r => some (readClosing '"' r)
  | '\\' :: 'u' :: a :: b :: c :: d :: r => do
    push (← scalar? [a, b, c, d]) (readMultiBasic false r)
  | '\\' :: 'U' :: a :: b :: c :: d :: e :: f :: g :: h :: r => do
    push (← scalar? [a, b, c, d, e, f, g, h]) (readMultiBasic false r)
  | '\\' :: c :: r =>
    match escaped? c with
    | some x => push x (readMultiBasic false r)
    | none => if endsLine (c :: r) then readMultiBasic true (c :: r) else none
  | c :: r =>
    if skipping && isBlank c then readMultiBasic true r
    else if isBasic c || c = '"' then push c (readMultiBasic false r)
    else none

/-- A string on several lines, after its single quotes. -/
def readMultiLiteral : List Char → Option (List Char × List Char)
  | [] => none
  | '\n' :: r => push '\n' (readMultiLiteral r)
  | '\r' :: '\n' :: r => push '\n' (readMultiLiteral r)
  | '\'' :: '\'' :: '\'' :: r => some (readClosing '\'' r)
  | c :: r => if isPlain c then push c (readMultiLiteral r) else none

/-- The characters without a line end at their beginning. -/
def dropNewline (cs : List Char) : List Char :=
  (readNewline cs).getD cs

/-- A string of any kind. -/
def readString : List Char → Option (String × List Char)
  | '"' :: '"' :: '"' :: r => (readMultiBasic false (dropNewline r)).map fun p => (.ofList p.1, p.2)
  | '"' :: r => (readBasic r).map fun p => (.ofList p.1, p.2)
  | '\'' :: '\'' :: '\'' :: r => (readMultiLiteral (dropNewline r)).map fun p => (.ofList p.1, p.2)
  | '\'' :: r => (readLiteral r).map fun p => (.ofList p.1, p.2)
  | _ => none

end LeaseOrder.Toml
