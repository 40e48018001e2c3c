/-
Texts and characters between quotes, as messages show them.

The common control characters have letters of their own, a quote of the kind in use
and the backslash are escaped, and what has no printed form is shown by number,
as in `\u{a0}`.
-/
import LeaseOrder.Text.Basic
import LeaseOrder.Text.Extend
import LeaseOrder.Text.Printable

namespace LeaseOrder.Text

/-- The escape of a character inside quotes of the given kind. -/
def escapeChar (quote : Char) (c : Char) : List Char :=
  if c = '\x00' then ['\\', '0']
  else if c = '\t' then ['\\', 't']
  else if c = '\n' then ['\\', 'n']
  else if c = '\r' then ['\\', 'r']
  else if c = quote || c = '\\' then ['\\', c]
  else if c.val ≤ 0x7e && 0x20 ≤ c.val then [c]
  else if isExtend c || !isPrintable c then
    ['\\', 'u', '\x7b'] ++ hexChars c.toNat ++ ['\x7d']
  else [c]

/-- A text between double quotes. -/
def quoted (s : String) : String :=
  String.ofList ('"' :: s.toList.flatMap (escapeChar '"') ++ ['"'])

/-- A character between single quotes. -/
def quotedChar (c : Char) : String :=
  String.ofList ('\'' :: escapeChar '\'' c ++ ['\''])

end LeaseOrder.Text
