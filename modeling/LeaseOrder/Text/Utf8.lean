/-
UTF-8, read leniently.

`decode` never fails: a byte that begins no character stands alone, as none.  Since no
such byte takes another one along, lines can be told apart before it is known whether they
are text.
-/

namespace LeaseOrder.Text

/-- The contents of a file. -/
abbrev Bytes : Type := List UInt8

/-- The bytes of a text. -/
def encode (s : String) : Bytes :=
  s.toList.flatMap String.utf8EncodeChar

/-- The character that the bytes begin with. -/
def firstChar? (bs : Bytes) : Option Char :=
  (bs.take 4).toByteArray.utf8DecodeChar? 0

/-- The characters of the bytes, with none for each byte that is part of none. -/
def decode (bs : Bytes) : List (Option Char) :=
  match bs with
  | [] => []
  | b :: rest =>
    match firstChar? (b :: rest) with
    | some c => some c :: decode (rest.drop (c.utf8Size - 1))
    | none => none :: decode rest
termination_by bs.length
decreasing_by
  · simp only [List.length_drop, List.length_cons]
    omega
  · simp

/-- The text of characters, if all of them are characters. -/
def assemble? (cs : List (Option Char)) : Option String :=
  (cs.mapM id).map String.ofList

end LeaseOrder.Text
