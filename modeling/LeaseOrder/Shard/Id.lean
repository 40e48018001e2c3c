/-
Shard IDs.

An ID is opaque: it is compared, never taken apart.  It has between 1 and 256
characters, none of them blank or a control character, and the type `ShardId` holds
such texts only.  `ofString` takes a text as it stands, `parse` trims it first.
-/
import LeaseOrder.Text.Basic
import LeaseOrder.Text.Quoted

namespace LeaseOrder

/-- A character that no ID holds. -/
def ShardId.isForbidden (c : Char) : Bool :=
  Text.isBlank c || Text.isControl c

/-- The greatest number of characters of an ID. -/
def ShardId.maxLength : Nat := 256

/-- What makes a text an ID. -/
structure ShardId.Valid (s : String) : Prop where
  nonempty : s.toList ≠ []
  length_le : s.toList.length ≤ ShardId.maxLength
  allowed : ∀ c ∈ s.toList, ShardId.isForbidden c = false

/-- The ID of a shard, and the key of its lease. -/
structure ShardId where
  text : String
  valid : ShardId.Valid text
deriving DecidableEq

/-- Why a text is no ID. -/
inductive IdError where
  | empty
  | tooLong (length : Nat)
  | invalidCharacter (text : String) (c : Char)
deriving DecidableEq, Repr

/-- The wording of the reasons. -/
def IdError.message : IdError → String
  | .empty => "Shard ID cannot be empty"
  | .tooLong n =>
    "Shard ID is " ++ Text.decimal n ++ " characters long, maximum is " ++
      Text.decimal ShardId.maxLength
  | .invalidCharacter s c => "Invalid character " ++ Text.quotedChar c ++ " in shard ID '" ++ s ++ "'"

namespace ShardId

/-- The ID with this text, or the first of the three reasons that applies. -/
def ofString (s : String) : Except IdError ShardId :=
  if h₀ : s.toList = [] then .error .empty
  else if h₁ : maxLength < s.toList.length then .error (.tooLong s.toList.length)
  else match h₂ : s.toList.find? isForbidden with
    | some c => .error (.invalidCharacter s c)
    | none => .ok ⟨s, h₀, Nat.le_of_not_lt h₁, by
        intro c hc
        have := List.find?_eq_none.mp h₂ c hc
        simpa using this⟩

/-- The ID with this text, blanks at both ends left out. -/
def parse (s : String) : Except IdError ShardId :=
  ofString (Text.trim s)

/-- IDs are ordered by their code points, which is the order of their UTF-8 bytes. -/
instance : LT ShardId := ⟨fun a b => a.text < b.text⟩

instance (a b : ShardId) : Decidable (a < b) :=
  inferInstanceAs (Decidable (a.text < b.text))

/-- The IDs in ascending order. -/
def sort (ids : List ShardId) : List ShardId :=
  ids.mergeSort fun a b => decide (¬ b < a)

end ShardId

end LeaseOrder
