/-
The JSON form of bare items: any strings for IDs, and the parents as they are listed.
-/
import LeaseOrder.Record.Basic

namespace LeaseOrder

/-- An item of which some fields have been read. -/
structure Item.Draft where
  id : Option String
  parents : Option (List String)
  completed : Option Bool

namespace Item

/-- An item of which nothing has been read. -/
def Draft.unread : Draft := ⟨none, none, none⟩

/-- The item, if its ID has been read; the other fields have defaults. -/
def Draft.finish (d : Draft) : Except Json.Failure Item :=
  match d.id with
  | none => .error (.data (.missingField "id"))
  | some id => .ok ⟨id, d.parents.getD [], d.completed.getD false⟩

/-- How items are written. -/
def shape : Json.Shape Draft where
  name := "struct Item"
  fields := [
    .of "id" Draft.id (fun x d => { d with id := some x }) .string,
    .of "parents" Draft.parents (fun x d => { d with parents := some x }) (.list .string),
    .of "completed" Draft.completed (fun x d => { d with completed := some x }) .bool]
  needsFirst := true
  unread := .unread

/-- Reads an item. -/
def decoder : Json.Decoder Item :=
  fun o d => shape.decode o d >>= Draft.finish

/-- The item as an object. -/
def encode (x : Item) : Json.Value :=
  .object [("id", .string x.id), ("parents", .array (x.parents.map .string)),
    ("completed", .bool x.completed)]

instance : Record Item where
  decoder := decoder
  encode := encode

end Item

end LeaseOrder
