/-
Reading configurations from their text form.

Keys that no configuration has are left aside, whatever they hold.  Settings may also be
given as an array in the order of the keys, and a date in the place of settings sets
nothing.  A text that is read as a configuration still has to pass `OrderSettings.validate`.
-/
import LeaseOrder.Config.Basic
import LeaseOrder.Toml.Reader

namespace LeaseOrder

/-- The settings that a value holds: a table, a list of values, or none. -/
inductive Toml.Node.Settings where
  | table (fields : Toml.Fields)
  | list (items : List Toml.Node)

namespace Toml.Node

/-- The settings that a node holds. -/
def settings? : Node → Option Settings
  | .table _ fields => some (.table fields)
  | .tables latest earlier =>
    some (.list ((latest :: earlier).reverse.map fun fields => .table .defined fields))
  | .array items => some (.list items)
  | .datetime => some (.table [])
  | _ => none

/-- The node of a setting, by its key or by its place. -/
def Settings.get? (s : Settings) (key : String) (place : Nat) : Option Node :=
  match s with
  | .table fields => fields.get? key
  | .list items => items[place]?

/-- Nothing is in the table or the array. -/
def isVoid : Node → Bool
  | .table _ fields => fields.isEmpty
  | .array items => items.isEmpty
  | _ => false

/-- One of the named variants: its name, or a table with nothing but a void one under its name. -/
def variant? {α : Type} (known : List (String × α)) (n : Node) : Option α :=
  let named (name : String) : Option α := (known.find? fun v => v.1 == name).map (·.2)
  match n with
  | .string name => named name
  | .table _ [(name, value)] => if value.isVoid then named name else none
  | _ => none

/-- A signed word. -/
def signed? : Node → Option Int64
  | .integer n => some n
  | _ => none

/-- A word that is not negative. -/
def unsigned? : Node → Option UInt64
  | .integer n => if 0 ≤ n then some n.toUInt64 else none
  | _ => none

/-- Reads a setting that may be missing. -/
def Settings.read {α : Type} (s : Settings) (key : String) (place : Nat) (read : Node → Option α) :
    Option (Option α) :=
  match s.get? key place with
  | none => some none
  | some n => (read n).map some

end Toml.Node

/-- The order settings that a node holds. -/
def OrderSettings.ofNode? (n : Toml.Node) : Option OrderSettings := do
  let s ← n.settings?
  return {
    strategy := (← s.read "strategy" 0 (Toml.Node.variant? Strategy.known)).getD default.strategy
    maxDepth := ← s.read "max_depth" 1 Toml.Node.signed?
    seed := ← s.read "seed" 2 Toml.Node.unsigned? }

namespace Config

/-- The configuration that a document describes. -/
def ofFields? (fields : Toml.Fields) : Option Config := do
  let s : Toml.Node.Settings := .table fields
  return {
    defaultFormat :=
      (← s.read "default_format" 0 (Toml.Node.variant? Format.known)).getD default.defaultFormat
    ordering := (← s.read "ordering" 1 OrderSettings.ofNode?).getD default.ordering }

/-- The configuration that a text holds, not yet validated. -/
def read? (s : String) : Option Config := do
  ofFields? (← (← Toml.Document.ofString? s).fields?)

/-- The valid configuration that a text holds. -/
def parse (s : String) : Except ConfigError Config :=
  match read? s with
  | none => .error .malformed
  | some c => c.ordering.validate.map fun _ => c

end Config

end LeaseOrder
