/-
Configuration: the output format and the order to use.

A bound on the depth is any signed number here.  `OrderSettings.validate` refuses one
that is not positive, whatever the strategy; `OrderSettings.orderer` refuses it only
where the strategy has a bound.
-/
import LeaseOrder.Order.Orderer

namespace LeaseOrder

/-- The names of the two orders. -/
inductive Strategy where
  | parentsFirst
  | shuffle
deriving DecidableEq, Repr

/-- The name of a strategy in a configuration. -/
def Strategy.name : Strategy → String
  | .parentsFirst => "parents_first"
  | .shuffle => "shuffle"

/-- The strategies under their names. -/
def Strategy.known : List (String × Strategy) :=
  [.parentsFirst, .shuffle].map fun s => (s.name, s)

/-- How results are shown. -/
inductive Format where
  | text
  | json
deriving DecidableEq, Repr

/-- The name of a format. -/
def Format.name : Format → String
  | .text => "text"
  | .json => "json"

/-- The formats under their names. -/
def Format.known : List (String × Format) :=
  [.text, .json].map fun f => (f.name, f)

/-- Which order to use, and how. -/
structure OrderSettings where
  strategy : Strategy
  /-- The greatest depth to hand out. -/
  maxDepth : Option Int64
  /-- The seed of a repeatable shuffle. -/
  seed : Option UInt64
deriving DecidableEq, Repr

/-- Why there is no configuration, or no text of one. -/
inductive ConfigError where
  /-- The text is no configuration. -/
  | malformed
  /-- The bound on the depth is not positive. -/
  | notPositive (maxDepth : Int64)
  /-- The seed is too great for the text form. -/
  | unprintable
deriving DecidableEq, Repr

/-- The wording of the reasons. -/
def ConfigError.message : ConfigError → String
  | .malformed => "Failed to parse configuration"
  | .notPositive n =>
    "Invalid configuration: ordering.max_depth must be positive, got " ++ Text.decimalInt n.toInt
  | .unprintable => "Failed to serialize config"

namespace OrderSettings

/-- Parents first, without a bound. -/
def default : OrderSettings := ⟨.parentsFirst, none, none⟩

/-- The order that the settings select. -/
def orderer (o : OrderSettings) : Except OrderError Orderer :=
  match o.strategy with
  | .parentsFirst => (ParentsFirst.ofMaxDepth o.maxDepth).map .parentsFirst
  | .shuffle => .ok (.shuffle ⟨o.seed⟩)

/-- Accepts no bound and positive bounds. -/
def validate (o : OrderSettings) : Except ConfigError Unit :=
  match o.maxDepth with
  | some n => if n ≤ 0 then .error (.notPositive n) else .ok ()
  | none => .ok ()

end OrderSettings

/-- Settings for a single run. -/
structure Overrides where
  strategy : Option Strategy
  maxDepth : Option Int64
  seed : Option UInt64
deriving DecidableEq, Repr

namespace Overrides

/-- No settings. -/
def none : Overrides := ⟨.none, .none, .none⟩

/-- Puts the settings that are given in the place of the configured ones. -/
def apply (a : Overrides) (o : OrderSettings) : OrderSettings :=
  { strategy := a.strategy.getD o.strategy
    maxDepth := a.maxDepth <|> o.maxDepth
    seed := a.seed <|> o.seed }

end Overrides

/-- A whole configuration. -/
structure Config where
  defaultFormat : Format
  ordering : OrderSettings
deriving DecidableEq, Repr

/-- Text, and parents first without a bound. -/
def Config.default : Config := ⟨.text, .default⟩

end LeaseOrder
