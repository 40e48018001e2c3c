/-
The JSON form of configurations.
-/
import LeaseOrder.Config.Basic
import LeaseOrder.Json.Decode

namespace LeaseOrder

/-- Order settings of which some have been read. -/
structure OrderSettings.Draft where
  strategy : Option Strategy
  maxDepth : Option (Option Int64)
  seed : Option (Option UInt64)

namespace OrderSettings

/-- The settings, with defaults for what has not been read. -/
def Draft.finish (d : Draft) : OrderSettings :=
  ⟨d.strategy.getD default.strategy, d.maxDepth.join, d.seed.join⟩

/-- How order settings are written. -/
def shape : Json.Shape Draft where
  name := "struct OrderingConfig"
  fields := [
    .of "strategy" Draft.strategy (fun x d => { d with strategy := some x })
      (.choice Strategy.known),
    .of "max_depth" Draft.maxDepth (fun x d => { d with maxDepth := some x }) (.nullable .signed),
    .of "seed" Draft.seed (fun x d => { d with seed := some x }) (.nullable .unsigned)]
  needsFirst := false
  unread := ⟨none, none, none⟩

/-- Reads order settings. -/
def decoder : Json.Decoder OrderSettings :=
  fun o d => (shape.decode o d).map Draft.finish

/-- The settings as an object; there is no field for what is not set. -/
def encode (o : OrderSettings) : Json.Value :=
  .object (
    [("strategy", .string o.strategy.name)] ++
    Json.optionalField "max_depth" (o.maxDepth.map .int) ++
    Json.optionalField "seed" (o.seed.map .word))

end OrderSettings

/-- A configuration of which some parts have been read. -/
structure Config.Draft where
  defaultFormat : Option Format
  ordering : Option OrderSettings

namespace Config

/-- The configuration, with defaults for what has not been read. -/
def Draft.finish (d : Draft) : Config :=
  ⟨d.defaultFormat.getD default.defaultFormat, d.ordering.getD default.ordering⟩

/-- How configurations are written. -/
def shape : Json.Shape Draft where
  name := "struct Config"
  fields := [
    .of "default_format" Draft.defaultFormat (fun x d => { d with defaultFormat := some x })
      (.choice Format.known),
    .of "ordering" Draft.ordering (fun x d => { d with ordering := some x })
      OrderSettings.decoder]
  needsFirst := false
  unread := ⟨none, none⟩

/-- Reads a configuration. -/
def decoder : Json.Decoder Config :=
  fun o d => (shape.decode o d).map Draft.finish

/-- The configuration as an object. -/
def encode (c : Config) : Json.Value :=
  .object [("default_format", .string c.defaultFormat.name), ("ordering", c.ordering.encode)]

end Config

end LeaseOrder
