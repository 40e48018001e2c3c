/-
The text form of configurations.

A format line, then a table of the order settings with a line for each one that is set.
Numbers in the text are signed words, so a greater seed cannot be written.
-/
import LeaseOrder.Config.Basic

namespace LeaseOrder

namespace Config

/-- A line that sets a key. -/
def keyLine (key value : String) : String :=
  key ++ " = " ++ value ++ "\n"

/-- A name between quotes. No name in a configuration has characters to escape. -/
def nameText (s : String) : String :=
  "\"" ++ s ++ "\""

/-- A line for a number that is set, and nothing otherwise. -/
def numberLine (key : String) : Option Int → String
  | some n => keyLine key (Text.decimalInt n)
  | none => ""

/-- The text of a configuration whose seed is a signed word. -/
def print (c : Config) : String :=
  keyLine "default_format" (nameText c.defaultFormat.name) ++
  "\n[ordering]\n" ++
  keyLine "strategy" (nameText c.ordering.strategy.name) ++
  numberLine "max_depth" (c.ordering.maxDepth.map Int64.toInt) ++
  numberLine "seed" (c.ordering.seed.map fun n => (n.toNat : Int))

/-- The seed, if there is one, is a signed word. -/
def isPrintable (c : Config) : Bool :=
  c.ordering.seed.all fun n => n.toNat < Text.signedBound

/-- The text of a configuration. -/
def text (c : Config) : Except ConfigError String :=
  if c.isPrintable then .ok c.print else .error .unprintable

end Config

end LeaseOrder
