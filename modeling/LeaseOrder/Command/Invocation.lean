/-
What the command line can ask for, and what can be wrong with it.
-/
import LeaseOrder.Config.Basic

namespace LeaseOrder.Command

/-- The kinds of records that a batch may hold. -/
inductive Kind where
  | lease
  | shard
deriving DecidableEq, Repr

/-- What to do. -/
inductive Action where
  /-- Order a batch, and print it or write it to a file. -/
  | order (input : String) (kind : Kind) (overrides : Overrides) (output : Option String)
  /-- Show the depths of a batch. -/
  | depths (input : String) (kind : Kind)
  /-- Show the configuration. -/
  | config
deriving DecidableEq, Repr

/-- A whole command line. -/
structure Invocation where
  format : Option Format
  verbose : Bool
  /-- The configuration file. -/
  config : Option String
  action : Action
deriving DecidableEq, Repr

/-- Why a command line asks for nothing that can be run. -/
inductive Usage where
  /-- Help is asked for. -/
  | help
  /-- The version is asked for; of the subcommand with this name if there is one. -/
  | version (subcommand : Option String)
  | unknownArgument
  /-- A value is missing, empty or none of the choices. -/
  | invalidValue
  /-- A value is no number, or out of range. -/
  | invalidNumber
  /-- An option is given twice. -/
  | repeated
  /-- The input is missing. -/
  | missingInput
  | unknownSubcommand
  | missingSubcommand
  /-- Nothing is given at all. -/
  | nothingGiven
  /-- A flag is given a value. -/
  | unneededValue
deriving DecidableEq, Repr

/-- The exit code: zero for help and version. -/
def Usage.exitCode : Usage → Nat
  | .help => 0
  | .version _ => 0
  | _ => 2

end LeaseOrder.Command
