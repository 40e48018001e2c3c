/-
What is said where a command line asks for nothing that can be run.
-/
import LeaseOrder.Command.Invocation

namespace LeaseOrder.Command

/-- The name of the program. -/
def programName : String := "shard-order"

/-- The version of the program. -/
def programVersion : String := "0.1.0"

/-- The help text. -/
def helpText : String :=
  "Parents-first ordering for shard leases\n\n" ++
  "Usage: shard-order [OPTIONS] <COMMAND>\n\n" ++
  "Commands:\n" ++
  "  order   Order a batch of leases or shards for processing\n" ++
  "  depths  Show the dependency depth of every shard in a batch\n" ++
  "  config  Show the effective configuration\n" ++
  "  help    Print this message or the help of the given subcommand(s)\n\n" ++
  "Options:\n" ++
  "  -f, --format <FORMAT>  Output format (defaults to the configured format) " ++
  "[possible values: text, json]\n" ++
  "  -v, --verbose          Enable debug logging on stderr\n" ++
  "  -c, --config <CONFIG>  Path to a config file [env: SHARD_ORDER_CONFIG=]\n" ++
  "  -h, --help             Print help\n" ++
  "  -V, --version          Print version\n"

/-- The wording of what is wrong, or the text that is asked for. -/
def Usage.message : Usage → String
  | .help => helpText
  | .nothingGiven => helpText
  | .version none => programName ++ " " ++ programVersion ++ "\n"
  | .version (some s) => programName ++ "-" ++ s ++ " " ++ programVersion ++ "\n"
  | .unknownArgument => "error: unexpected argument\n"
  | .invalidValue => "error: invalid value for an argument\n"
  | .invalidNumber => "error: invalid number for an argument\n"
  | .repeated => "error: an argument cannot be used multiple times\n"
  | .missingInput => "error: the following required arguments were not provided:\n  <INPUT>\n"
  | .unknownSubcommand => "error: unrecognized subcommand\n"
  | .missingSubcommand => "error: a subcommand is required\n"
  | .unneededValue => "error: unexpected value for a flag\n"

/-- What goes to the standard output: help and version, but no fault. -/
def Usage.stdout (u : Usage) : String :=
  if u.exitCode = 0 then u.message else ""

end LeaseOrder.Command
