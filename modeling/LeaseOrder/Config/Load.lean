/-
Where a configuration comes from: the file that is named, or else the file in the user's
configuration directory, or else the built-in one.
-/
import LeaseOrder.Config.Read
import LeaseOrder.Files.System

namespace LeaseOrder

open Files FileSystem

/-- What the program is told beside its arguments. -/
structure Environment where
  /-- The home directory; an empty text names none. -/
  home : Option String
  /-- The directory for configurations; it counts only if it starts at the root. -/
  configHome : Option String
  /-- The configuration file for command lines that name none. -/
  configFile : Option String
  /-- A number that nobody can foresee. -/
  entropy : UInt64

namespace Environment

/-- The directory for configurations: the one that is told, or else one in the home directory. -/
def configDirectory? (e : Environment) : Option Path :=
  match (e.configHome.map Path.ofString).filter (·.rooted) with
  | some dir => some dir
  | none => (e.home.filter (· ≠ "")).map fun home => (Path.ofString home).join ".config"

/-- The configuration file that is used if it exists. -/
def defaultFile? (e : Environment) : Option Path :=
  e.configDirectory?.map fun dir => (dir.join "shard-order").join "config.toml"

end Environment

/-- Why a configuration file is of no use. -/
inductive LoadError where
  | cannotRead (path : Path) (e : FileError)
  | bad (path : Path) (e : ConfigError)
deriving DecidableEq, Repr

/-- The wording of the reasons. -/
def LoadError.message : LoadError → String
  | .cannotRead p e => "Failed to read config: " ++ p.text ++ ": " ++ e.message
  | .bad p e => "Failed to load config: " ++ p.text ++ ": " ++ e.message

namespace Config

/-- The configuration in the contents of a file. -/
def ofContents (p : Path) (contents : Text.Bytes) : Except LoadError Config :=
  match Text.assemble? (Text.decode contents) with
  | none => .error (.cannotRead p .badText)
  | some s => (parse s).mapError (.bad p)

variable {m : Type → Type} [Monad m] [FileSystem m]

/-- The configuration in a file. -/
def ofFile (p : Path) : m (Except LoadError Config) := do
  match ← openRead p with
  | .error e => return .error (.cannotRead p e)
  | .ok file =>
    match (← readAll file).whole with
    | .error e => return .error (.cannotRead p e)
    | .ok contents => return ofContents p contents

/-- The configuration to use. -/
def load (e : Environment) (named : Option String) : m (Except LoadError Config) := do
  match named.map Path.ofString with
  | some p => ofFile p
  | none =>
    match e.defaultFile? with
    | none => return .ok .default
    | some p => if ← pathExists p then ofFile p else return .ok .default

end Config

end LeaseOrder
