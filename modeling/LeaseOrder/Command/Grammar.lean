/-
The grammar of the command line.

Arguments are read from left to right, at the level of the program until the name of a
subcommand comes, and then at the level of the subcommand.  The value of an option may
follow as an argument of its own.  Such an option stays pending: it is looked at when the
next option or the input is recognised, or at the end of its level, so that an argument
that is not known is reported in front of a wrong value.  The level of the program ends
after the level of its subcommand.
-/
import LeaseOrder.Command.Invocation

namespace LeaseOrder.Command

/-! ### Options -/

/-- What can be given on a command line. -/
inductive Setting where
  | format
  | verbose
  | config
  | kind
  | strategy
  | maxDepth
  | seed
  | output
  | input
  | help
  | version
deriving DecidableEq, Repr

/-- The setting takes a value. -/
def Setting.takesValue : Setting → Bool
  | .verbose => false
  | .help => false
  | .version => false
  | _ => true

/-- Where a command line is being read. -/
inductive Level where
  | program
  | order
  | depths
  | config
deriving DecidableEq, Repr

/-- The subcommands under their names. -/
def Level.subcommands : List (String × Level) :=
  [("order", .order), ("depths", .depths), ("config", .config)]

/-- The setting with a long name. -/
def Level.long? (l : Level) (name : String) : Option Setting :=
  match name with
  | "format" => some .format
  | "verbose" => some .verbose
  | "config" => some .config
  | "help" => some .help
  | "version" => some .version
  | "kind" => if l = .order || l = .depths then some .kind else none
  | "strategy" => if l = .order then some .strategy else none
  | "max-depth" => if l = .order then some .maxDepth else none
  | "seed" => if l = .order then some .seed else none
  | "output" => if l = .order then some .output else none
  | _ => none

/-- The setting with a one-letter name. -/
def Level.short? (l : Level) (name : Char) : Option Setting :=
  match name with
  | 'f' => some .format
  | 'v' => some .verbose
  | 'c' => some .config
  | 'h' => some .help
  | 'V' => some .version
  | 'k' => if l = .order || l = .depths then some .kind else none
  | 'o' => if l = .order then some .output else none
  | _ => none

/-- The level has an input beside its options. -/
def Level.hasInput (l : Level) : Bool :=
  l = .order || l = .depths

/-! ### Values -/

/-- The settings that a level was given. -/
structure Given where
  format : Option Format
  verbose : Bool
  config : Option String
  kind : Option Kind
  overrides : Overrides
  output : Option String
  input : Option String

namespace Given

/-- No settings. -/
def nothing : Given := ⟨none, false, none, none, .none, none, none⟩

/-- The setting is among those given. -/
def has (g : Given) : Setting → Bool
  | .format => g.format.isSome
  | .verbose => g.verbose
  | .config => g.config.isSome
  | .kind => g.kind.isSome
  | .strategy => g.overrides.strategy.isSome
  | .maxDepth => g.overrides.maxDepth.isSome
  | .seed => g.overrides.seed.isSome
  | .output => g.output.isSome
  | .input => g.input.isSome
  | .help => false
  | .version => false

/-- Nothing has been given. -/
def isNothing (g : Given) : Bool :=
  !(g.has .format || g.has .verbose || g.has .config)

end Given

/-- One of the named choices. -/
def choose {α : Type} (choices : List (String × α)) (value : String) : Except Usage α :=
  match choices.find? fun c => c.1 == value with
  | some c => .ok c.2
  | none => .error .invalidValue

/-- A path, which must not be empty. -/
def path (value : String) : Except Usage String :=
  if value.isEmpty then .error .invalidValue else .ok value

/-- A number, if it is one. -/
def number {α : Type} (n : Option α) : Except Usage α :=
  match n with
  | some n => .ok n
  | none => .error .invalidNumber

/-- The kinds of records under their names. -/
def kindChoices : List (String × Kind) := [("lease", .lease), ("shard", .shard)]

/-- The strategies under their names on the command line. -/
def strategyChoices : List (String × Strategy) :=
  [("parents-first", .parentsFirst), ("shuffle", .shuffle)]

/-- Puts the value of a setting in its place. -/
def Given.put (g : Given) (s : Setting) (value : String) : Except Usage Given :=
  match s with
  | .format => do return { g with format := ← choose Format.known value }
  | .config => do return { g with config := ← path value }
  | .kind => do return { g with kind := ← choose kindChoices value }
  | .strategy => do
    return { g with overrides := { g.overrides with strategy := ← choose strategyChoices value } }
  | .maxDepth => do
    let n ← number (Text.readSigned value.toList)
    return { g with overrides := { g.overrides with maxDepth := n } }
  | .seed => do
    let n ← number (Text.readUnsigned value.toList)
    return { g with overrides := { g.overrides with seed := n } }
  | .output => do return { g with output := ← path value }
  | .input => do return { g with input := ← path value }
  | .verbose => .ok { g with verbose := true }
  | .help => .ok g
  | .version => .ok g

/-- Takes a setting with the value that it was given. -/
def Given.take (g : Given) (s : Setting) (value : Option String) : Except Usage Given :=
  match value with
  | none => .error .invalidValue
  | some v => if g.has s then .error .repeated else g.put s v

/-! ### One level -/

/-- How far a level has been read. -/
structure Scan where
  given : Given
  /-- The option or input that was read last, and its value. -/
  pending : Option (Setting × Option String)
  /-- After two dashes nothing is an option. -/
  trailing : Bool

namespace Scan

/-- Nothing has been read. -/
def start : Scan := ⟨.nothing, none, false⟩

/-- The option whose value the next argument can be. -/
def awaited? (s : Scan) : Option Setting :=
  match s.pending with
  | some (o, none) => some o
  | _ => none

/-- Takes the pending setting. -/
def settle (s : Scan) : Except Usage Scan :=
  match s.pending with
  | none => .ok s
  | some (o, value) => do return { s with given := ← s.given.take o value, pending := none }

/-- A setting with an attached value or none: a flag is taken, an option without a value is left
    pending. -/
def option (level : Level) (s : Scan) (o : Setting) (attached : Option String) :
    Except Usage Scan := do
  let s ← s.settle
  match o, attached with
  | .help, _ => .error .help
  | .version, _ =>
    .error (.version ((Level.subcommands.find? fun c => c.2 == level).map (·.1)))
  | .verbose, _ =>
    if s.given.verbose then .error .repeated else return { s with given.verbose := true }
  | o, none => return { s with pending := some (o, none) }
  | o, some v => return { s with given := ← s.given.take o (some v) }

/-- An argument after two dashes: a long name, and a value after an equals sign. -/
def long (level : Level) (s : Scan) (cs : List Char) : Except Usage Scan :=
  let name := cs.takeWhile (· ≠ '=')
  let value := match cs.dropWhile (· ≠ '=') with
    | [] => none
    | _ :: v => some (String.ofList v)
  match level.long? (String.ofList name) with
  | none => .error .unknownArgument
  | some o => if !o.takesValue && value.isSome then .error .unneededValue else s.option level o value

/-- An argument after one dash: one-letter flags, up to an option, whose value is the rest. -/
def short (level : Level) (s : Scan) : List Char → Except Usage Scan
  | [] => .ok s
  | c :: cs =>
    match level.short? c with
    | none => .error .unknownArgument
    | some o =>
      if o.takesValue then
        match cs with
        | [] => s.option level o none
        | '=' :: v => s.option level o (some (String.ofList v))
        | v => s.option level o (some (String.ofList v))
      else do
        short level (← s.option level o none) cs

/-- The letter between a number and its power of ten. -/
def isExponentMark (c : Char) : Bool :=
  c = 'e' || c = 'E'

/-- The characters of a number after its minus sign: digits, with at most one point behind a
    digit and one letter for the power of ten in the middle. -/
def looksLikeNumber (cs : List Char) : Bool :=
  let mantissa := cs.takeWhile (!isExponentMark ·)
  let exponent := cs.dropWhile (!isExponentMark ·)
  let digits := mantissa.filter (· ≠ '.')
  digits.all Char.isDigit && mantissa.length ≤ digits.length + 1 && cs.head? ≠ some '.' &&
  !cs.head?.any isExponentMark &&
  (exponent.isEmpty || (exponent.tail.all Char.isDigit && exponent.length ≠ 1))

/-- An argument that is no option and no value: the input, if it is still missing. After two dashes
    the name of a subcommand is no subcommand. -/
def positional (level : Level) (s : Scan) (a : String) : Except Usage Scan :=
  let taken := s.given.has .input || (s.pending.map (·.1)) = some .input
  let named := a = "help" || Level.subcommands.any fun c => c.1 == a
  if level.hasInput && !taken then do
    let s ← s.settle
    return { s with pending := some (.input, some a) }
  else if level = .program && !(s.trailing && named) then .error .unknownSubcommand
  else .error .unknownArgument

/-- An argument that is no option: the value of the pending option, or the input. -/
def plain (level : Level) (s : Scan) (a : String) : Except Usage Scan :=
  match s.awaited? with
  | some o => .ok { s with pending := some (o, some a) }
  | none => positional level s a

/-- Reads one argument that is no subcommand. -/
def read (level : Level) (s : Scan) (a : String) : Except Usage Scan :=
  if s.trailing then positional level s a
  else
    match a.toList with
    | ['-', '-'] => .ok { s with trailing := true }
    | '-' :: '-' :: cs => s.long level cs
    | '-' :: c :: cs =>
      if s.awaited? = some .maxDepth && looksLikeNumber (c :: cs) then s.plain level a
      else s.short level (c :: cs)
    | _ => s.plain level a

end Scan

/-- Reads the arguments of a level, up to a subcommand, which is handed back with its arguments. -/
def scanLevel (level : Level) (s : Scan) :
    List String → Except Usage (Scan × Option (Level × List String))
  | [] => .ok (s, none)
  | a :: rest =>
    if level = .program && !s.trailing && s.awaited?.isNone then
      if a = "help" then
        -- Help is shown on what is named after it, a subcommand or help itself.
        match rest with
        | [] => .error .help
        | [topic] =>
          if topic = "help" || Level.subcommands.any fun c => c.1 == topic then .error .help
          else .error .unknownSubcommand
        | _ => .error .unknownSubcommand
      else
        match Level.subcommands.find? fun c => c.1 == a with
        | some c => .ok (s, some (c.2, rest))
        | none => do scanLevel level (← s.read level a) rest
    else do scanLevel level (← s.read level a) rest

/-! ### Whole command lines -/

/-- The configuration file that a level is given, or else the one that the environment names. -/
def configFile (environment : Option String) (g : Given) : Except Usage (Option String) :=
  match g.config, environment with
  | none, some v => (path v).map some
  | file, _ => .ok file

/-- What a subcommand was asked to do. -/
def action (level : Level) (g : Given) : Except Usage Action :=
  let kind := g.kind.getD .lease
  match level, g.input with
  | .program, _ => .error .missingSubcommand
  | .config, _ => .ok .config
  | _, none => .error .missingInput
  | .order, some input => .ok (.order input kind g.overrides g.output)
  | .depths, some input => .ok (.depths input kind)

/-- Reads a command line, with the configuration file that the environment names. A setting of
    both levels has the value that was given to the subcommand. -/
def parse (environment : Option String) (args : List String) : Except Usage Invocation := do
  let (outer, sub) ← scanLevel .program .start args
  match sub with
  | none =>
    let shared := (← outer.settle).given
    let file ← configFile environment shared
    if shared.isNothing && file.isNone then .error .nothingGiven else .error .missingSubcommand
  | some (level, rest) =>
    let (inner, _) ← scanLevel level .start rest
    let own := (← inner.settle).given
    let _ ← configFile environment own
    let action ← action level own
    let shared := (← outer.settle).given
    let file ← configFile environment shared
    return {
      format := own.format <|> shared.format
      verbose := own.verbose || shared.verbose
      config := own.config <|> file
      action }

end LeaseOrder.Command
