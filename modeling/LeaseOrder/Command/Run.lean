/-
Running a command line.

Every command ends with a text for the standard output or with the reason why there is
none.  Nothing is printed before a command has succeeded.
-/
import LeaseOrder.Batch.Store
import LeaseOrder.Command.Invocation
import LeaseOrder.Config.Json
import LeaseOrder.Config.Load
import LeaseOrder.Config.Print
import LeaseOrder.Record.Lease
import LeaseOrder.Record.Shard

namespace LeaseOrder.Command

open Files

/-- Why a command failed. -/
inductive RunError where
  | config (e : LoadError)
  | settings (e : OrderError)
  | store (e : Batch.StoreError)
  | order (source : Batch.Source) (e : OrderError)
  | depths (source : Batch.Source) (e : OrderError)
  | print (e : ConfigError)
deriving DecidableEq, Repr

/-- The wording of the reasons. -/
def RunError.message : RunError → String
  | .config e => e.message
  | .settings e => e.message
  | .store e => e.message
  | .order s e => "Failed to order batch from " ++ s.text ++ ": " ++ e.message
  | .depths s e => "Failed to resolve depths for " ++ s.text ++ ": " ++ e.message
  | .print e => e.message

/-- What a command prints, or why it failed. -/
abbrev Outcome : Type := Except RunError String

/-! ### Tables -/

/-- The text with blanks up to a number of characters. -/
def padded (width : Nat) (s : String) : String :=
  s ++ String.ofList (List.replicate (width - s.toList.length) ' ')

/-- A line of a table: all cells but the last one have a width, and a blank follows each. -/
def tableLine (cells : List (Nat × String)) (last : String) : String :=
  String.join (cells.map fun c => padded c.1 c.2 ++ " ") ++ last ++ "\n"

/-- A line of dashes. -/
def ruler (width : Nat) : String :=
  String.ofList (List.replicate width '-') ++ "\n"

/-! ### Results as text -/

/-- A value on a line of its own. -/
def jsonLine (v : Json.Value) : String :=
  v.text ++ "\n"

/-- A message that something was done. -/
def success (format : Format) (message : String) : String :=
  match format with
  | .text => message ++ "\n"
  | .json => jsonLine (.object [("message", .string message), ("success", .bool true)])

/-- A record with its depth. -/
structure DepthRow where
  shardId : String
  depth : Nat
  completed : Bool
deriving DecidableEq, Repr

section

variable {α : Type} [Record α]

/-- The ordered records of a batch of so many. -/
def showOrder (format : Format) (total : Nat) (ordered : List α) : String :=
  match format with
  | .json => jsonLine (.array (ordered.map Record.encode))
  | .text =>
    if ordered.isEmpty then "No shards to process.\n"
    else
      tableLine [(6, "#"), (30, "SHARD")] "PARENTS" ++ ruler 60 ++
      String.join (ordered.zipIdx.map fun x =>
        let item := Prioritizable.item x.1
        tableLine [(6, Text.decimal (x.2 + 1)), (30, item.id)] (", ".intercalate item.parents)) ++
      "\nOrdered " ++ Text.decimal ordered.length ++ " of " ++ Text.decimal total ++ " shard(s)\n"

/-- The rows for a batch: the records that have a depth. -/
def depthRows (batch : List α) (depths : Depths) : List DepthRow :=
  (batch.zip depths.byPosition).filterMap fun x =>
    let item := Prioritizable.item x.1
    x.2.map fun d => ⟨item.id, d, item.completed⟩

end

/-- A row as an object. -/
def DepthRow.encode (r : DepthRow) : Json.Value :=
  .object [("shard_id", .string r.shardId), ("depth", .count r.depth),
    ("completed", .bool r.completed)]

/-- The rows of a batch with this greatest depth. -/
def showDepths (format : Format) (max : Nat) (rows : List DepthRow) : String :=
  match format with
  | .json => jsonLine (.array (rows.map DepthRow.encode))
  | .text =>
    if rows.isEmpty then "No shards in batch.\n"
    else
      tableLine [(30, "SHARD"), (6, "DEPTH")] "COMPLETED" ++ ruler 50 ++
      String.join (rows.map fun r =>
        tableLine [(30, r.shardId), (6, Text.decimal r.depth)] (if r.completed then "yes" else "no")) ++
      "\nMax depth: " ++ Text.decimal max ++ "\n"

/-- A configuration. -/
def showConfig (format : Format) (c : Config) : Outcome :=
  match format with
  | .json => .ok (jsonLine c.encode)
  | .text => c.text.mapError .print

/-! ### Commands -/

variable {m : Type → Type} [Monad m] [FileSystem m]

/-- Writes or shows the ordered records of a batch of so many. -/
def deliver {α : Type} [Record α] (format : Format) (output : Option String) (total : Nat)
    (ordered : List α) : m Outcome := do
  match output with
  | none => return .ok (showOrder format total ordered)
  | some dest =>
    match ← Batch.write (.ofString dest) ordered with
    | .error e => return .error (.store e)
    | .ok () => return .ok (success format ("Wrote " ++ Text.decimal ordered.length ++ " of " ++
        Text.decimal total ++ " records to " ++ dest))

/-- Orders a batch. -/
def orderBatch (α : Type) [Record α] (format : Format) (settings : OrderSettings)
    (entropy : UInt64) (source : Batch.Source) (output : Option String) : m Outcome := do
  match settings.orderer with
  | .error e => return .error (.settings e)
  | .ok orderer =>
    match (← Batch.read source : Except Batch.StoreError (List α)) with
    | .error e => return .error (.store e)
    | .ok batch =>
      match orderer.order entropy batch with
      | .error e => return .error (.order source e)
      | .ok ordered => deliver format output batch.length ordered

/-- Shows the depths of a batch. -/
def depthsOfBatch (α : Type) [Record α] (format : Format) (source : Batch.Source) :
    m Outcome := do
  match (← Batch.read source : Except Batch.StoreError (List α)) with
  | .error e => return .error (.store e)
  | .ok batch =>
    match (resolve (batch.map Prioritizable.item)).result with
    | .error e => return .error (.depths source e)
    | .ok depths => return .ok (showDepths format depths.max (depthRows batch depths))

/-- Does what a command line asks for, under a configuration. -/
def perform (config : Config) (entropy : UInt64) (inv : Invocation) : m Outcome := do
  let format := inv.format.getD config.defaultFormat
  match inv.action with
  | .order input kind overrides output =>
    let settings := overrides.apply config.ordering
    let source := Batch.Source.ofString input
    match kind with
    | .lease => orderBatch Lease format settings entropy source output
    | .shard => orderBatch ShardInfo format settings entropy source output
  | .depths input kind =>
    let source := Batch.Source.ofString input
    match kind with
    | .lease => depthsOfBatch Lease format source
    | .shard => depthsOfBatch ShardInfo format source
  | .config => return showConfig format config

/-- Runs a command line. -/
def run (e : Environment) (inv : Invocation) : m Outcome := do
  match ← Config.load e inv.config with
  | .error f => return .error (.config f)
  | .ok config => perform config e.entropy inv

end LeaseOrder.Command
