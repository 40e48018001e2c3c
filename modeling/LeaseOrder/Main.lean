/-
The program: the operations on real files, and the way from arguments to an exit code.
-/
import LeaseOrder.Command.Grammar
import LeaseOrder.Command.Run
import LeaseOrder.Command.Usage

namespace LeaseOrder

open Files

/-- The reason behind a failure of the system, by its number where it has one of its own. -/
def Files.FileError.ofSystem (e : IO.Error) : FileError :=
  let named (code : UInt32) (details : String) : FileError :=
    match code.toNat with
    | 2 => .notFound
    | 16 => .busy
    | 17 => .alreadyExists
    | 20 => .notDirectory
    | 21 => .isDirectory
    | 36 => .nameTooLong
    | n => .other (details ++ " (os error " ++ Text.decimal n ++ ")")
  match e with
  | .noFileOrDirectory _ code details => named code details
  | .alreadyExists _ code details => named code details
  | .inappropriateType _ code details => named code details
  | .invalidArgument _ code details => named code details
  | .resourceBusy code details => named code details
  | .permissionDenied _ code details => named code details
  | .otherError code details => named code details
  | e => .other (toString e)

/-- Runs an operation, unless the path cannot be handed to the system. -/
def Files.attempt {α : Type} (p : Path) (act : String → IO α) : IO (Except FileError α) := do
  if p.text.toList.contains '\x00' then return .error .badName
  try return .ok (← act p.text)
  catch e => return .error (.ofSystem e)

/-- Carries out an operation on a file that is open. -/
def Files.onHandle {α : Type} (act : IO α) : IO (Except FileError α) := do
  try return .ok (← act)
  catch e => return .error (.ofSystem e)

/-- The path leads to something that passes a test. -/
def Files.attributes (p : Path) (test : IO.FS.Metadata → Bool) : IO Bool := do
  try return test (← ((← IO.currentDir) / p.text).metadata)
  catch _ => return false

instance : FileSystem IO where
  Reader := IO.FS.Handle
  Writer := IO.FS.Handle
  openRead p := attempt p fun name => IO.FS.Handle.mk name .read
  -- Nobody who holds the file for writing is met half-way.
  lockShared handle := onHandle (handle.lock false)
  readAll handle := do
    match ← onHandle handle.readBinToEnd with
    | .ok bytes => return ⟨bytes.toList, none⟩
    | .error e => return ⟨[], some e⟩
  create p := attempt p fun name => IO.FS.Handle.mk name .write
  lockExclusive handle := onHandle handle.lock
  append handle text := onHandle (handle.putStr text)
  flush handle := onHandle handle.flush
  -- What was not flushed is flushed when nobody holds the handle any more, as far as it can be.
  abandon _ := return ()
  makeDir p := attempt p fun name => IO.FS.createDir name
  rename p q := do
    if q.text.toList.contains '\x00' then return .error .badName
    attempt p fun name => IO.FS.rename name q.text
  pathExists p := attributes p fun _ => true
  isDir p := attributes p fun m => m.type == .dir
  readInput := do
    match ← onHandle (do (← IO.getStdin).readBinToEnd) with
    | .ok bytes => return ⟨bytes.toList, none⟩
    | .error e => return ⟨[], some e⟩

end LeaseOrder

open LeaseOrder

/-- Runs a command line and gives the exit code. -/
def main (args : List String) : IO UInt32 := do
  let entropy := (← IO.getRandomBytes 8).foldl (fun n b => n * 256 + b.toUInt64) 0
  let environment : Environment :=
    { home := ← IO.getEnv "HOME"
      configHome := ← IO.getEnv "XDG_CONFIG_HOME"
      configFile := ← IO.getEnv "SHARD_ORDER_CONFIG"
      entropy }
  match Command.parse environment.configFile args with
  | .error e =>
    if e.exitCode = 0 then IO.print e.message else IO.eprint e.message
    return UInt32.ofNat e.exitCode
  | .ok inv =>
    match ← (Command.run environment inv : IO Command.Outcome) with
    | .ok stdout =>
      IO.print stdout
      return 0
    | .error e =>
      IO.eprintln ("Error: " ++ e.message)
      return 1
