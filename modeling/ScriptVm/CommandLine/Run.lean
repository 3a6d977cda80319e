import ScriptVm.CommandLine
import ScriptVm.Container
import ScriptVm.FileTree
import ScriptVm.Registry

/-!
# Carrying out a command

Files are run in order, or only listed; then classes are loaded, functions are called, and the
figures of the collector are shown.

* `CommandError` is why a command fails.
* `start` sets up the registry that the arguments ask for, `execute` does the work in it, and
  `run` is both.
-/

namespace ScriptVm

/-- Why a command fails. -/
inductive CommandError where
  | registry (e : RegistryError)
  | container (path : String) (e : FormatError)
  | io (path : String) (reason : FileError)
  | classNotLoaded (name : String)
  | callFailed (name : String)

/-- The wording of a failure. -/
def CommandError.message : CommandError → String
  | .registry e => e.message
  | .container path e => path ++ ": " ++ e.message
  | .io path reason => "Could not read file '" ++ path ++ "': " ++ reason.message
  | .classNotLoaded name => "Could not load class " ++ name
  | .callFailed name => "Could not call function " ++ name

namespace CommandLine

variable {α : Type}

/-- A part of a command. -/
abbrev Task := EStateM (Halt CommandError) Registry

/-- An operation of the registry as a part of a command. -/
def ofOperation (x : Registry.Operation α) : Task α := EStateM.adaptExcept (Halt.map .registry) x

/-- Halts with an error. -/
def fail (e : CommandError) : Task α := throw (.error e)

/-- The configuration that is asked for. -/
def configuration (t : FileTree) (c : CommandLine) : Except RegistryError Config :=
  match c.config with
  | none => .ok .standard
  | some path =>
    match t.readText path with
    | .error e => .error (.io path e)
    | .ok text =>
      match Config.ofJson? text with
      | some config => .ok config
      | none => .error .config

/-- The registry that is asked for. -/
def start (t : FileTree) (c : CommandLine) (natives : Natives) (log : Log) :
    Except RegistryError Registry := do
  let config ← configuration t c
  match c.dir with
  | none => return .new config .empty natives log
  | some dir =>
    let (source, log) ← Source.ofDirectory t dir log
    return .new config source natives log

/-- The bytes of a file. -/
def readFile (t : FileTree) (path : String) : Task (List UInt8) :=
  match t.read path with
  | .ok bytes => pure bytes
  | .error e => fail (.io path e)

/-- Runs a file. -/
def runFile (fuel : Nat) (t : FileTree) (path : String) : Task Unit := do
  let bytes ← readFile t path
  let hash := hashFilename path
  ofOperation do
    Registry.report .debug fun _ => "Running " ++ path ++ " (" ++ Text.hexWord hash ++ ")"
    Registry.runBytecode fuel bytes hash

/-- The listing of a file. -/
def listFile (t : FileTree) (path : String) : Task String := do
  let bytes ← readFile t path
  match Container.decode bytes with
  | .ok c => return c.disassemble
  | .error e => fail (.container path e)

/-- Loads a class. -/
def loadClass (fuel : Nat) (name : String) : Task Unit := do
  unless ← ofOperation (Registry.loadClass fuel name) do fail (.classNotLoaded name)

/-- Calls a function. -/
def call (fuel : Nat) (name : String) : Task Unit := do
  unless ← ofOperation (Registry.callFunction fuel name) do fail (.callFailed name)

/-- Collects and shows the figures. -/
def collectionSummary : Task String := do
  let report ← ofOperation Registry.forceCollection
  let heap := (← get).vm.env.heap
  let head := match report with
    | some r => s!"Freed {r.freed} objects ({r.freedBytes} bytes), {r.survivors} survived\n"
    | none => "Collection skipped\n"
  return head ++ s!"Collections: {heap.stats.collections}, " ++
    s!"total freed: {heap.stats.totalFreed}, live bytes: {heap.accounted}\n"

/-- Does what the arguments ask for and gives what is to be printed. -/
def execute (fuel : Nat) (t : FileTree) (c : CommandLine) : Task String := do
  if c.disassemble then
    return String.join (← c.files.mapM (listFile t))
  else
    c.files.forM (runFile fuel t)
    c.classes.forM (loadClass fuel)
    c.calls.forM (call fuel)
    if c.collectionStats then collectionSummary else return ""

/-- Carries out a command; gives its output or failure, and what was logged. -/
def run (fuel : Nat) (t : FileTree) (natives : Natives) (log : Log) (c : CommandLine) :
    Except (Halt CommandError) String × Array LogEntry :=
  match start t c natives log with
  | .error e => (.error (.error (.registry e)), #[])
  | .ok registry =>
    match execute fuel t c registry with
    | .ok text r => (.ok text, r.vm.env.log.entries)
    | .error e r => (.error e, r.vm.env.log.entries)

end CommandLine
end ScriptVm
