import ScriptVm.CommandLine.Run
import ScriptVm.Native.Catalog

/-!
# The command

Reads the arguments, takes the files that they name, carries the command out, and prints its
output. What is logged and what fails goes to the error stream.
-/

namespace ScriptVm
namespace CommandLine

/-- The steps that scripts may take. -/
def stepLimit : Nat := 4611686018427387903

/-- The name and version of the command. -/
def version : String := "0.1.0"

/-- What is shown when nothing is to be run. -/
def usageText : String :=
  "HatchVM v" ++ version ++ "\n\nUsage:\n" ++
  "  hatch-vm <FILE>...                  Run bytecode containers\n" ++
  "  hatch-vm --disassemble <FILE>...    Print their disassembly\n" ++
  "  hatch-vm --dir <DIR> --class <NAME> Load a class from a directory\n\n" ++
  "Run 'hatch-vm --help' for more options.\n"

/-- The wording of a usage error. -/
def UsageError.message : UsageError → String
  | .unknownArgument => "unexpected argument"
  | .invalidValue => "invalid or missing value"
  | .argumentConflict => "an argument was used more than once"
  | .tooManyValues => "unexpected value"
  | .displayHelp => usageText
  | .displayVersion => "hatch-vm " ++ version

/-- The paths of the scripts that the class map of a directory names. -/
def scriptPaths (root : String) (classMap : List UInt8) : List String :=
  match ClassMap.decode classMap with
  | .ok m => m.allFiles.map fun hash => Source.entryPath root (Source.scriptName hash)
  | .error _ => []

/-- Why something of the host cannot be looked at or read. -/
def fileError : IO.Error → FileError
  | .permissionDenied .. => .denied
  | .hardwareFault code text | .otherError code text | .resourceExhausted _ code text =>
    .other s!"{text} (os error {code})"
  | e => .other e.toString

/-- What stands at a path. -/
def look (path : String) : IO (Option FileNode) := do
  let place := (← IO.currentDir) / path
  match ← place.metadata.toBaseIO with
  | .error (.noFileOrDirectory ..) => return none
  | .error e => return some (.hidden (fileError e))
  | .ok found =>
    if found.type == .dir then return some .directory
    match ← (IO.FS.readBinFile place).toBaseIO with
    | .ok bytes => return some (.file bytes.data.toList)
    | .error e => return some (.unreadable (fileError e))

/-- The paths that a path goes through, itself included. -/
def stages (path : String) : List String :=
  let components := path.splitOn "/"
  ((List.range components.length).map fun n =>
    String.intercalate "/" (components.take (n + 1))).filter (!·.isEmpty)

/-- What stands at paths that lead one into the next, up to the first that is no directory. -/
def lookAlong : List String → IO (List (String × FileNode))
  | [] => return []
  | path :: rest => do
    match ← look path with
    | some .directory => return (path, .directory) :: (← lookAlong rest)
    | some node => return [(path, node)]
    | none => return []

/-- What stands at the paths in a directory of scripts that a command can ask for. -/
def lookInto (root : String) : IO (List (String × FileNode)) := do
  let found ← lookAlong (stages (Source.entryPath root Source.classMapFilename))
  let scripts := found.flatMap fun
    | (_, .file bytes) => scriptPaths root bytes
    | _ => []
  return found ++ (← scripts.mapM (lookAlong ∘ stages)).flatten

/-- The files that a command names. -/
def collectFiles (c : CommandLine) : IO FileTree := do
  let here ← IO.currentDir
  let named ← (c.files ++ c.config.toList).mapM (lookAlong ∘ stages)
  let scripts ← c.dir.toList.mapM lookInto
  return .ofPaths (FileTree.placeOf [] here.toString) (named.flatten ++ scripts.flatten)

/-- The wording of a halt. -/
def haltMessage : Halt CommandError → String
  | .error e => e.message
  | .overflow => "Sizes out of range"
  | .outOfFuel => "Too many steps"

/-- Prints what was logged. -/
def printLog (entries : Array LogEntry) : IO Unit :=
  entries.forM fun e => IO.eprintln ("[" ++ e.level.name.toUpper ++ "] " ++ e.text)

/-- Carries a command out and gives the exit code. -/
def perform (c : CommandLine) : IO UInt32 := do
  if c.isIdle then
    IO.print usageText
    return 0
  let tree ← c.collectFiles
  let (result, entries) := c.run stepLimit tree Native.standard (.upTo c.logLevel)
  printLog entries
  match result with
  | .ok text =>
    IO.print text
    return 0
  | .error e =>
    IO.eprintln ("Error: " ++ haltMessage e)
    return 1

end CommandLine
end ScriptVm

/-- Runs the command. -/
def main (arguments : List String) : IO UInt32 := do
  match ScriptVm.CommandLine.parse arguments with
  | .ok c => c.perform
  | .error .displayHelp =>
    IO.print ScriptVm.CommandLine.usageText
    return 0
  | .error .displayVersion =>
    IO.println ScriptVm.CommandLine.UsageError.displayVersion.message
    return 0
  | .error e =>
    IO.eprintln ("error: " ++ e.message)
    return 2
