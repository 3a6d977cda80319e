import ScriptVm.Log

/-!
# Command lines

The arguments of the command and how they are read. Options may come in any order between the
files; short ones can be joined, and a value may be attached to its option.

* `CommandLine` is what the arguments ask for.
* `parse` reads arguments one by one. The values of an option wait until the next argument that
  is understood, or the end, and are checked then.
-/

namespace ScriptVm

/-- What the arguments ask for. -/
structure CommandLine where
  files : List String
  dir : Option String
  classes : List String
  calls : List String
  disassemble : Bool
  config : Option String
  collectionStats : Bool
  verbose : Nat
deriving DecidableEq

namespace CommandLine

/-- No arguments. -/
def empty : CommandLine :=
  { files := [], dir := none, classes := [], calls := [], disassemble := false, config := none
    collectionStats := false, verbose := 0 }

instance : Inhabited CommandLine := ⟨empty⟩

/-- How much is logged. -/
def logLevel (c : CommandLine) : Level :=
  match c.verbose with
  | 0 => .info
  | 1 => .debug
  | _ => .trace

/-- Whether nothing is to be run. -/
def isIdle (c : CommandLine) : Bool := c.files.isEmpty && c.classes.isEmpty && c.calls.isEmpty

/-- Why arguments are not carried out. -/
inductive UsageError where
  | unknownArgument | invalidValue | argumentConflict | tooManyValues | displayHelp
  | displayVersion
deriving DecidableEq

/-- What values are for. -/
inductive Target where
  | files | dir | classes | calls | config
deriving DecidableEq

/-- A switch. -/
inductive Flag where
  | disassemble | collectionStats | verbose | help | version
deriving DecidableEq

/-- An option: one that takes a value, or a switch. -/
inductive Choice where
  | value (t : Target)
  | flag (f : Flag)
deriving DecidableEq

/-- The option of a long name. -/
def long? : String → Option Choice
  | "dir" => some (.value .dir)
  | "class" => some (.value .classes)
  | "call" => some (.value .calls)
  | "config" => some (.value .config)
  | "disassemble" => some (.flag .disassemble)
  | "gc-stats" => some (.flag .collectionStats)
  | "verbose" => some (.flag .verbose)
  | "help" => some (.flag .help)
  | "version" => some (.flag .version)
  | _ => none

/-- The option of a letter. -/
def short? : Char → Option Choice
  | 'd' => some (.value .dir)
  | 'c' => some (.value .classes)
  | 'v' => some (.flag .verbose)
  | 'h' => some (.flag .help)
  | 'V' => some (.flag .version)
  | _ => none

/-- A path that is given once and is not empty. -/
def singlePath (current : Option String) : List String → Except UsageError (Option String)
  | [] => .error .invalidValue
  | path :: _ =>
    if current.isSome then .error .argumentConflict
    else if path.isEmpty then .error .invalidValue
    else .ok (some path)

/-- Takes values for a target. -/
def store (c : CommandLine) (values : List String) : Target → Except UsageError CommandLine
  | .files =>
    if values.any (·.isEmpty) then .error .invalidValue
    else .ok { c with files := c.files ++ values }
  | .dir => (singlePath c.dir values).map fun dir => { c with dir }
  | .config => (singlePath c.config values).map fun config => { c with config }
  | .classes =>
    if values.isEmpty then .error .invalidValue else .ok { c with classes := c.classes ++ values }
  | .calls =>
    if values.isEmpty then .error .invalidValue else .ok { c with calls := c.calls ++ values }

/-- Turns a switch on; only verbosity may be raised again, up to 255. -/
def switchOn (c : CommandLine) : Flag → Except UsageError CommandLine
  | .disassemble =>
    if c.disassemble then .error .argumentConflict else .ok { c with disassemble := true }
  | .collectionStats =>
    if c.collectionStats then .error .argumentConflict else .ok { c with collectionStats := true }
  | .verbose => .ok { c with verbose := Nat.min 255 (c.verbose + 1) }
  | .help => .error .displayHelp
  | .version => .error .displayVersion

/-- Values that wait to be taken. -/
structure Pending where
  target : Target
  values : List String

/-- How far reading got: what was taken, what waits, whether the next argument is a value of what
waits, and whether options are over. -/
structure Progress where
  line : CommandLine
  pending : Option Pending
  awaiting : Bool
  trailing : Bool

namespace Progress

/-- Takes the values that wait. -/
def settle (p : Progress) : Except UsageError Progress :=
  match p.pending with
  | none => .ok p
  | some w => (p.line.store w.values w.target).map fun line => { p with line, pending := none }

/-- Meets a switch. -/
def meetFlag (p : Progress) (f : Flag) : Except UsageError Progress := do
  let p ← p.settle
  let line ← p.line.switchOn f
  return { p with line, awaiting := false }

/-- Meets an option with an attached value, or one whose value comes next. -/
def meetOption (p : Progress) (t : Target) : Option String → Except UsageError Progress
  | some value => do
    let p ← p.settle
    let line ← p.line.store [value] t
    return { p with line, awaiting := false }
  | none => do
    let p ← p.settle
    return { p with pending := some ⟨t, []⟩, awaiting := true }

/-- Meets a file. Files that follow each other are taken together. -/
def meetFile (p : Progress) (file : String) : Except UsageError Progress := do
  match p.pending with
  | some ⟨.files, values⟩ =>
    return { p with pending := some ⟨.files, values ++ [file]⟩, awaiting := false }
  | _ =>
    let p ← p.settle
    return { p with pending := some ⟨.files, [file]⟩, awaiting := false }

/-- Meets the value of the option that waits. -/
def meetValue (p : Progress) (value : String) : Progress :=
  { p with
    pending := p.pending.map fun w => { w with values := w.values ++ [value] }
    awaiting := false }

/-- Meets a long option. -/
def meetLong (p : Progress) (text : List Char) : Except UsageError Progress :=
  let name := String.ofList (text.takeWhile (· != '='))
  let attached := match text.dropWhile (· != '=') with
    | [] => none
    | _ :: value => some (String.ofList value)
  match long? name, attached with
  | none, _ => .error .unknownArgument
  | some (.value t), attached => p.meetOption t attached
  | some (.flag _), some _ => .error .tooManyValues
  | some (.flag f), none => p.meetFlag f

/-- The value attached to a letter. -/
def attachedValue : List Char → Option String
  | [] => none
  | '=' :: value => some (String.ofList value)
  | value => some (String.ofList value)

/-- Meets letters joined in one argument. -/
def meetShorts (p : Progress) : List Char → Except UsageError Progress
  | [] => .ok p
  | c :: rest =>
    match short? c with
    | none => .error .unknownArgument
    | some (.flag f) =>
      match p.meetFlag f with
      | .ok p => meetShorts p rest
      | .error e => .error e
    | some (.value t) => p.meetOption t (attachedValue rest)

/-- Meets an argument. -/
def meet (p : Progress) (argument : String) : Except UsageError Progress :=
  if p.trailing then p.meetFile argument
  else
    match argument.toList with
    | ['-', '-'] => .ok { p with trailing := true }
    | '-' :: '-' :: text => p.meetLong text
    | '-' :: c :: rest => p.meetShorts (c :: rest)
    | _ => if p.awaiting then .ok (p.meetValue argument) else p.meetFile argument

end Progress

/-- Reads arguments. -/
def parse (arguments : List String) : Except UsageError CommandLine := do
  let p ← arguments.foldlM Progress.meet ⟨empty, none, false, false⟩
  return (← p.settle).line

end CommandLine
end ScriptVm
