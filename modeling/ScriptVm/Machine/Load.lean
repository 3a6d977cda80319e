import ScriptVm.Environment.Modules
import ScriptVm.Machine.Run

/-!
# Loading scripts

Files are fetched from the loader's source, read into modules, and run from their first function.
A class is loaded by running all its files; it must then be a global, and is given the members
that the host has for it, once.

* `Load` is an action that loads and may fail.
* `runFile` reads and runs the bytes of a file.
* `loadScript` loads a file once, `loadClass` a class.
-/

namespace ScriptVm

/-- An action on a machine that loads scripts. -/
abbrev Load := EStateM (Halt RegistryError) Machine

namespace Load

variable {α : Type}

/-- An action that halts with a fault. -/
def ofExec (x : Exec α) : Load α := EStateM.adaptExcept (Halt.map .vm) x

/-- The same action as one that halts with a fault. -/
def toExec (x : Load α) : Exec α := EStateM.adaptExcept (Halt.map RegistryError.toFault) x

/-- Adds a line to the log. -/
def report (level : Level) (text : Unit → String) : Load Unit := ofExec (Exec.report level text)

/-- Reads a file into a module. -/
def readModule (bytes : List UInt8) (file : UInt32) : Load Handle := fun m =>
  match m.env.readModule bytes file with
  | .ok (h, env) => .ok h { m with env }
  | .error e => .error (.error (.container e)) m

/-- Reads a file into a module and runs its first function. -/
def runFile (executor : Exec Unit) (bytes : List UInt8) (file : UInt32) : Load Unit := do
  let module ← readModule bytes file
  match (← get).env.entryFunction? module with
  | some entry =>
    let _ ← ofExec (Exec.runValue executor (.object entry) [])
  | none => pure ()

/-- Changes the loader. -/
def mapLoader (f : Loader → Loader) : Load Unit :=
  modify fun m => { m with env := { m.env with loader := m.env.loader.map f } }

/-- Fetches a file; without a loader every file is absent. -/
def fetch (file : UInt32) : Load Fetched := fun m =>
  match m.env.loader with
  | none => .ok .absent m
  | some l =>
    let m := { m with env := { m.env with loader := some (l.fetch file).2 } }
    match (l.fetch file).1 with
    | .ok found => .ok found m
    | .error e => .error (.error e) m

/-- Loads a file unless it was loaded, and says whether it is there. -/
def loadScript (executor : Exec Unit) (file : UInt32) : Load Bool := do
  match ← fetch file with
  | .cached => return true
  | .absent =>
    report .warn fun _ => "Script " ++ Text.hexWord file ++ " does not exist!"
    return false
  | .fresh bytes =>
    runFile executor bytes file
    return true

/-- Loads the files of a class in order; `count` is how many there are and `first` whether the
next is the first of them. -/
def loadFiles (executor : Exec Unit) (name : String) (count : Nat) :
    Bool → List UInt32 → Load Bool
  | _, [] => pure true
  | first, file :: rest => do
    match ← fetch file with
    | .cached => loadFiles executor name count false rest
    | .absent =>
      report .warn fun _ => s!"Object \"{name}\" does not exist!"
      return false
    | .fresh bytes =>
      if first then
        report .debug fun _ => s!"Loading the object {name} class, {count} filenames..."
      runFile executor bytes file
      loadFiles executor name count false rest

/-- Gives a class the members that the host has for it and remembers that it did. -/
def bindMembers (env : Environment) (b : Binder) (c : Handle) (name : String) : Environment :=
  let members := b.members.filter (·.className == name)
  let env := members.foldl (fun env m => env.bindMember c m) env
  let binder := some { b with bound := b.bound.push name }
  { env with loader := env.loader.map fun l => { l with binder } }

/-- Registers a class that its files have defined, and lets the host bind it. Extended classes
and classes of the host keep the members they have. -/
def bindClass (name : String) (hash : UInt32) : Load Bool := do
  let m ← get
  let some l := m.env.loader | return false
  if l.boundClasses.contains hash then return true
  match m.env.classByHash? hash with
  | none =>
    report .error fun _ => s!"Could not find class of {name}"
    return false
  | some c =>
    mapLoader fun l => { l with boundClasses := hash :: l.boundClasses }
    modify fun m => { m with env := { m.env with classes := m.env.classes.push c } }
    let isExtended := ((m.env.heap.class? c).map (·.kind)) == some ClassKind.extended
    match l.binder with
    | none => pure ()
    | some b =>
      if !isExtended && !m.env.isStandardClass name then
        report .trace fun _ => s!"Setting native functions for class {name}..."
        modify fun m => { m with env := bindMembers m.env b c name }
    return true

/-- Loads a class: its files, then its registration. -/
def loadClass (executor : Exec Unit) (name : String) : Load Bool := do
  if name.isEmpty then return false
  let hash := hashName name
  let some l := (← get).env.loader | return false
  match l.source.classMap.files? hash with
  | none =>
    report .warn fun _ =>
      s!"Could not find classmap for {name}! (Hash: 0x" ++ Text.hexWord hash ++ ")"
    return false
  | some files =>
    if ← loadFiles executor name files.length true files then bindClass name hash
    else return false

end Load
end ScriptVm
