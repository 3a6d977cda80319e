import ScriptVm.Config
import ScriptVm.Vm

/-!
# Registries

What a host holds: a virtual machine set up by a configuration, with a loader for its scripts.
Every operation runs on the first thread; after most of them the registry may collect.

* `loadScript`, `loadScriptNamed`, `loadClass`, `loadClasses` load scripts; failures are
  reported in the log.
* `runBytecode` and `callFunction` run scripts.
* `spawnEntity`, `cloneEntity`, `unlinkEntity`, `runEvent`, `invokeWithDefault` work on entities.
  An entity is a root from its creation until it is unlinked.
* `dispose` takes everything down.
-/

namespace ScriptVm

/-- A virtual machine and its configuration. -/
structure Registry where
  vm : Vm
  config : Config
deriving Inhabited

namespace Registry

variable {α : Type}

/-- An operation of a registry. -/
abbrev Operation := EStateM (Halt RegistryError) Registry

/-- A registry with nothing loaded. -/
def new (config : Config) (source : Source) (natives : Natives) (log : Log) : Registry :=
  let heap := Heap.withThreshold config.threshold config.growth
  let env := Environment.new heap natives (some (.ofSource source)) log
  let env := { env with activeThreads := config.threads }
  let env := env.report .debug fun _ =>
    s!"Created script registry with {config.threads} thread(s)"
  let vm := Vm.new env config.threads
  let threads := vm.threads.map fun t =>
    { t with debug := { t.debug with enabled := config.debug } }
  ⟨{ vm with threads }, config⟩

/-- Runs an action on the first thread. -/
def onMain (x : Load α) : Operation α := fun ⟨vm, config⟩ =>
  match vm.onThread 0 x with
  | .ok a vm => .ok a ⟨vm, config⟩
  | .error e vm => .error e ⟨vm, config⟩

/-- The environment. -/
def environment : Operation Environment := fun r => .ok r.vm.env r

/-- Changes the environment. -/
def mapEnvironment (f : Environment → Environment) : Operation Unit :=
  modify fun r => { r with vm := { r.vm with env := f r.vm.env } }

/-- Adds a line to the log. -/
def report (level : Level) (text : Unit → String) : Operation Unit :=
  mapEnvironment (·.report level text)

/-- Keeps an error as the result. -/
def attempt (x : Operation α) : Operation (Except RegistryError α) := fun r =>
  match x r with
  | .ok a r => .ok (.ok a) r
  | .error (.error e) r => .ok (.error e) r
  | .error other r => .error other r

/-- Goes on with a kept result. -/
def release (result : Except RegistryError α) : Operation α := fun r =>
  match result with
  | .ok a => .ok a r
  | .error e => .error (.error e) r

/-! ### Collection -/

/-- Runs a collection. -/
def collecting (x : EStateM SizeOverflow Vm α) : Operation α := fun ⟨vm, config⟩ =>
  match x vm with
  | .ok a vm => .ok a ⟨vm, config⟩
  | .error _ vm => .error .overflow ⟨vm, config⟩

/-- Collects unless several threads are active. -/
def forceCollection : Operation (Option CollectionReport) := collecting Vm.forceCollection

/-- Collects if the accounted size is above the threshold. -/
def requestCollection : Operation (Option CollectionReport) := collecting Vm.requestCollection

/-- A point where no script runs, at which the registry may collect. -/
def safePoint : Operation Unit := do
  if (← get).config.autoCollect then
    let _ ← requestCollection

/-- Takes everything down and forgets what is loaded. -/
def dispose : Operation Unit := do
  collecting Vm.dispose
  mapEnvironment fun env => { env with loader := env.loader.map Loader.clear }
  report .debug fun _ => "Disposed script registry"

/-! ### Loading -/

/-- Runs a load; a failure is reported after `what` and counts as not loaded. -/
def loading (what : String) (x : Load Bool) : Operation Bool := do
  match ← attempt (onMain x) with
  | .ok loaded => return loaded
  | .error e =>
    report .error fun _ => s!"Failed to load {what}: {e.message}"
    return false

/-- Loads a file and says whether it is there and ran. -/
def loadScript (fuel : Nat) (file : UInt32) : Operation Bool := do
  let loaded ← loading ("script " ++ Text.hexWord file)
    (Load.loadScript (Exec.execute fuel) file)
  safePoint
  return loaded

/-- Loads a file by its name, in which the extension does not count. -/
def loadScriptNamed (fuel : Nat) (filename : String) : Operation Bool :=
  loadScript fuel (hashFilename filename)

/-- Loads a class and says whether it is defined now. -/
def loadClass (fuel : Nat) (name : String) : Operation Bool := do
  let loaded ← loading ("class " ++ name) (Load.loadClass (Exec.execute fuel) name)
  safePoint
  return loaded

/-- Loads files in order and counts those that are there and ran. -/
def loadAll (fuel : Nat) : List UInt32 → Nat → Operation Nat
  | [], count => return count
  | file :: rest, count => do
    match ← attempt (onMain (Load.loadScript (Exec.execute fuel) file)) with
    | .ok true => loadAll fuel rest (count + 1)
    | .ok false =>
      report .warn fun _ => "Class " ++ Text.hexWord file ++ " does not exist!"
      loadAll fuel rest count
    | .error e =>
      report .error fun _ => "Failed to load " ++ Text.hexWord file ++ ": " ++ e.message
      loadAll fuel rest count

/-- Loads every file that a class is made of. -/
def loadClasses (fuel : Nat) : Operation Nat := do
  let files := match (← environment).loader with
    | some l => l.source.classMap.allFiles
    | none => []
  let count ← loadAll fuel files 0
  let _ ← forceCollection
  return count

/-- Runs the bytes of a file, whether or not it was loaded. -/
def runBytecode (fuel : Nat) (bytes : List UInt8) (file : UInt32) : Operation Unit := do
  let result ← attempt (onMain (Load.runFile (Exec.execute fuel) bytes file))
  safePoint
  release result

/-! ### Calls -/

/-- Whether a value can be called. -/
def isCallable (heap : Heap) (v : Value) : Bool :=
  match heap.kind? v with
  | some .function | some .native | some .boundMethod => true
  | _ => false

/-- Calls the function that is the global of a name, and says whether that went well. -/
def callFunction (fuel : Nat) (name : String) : Operation Bool := do
  let env ← environment
  match env.global? name with
  | none => return false
  | some callee =>
    if isCallable env.heap callee then
      let result ← attempt (onMain (.ofExec (Exec.runValue (Exec.execute fuel) callee [])))
      safePoint
      return result.isOk
    else return false

/-- Makes an entity of the class that is the global of a name. -/
def spawnEntity (fuel : Nat) (className : String) (e : EntityId) : Operation Handle := do
  match (← environment).classByName? className with
  | none => throw (.error (.unknownClass className))
  | some c =>
    let h ← onMain (.ofExec (Exec.spawn (Exec.execute fuel) c e))
    mapEnvironment (·.addRoot (.object h))
    return h

/-- Makes an entity with the plain fields of another. -/
def cloneEntity (source : Handle) (e : EntityId) : Operation Handle := do
  let h ← onMain (.ofExec (Exec.cloneEntity source e))
  mapEnvironment (·.addRoot (.object h))
  return h

/-- Cuts an entity loose. -/
def unlinkEntity (h : Handle) : Operation Unit :=
  mapEnvironment fun env =>
    let env := env.unlink h
    { env with extraRoots := env.extraRoots.filter fun v => v.object? != some h }

/-- Passes a fatal fault on; any other is reported and replaced by `fallback`. -/
def shielded (fallback : α) (result : Except RegistryError α) : Operation α := do
  match result with
  | .ok a => return a
  | .error e =>
    if e.isFatal then throw (.error e)
    else
      report .warn fun _ => s!"Event failed: {e.message}"
      return fallback

/-- Runs an event of an entity. -/
def runEvent (fuel : Nat) (h : Handle) (event : String) (args : List Value) : Operation Bool := do
  let result ← attempt
    (onMain (.ofExec (Exec.runEvent (Exec.execute fuel) h (hashName event) args)))
  safePoint
  shielded false result

/-- Runs an event of an entity, or a native in its place. -/
def invokeWithDefault (fuel : Nat) (h : Handle) (event native : String) (args : List Value) :
    Operation Value := do
  let result ← attempt
    (onMain (.ofExec (Exec.invokeWithDefault (Exec.execute fuel) h (hashName event) native args)))
  safePoint
  shielded .null result

end Registry
end ScriptVm
