import ScriptVm.Object.Place
import ScriptVm.Registry

/-!
# Hosts

The program that embeds a registry. It gives names to the values it works with, to the cells it
shares with scripts and to its native objects, so that it can come back to them; a name does not
keep an object alive.

* `Host` is a registry and the names.
* `Hosting` is an action of a host, `Trouble` why one ends without a result.
* `onEnvironment`, `onThread`, `onRegistry`, `onCollector` run what the parts of a registry offer.
* `takeLog` and `takeBreaks` hand over what was logged and what debuggers saw since the last time.
-/

namespace ScriptVm

/-- A cell of the host. A shared one is the same cell for all its copies. -/
structure HostCell where
  link : Link
  shared : Bool

/-- A number of the host. -/
inductive Number where
  | integer (n : Int32)
  | decimal (d : Decimal)
deriving DecidableEq

/-- A registry and what its host has given names to, the latest first. -/
structure Host where
  registry : Registry
  cells : List (String × HostCell)
  values : List (String × Value)
  entities : List (String × EntityId)

/-- Why an action of a host ends without a result. -/
inductive Trouble where
  | unknownName (name : String)
  | notObject (name : String)
  | noThread (id : Nat)
  | otherNumber (name : String)
  | staleHandle (h : Handle)
  | format (e : FormatError)
  | fault (f : Fault)
  | registry (e : RegistryError)
  | overflow
  | outOfFuel

/-- The trouble of a halt. -/
def Trouble.ofHalt {ε : Type} (f : ε → Trouble) : Halt ε → Trouble
  | .error e => f e
  | .overflow => .overflow
  | .outOfFuel => .outOfFuel

/-- An action of a host. -/
abbrev Hosting := EStateM Trouble Host

namespace Host

variable {α : Type}

/-- A host that has named nothing. -/
def ofRegistry (r : Registry) : Host := ⟨r, [], [], []⟩

/-- The virtual machine. -/
abbrev vm (h : Host) : Vm := h.registry.vm

/-! ### Parts of the registry -/

/-- Runs a function of the environment. -/
def onEnvironment (f : Environment → α × Environment) : Hosting α :=
  fun ⟨⟨⟨env, threads⟩, config⟩, cells, values, entities⟩ =>
    let (a, env) := f env
    .ok a ⟨⟨⟨env, threads⟩, config⟩, cells, values, entities⟩

/-- Changes the environment. -/
def mapEnvironment (f : Environment → Environment) : Hosting Unit :=
  onEnvironment fun env => ((), f env)

/-- Runs a function of the memory. -/
def onMemory (f : Memory → α × Memory) : Hosting α :=
  onEnvironment fun env =>
    let memory := env.memory
    let env := { env with memory := default }
    let (a, memory) := f memory
    (a, { env with memory })

/-- Changes the heap. -/
def mapHeap (f : Heap → Heap) : Hosting Unit := mapEnvironment (·.mapHeap f)

/-- The environment. -/
def environment : Hosting Environment := fun h => .ok h.vm.env h

/-- The memory. -/
def memory : Hosting Memory := fun h => .ok h.vm.env.memory h

/-- The heap. -/
def heap : Hosting Heap := fun h => .ok h.vm.env.heap h

/-- Runs an operation of the registry. -/
def onRegistry (x : Registry.Operation α) : Hosting α :=
  fun ⟨registry, cells, values, entities⟩ =>
    match x registry with
    | .ok a registry => .ok a ⟨registry, cells, values, entities⟩
    | .error e registry => .error (.ofHalt .registry e) ⟨registry, cells, values, entities⟩

/-- Runs an action on a thread. -/
def onThread (id : Nat) (x : Exec α) : Hosting α :=
  fun ⟨⟨vm, config⟩, cells, values, entities⟩ =>
    match vm.onThread id x with
    | .ok a vm => .ok a ⟨⟨vm, config⟩, cells, values, entities⟩
    | .error e vm => .error (.ofHalt .fault e) ⟨⟨vm, config⟩, cells, values, entities⟩

/-- Runs a collection. -/
def onCollector (x : EStateM SizeOverflow Vm α) : Hosting α :=
  fun ⟨⟨vm, config⟩, cells, values, entities⟩ =>
    match x vm with
    | .ok a vm => .ok a ⟨⟨vm, config⟩, cells, values, entities⟩
    | .error _ vm => .error .overflow ⟨⟨vm, config⟩, cells, values, entities⟩

/-- A thread. -/
def thread (id : Nat) : Hosting Thread := fun h =>
  match h.vm.threads[id]? with
  | some t => .ok t h
  | none => .error (.noThread id) h

/-- Pushes a value on a thread's operand stack as often as asked, or until the stack is full. -/
def pushTimes (id times : Nat) (v : Value) : Hosting Unit :=
  onThread id (Exec.pushAll (List.replicate (Nat.min times (Thread.maxStack + 1)) v))

/-- The value that lies `depth` values below the top of a thread's operand stack; counting the top
as well must not leave the range of sizes. -/
def peek (id depth : Nat) : Hosting Value := onThread id (Exec.peek depth)

/-- Changes a thread, if it is there. -/
def mapThread (id : Nat) (f : Thread → Thread) : Hosting Unit :=
  modify fun h =>
    { h with
      registry := { h.registry with vm := { h.vm with threads := h.vm.threads.modify id f } } }

/-- Changes the debugging state of a thread, if it is there. -/
def mapDebug (id : Nat) (f : DebugState → DebugState) : Hosting Unit :=
  mapThread id fun t => { t with debug := f t.debug }

/-- Whether a thread is there. -/
def hasThread (id : Nat) : Hosting Bool := fun h => .ok (decide (id < h.vm.threads.size)) h

/-- Gives a thread a debugger and says whether the thread is there. -/
def setDebugger (id : Nat) (d : Debugger) : Hosting Bool := do
  mapDebug id fun s => { s with debugger := some d }
  hasThread id

/-- Takes the debugger of a thread away and says whether it had one. -/
def removeDebugger (id : Nat) : Hosting Bool := do
  let t ← thread id
  mapDebug id fun s => { s with debugger := none }
  return t.debug.debugger.isSome

/-- Whether a thread breaks at an offset of a function. -/
def hasBreakpoint (id : Nat) (function : Handle) (offset : Nat) : Hosting Bool := do
  return (← thread id).debug.breakpoints.contains (function, offset)

/-- Sets a breakpoint and says whether the thread is there. -/
def addBreakpoint (id : Nat) (function : Handle) (offset : Nat) : Hosting Bool := do
  mapDebug id (·.addBreakpoint function offset)
  hasThread id

/-- Removes a breakpoint and says whether it was set. -/
def removeBreakpoint (id : Nat) (function : Handle) (offset : Nat) : Hosting Bool := do
  let known ← hasBreakpoint id function offset
  mapDebug id (·.removeBreakpoint function offset)
  return known

/-- Reads a file into a module. -/
def readModule (bytes : List UInt8) (file : UInt32) : Hosting Handle := do
  match (← environment).readModule bytes file with
  | .ok (h, env) =>
    mapEnvironment fun _ => env
    return h
  | .error e => throw (.format e)

/-! ### Names -/

/-- What a name stands for. -/
def lookup (name : String) (names : Host → List (String × α)) : Hosting α := fun h =>
  match (names h).lookup name with
  | some a => .ok a h
  | none => .error (.unknownName name) h

/-- The value of a name. -/
def value (name : String) : Hosting Value := lookup name Host.values

/-- The object of a name. -/
def object (name : String) : Hosting Handle := do
  match (← value name).object? with
  | some h => return h
  | none => throw (.notObject name)

/-- The object of a name, if the name stands for one. -/
def object? (name : String) : Hosting (Option Handle) := fun h =>
  .ok ((h.values.lookup name).bind Value.object?) h

/-- The cell of a name. -/
def cell (name : String) : Hosting HostCell := lookup name Host.cells

/-- The native object of a name. -/
def entity (name : String) : Hosting EntityId := lookup name Host.entities

/-- Gives a value a name. -/
def save (name : String) (v : Value) : Hosting Unit :=
  modify fun h => { h with values := (name, v) :: h.values }

/-- Gives a cell a name. -/
def saveCell (name : String) (c : HostCell) : Hosting Unit :=
  modify fun h => { h with cells := (name, c) :: h.cells }

/-- Gives a native object a name. -/
def saveEntity (name : String) (e : EntityId) : Hosting Unit :=
  modify fun h => { h with entities := (name, e) :: h.entities }

/-- Gives names to functions: that of their module, a point, and their place from `index` on. -/
def saveFunctions (name : String) : Nat → List Handle → Hosting Unit
  | _, [] => pure ()
  | index, f :: rest => do
    save s!"{name}.{index}" (.object f)
    saveFunctions name (index + 1) rest

/-- Gives names to a module and its functions, which are the result. -/
def saveModule (name : String) (module : Handle) : Hosting (List Handle) := do
  let functions := (((← heap).module? module).map (·.functions.toList)).getD []
  save name (.object module)
  saveFunctions name 0 functions
  return functions

/-! ### Cells and native objects -/

/-- A new cell with a number. -/
def newCell (n : Number) : Hosting Link :=
  onMemory fun mem =>
    match n with
    | .integer n =>
      let (l, cells) := mem.cells.newInteger n
      (.integer l, { mem with cells })
    | .decimal d =>
      let (l, cells) := mem.cells.newDecimal d
      (.decimal l, { mem with cells })

/-- A new cell with a name. -/
def defineCell (name : String) (shared : Bool) (n : Number) : Hosting Unit := do
  let link ← newCell n
  saveCell name ⟨link, shared⟩

/-- The number in a cell. -/
def cellNumber (name : String) : Hosting Number := do
  let cells := (← memory).cells
  match (← cell name).link with
  | .integer l => return .integer (cells.integer l)
  | .decimal l => return .decimal (cells.decimal l)

/-- Writes a number of the cell's sort into a cell. -/
def setCell (name : String) (n : Number) : Hosting Unit := do
  match (← cell name).link, n with
  | .integer l, .integer n =>
    onMemory fun mem => ((), { mem with cells := mem.cells.setInteger l n })
  | .decimal l, .decimal d =>
    onMemory fun mem => ((), { mem with cells := mem.cells.setDecimal l d })
  | _, _ => throw (.otherNumber name)

/-- Copies a cell: a new cell with the same number, or the same cell if it is shared. -/
def copyCell (name copy : String) : Hosting Unit := do
  let c ← cell name
  if c.shared then saveCell copy c else defineCell copy false (← cellNumber name)

/-- A new native object whose fields are cells. -/
def newEntity (fields : List (String × String)) (name : Option String) : Hosting EntityId := do
  let fields ← fields.mapM fun f => do return (f.1, (← cell f.2).link)
  let e ← onMemory (·.newEntity fields)
  match name with
  | some name => saveEntity name e
  | none => pure ()
  return e

/-! ### Objects -/

/-- Places an object. -/
def alloc (o : Obj) : Hosting Handle := onMemory (·.alloc o)

/-- Removes an object and gives it; a handle that finds nothing is trouble. -/
def free (h : Handle) : Hosting Obj := do
  let (outcome, heap) := (← heap).release h
  mapHeap fun _ => heap
  match outcome with
  | .ok o => return o
  | .error .stale => throw (.staleHandle h)
  | .error _ => throw .overflow

/-- Puts a value in a place of an object and says whether the object has such a place. -/
def put (h : Handle) (place : Place) (v : Value) : Hosting Bool := do
  match ((← heap).get? h).bind (·.put? v place) with
  | some o =>
    mapHeap (·.modify h fun _ => o)
    return true
  | none => return false

/-! ### What happened -/

/-- Hands over the lines logged since the last time. -/
def takeLog : Hosting (Array LogEntry) :=
  onEnvironment fun env =>
    (env.log.entries, { env with log := { env.log with entries := #[] } })

/-- Hands over what the debuggers of all threads recorded since the last time. -/
def takeBreaks : Hosting (List BreakRecord) := fun h =>
  let records := h.vm.threads.toList.flatMap fun t =>
    (t.debug.debugger.map (·.records.toList)).getD []
  let threads := h.vm.threads.map fun t =>
    { t with
      debug := { t.debug with debugger := t.debug.debugger.map fun d => ⟨d.script, #[]⟩ } }
  .ok records { h with registry := { h.registry with vm := { h.vm with threads } } }

end Host
end ScriptVm
