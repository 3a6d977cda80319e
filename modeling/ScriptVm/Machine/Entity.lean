import ScriptVm.Machine.Run

/-!
# Entities

Instances that stand for native objects of the host. The numbers of the native object appear as
linked fields, so that host and scripts share them.

* `spawn` makes an instance for a native object and initializes it, `cloneEntity` copies the plain
  fields of another instance, `unlink` cuts an instance loose.
* `callable` finds what an event of an instance calls, `runEvent` calls it, and
  `invokeWithDefault` calls a native if there is nothing else.
-/

namespace ScriptVm
namespace Environment

/-- Links the cells of a native object into an instance; of fields with one name the last counts. -/
def linkFields (h : Handle) : List (String × Link) → Environment → Environment
  | [], env => env
  | (name, link) :: rest, env =>
    let (hash, env) := env.addToken name
    let env := env.mapHeap (·.modifyInstance h fun i =>
      { i with fields := i.fields.insert hash link.value })
    linkFields h rest env

/-- The fields of a native object. -/
def entityFields (env : Environment) (e : EntityId) : List (String × Link) :=
  (env.memory.entities[e.index]?.map (·.fields)).getD []

/-- A new instance that stands for a native object. Its class is then known to stand for native
objects, unless it extends another. -/
def newEntity (env : Environment) (c : Handle) (e : EntityId) : Handle × Environment :=
  let (h, env) := env.alloc (.inst { InstanceObject.ofClass c with entity := some e })
  let env := env.mapHeap (·.modifyClass c fun k =>
    if k.kind = .extended then k else { k with entityBound := true })
  (h, linkFields h (env.entityFields e) env)

/-- Gives an instance the fields that it does not have. -/
def addMissingFields (h : Handle) (fields : List (UInt32 × Value)) (env : Environment) :
    Environment :=
  env.mapHeap (·.modifyInstance h fun i =>
    { i with fields := fields.foldl (fun t e => t.insertNew e.1 e.2) i.fields })

/-- Turns the linked fields of an instance into plain ones and lets go of its native object. -/
def unlink (env : Environment) (h : Handle) : Environment :=
  let cells := env.memory.cells
  env.mapHeap (·.modifyInstance h fun i =>
    { i with fields := i.fields.mapValues (·.delink cells), entity := none })

/-- What an event of an instance calls: its own field, or a member of its class. -/
def callable (env : Environment) (h : Handle) (hash : UInt32) : Option Value × Environment :=
  match env.heap.instance? h with
  | none => (none, env)
  | some i =>
    match i.fields.get? hash with
    | some field => (some (field.delink env.memory.cells), env)
    | none =>
      let (found, env) := env.findMember i.classHandle hash
      (found.map (·.delink env.memory.cells), env)

end Environment

namespace Exec

/-- Makes an instance for a native object and initializes it. -/
def spawn (executor : Exec Unit) (c : Handle) (e : EntityId) : Exec Handle := do
  if (← environment).heap.isClass c then
    let h ← onEnvironment (·.newEntity c e)
    let name := (← environment).className c
    report .debug fun _ => s!"Spawned entity of class {name}"
    callInitializer executor h
    return h
  else fault .instantiateNonClass

/-- Makes an instance for a native object with the plain fields of another instance. -/
def cloneEntity (source : Handle) (e : EntityId) : Exec Handle := do
  let i ← ofOption .cloneNonInstance ((← environment).heap.instance? source)
  let plain := i.fields.entries.filter fun f => !f.2.isLinked
  let h ← onEnvironment (·.newEntity i.classHandle e)
  mapEnvironment (Environment.addMissingFields h plain)
  return h

/-- Calls what an event of an instance calls, and says whether there is anything. -/
def runEvent (executor : Exec Unit) (h : Handle) (hash : UInt32) (args : List Value) :
    Exec Bool := do
  match ← onEnvironment (·.callable h hash) with
  | none => return false
  | some f =>
    let _ ← invokeForObject executor f (.object h) args
    return true

/-- Runs a native of the host outside any call. -/
def runNative (name : String) (args : Array Value) : Exec Value := do
  let native := (← environment).natives name
  ofExcept (← onMemory fun mem => native mem args)

/-- Calls what an event of an instance calls; if that is nothing or the native itself, runs the
native on the instance and the arguments. -/
def invokeWithDefault (executor : Exec Unit) (h : Handle) (hash : UInt32) (native : String)
    (args : List Value) : Exec Value := do
  let direct := runNative native (.object h :: args).toArray
  match ← onEnvironment (·.callable h hash) with
  | none => direct
  | some f =>
    let heap := (← environment).heap
    if f.object?.bind heap.native? = some native then direct
    else invokeForObject executor f (.object h) args

end Exec
end ScriptVm
