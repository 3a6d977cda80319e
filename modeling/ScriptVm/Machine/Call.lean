import ScriptVm.Machine

/-!
# Calls

How a value is called. The callee or the receiver lies below the arguments. A function gets a
frame that starts at that slot; a native runs at once and leaves its result there.

* `callValue` calls the value below the arguments, `callForObject` calls another value with the
  value below the arguments as receiver.
* `invoke` calls a member of the receiver by name.
* `instantiate` makes an instance and calls the initializer of its class.
-/

namespace ScriptVm
namespace Exec

/-- Runs a native on the topmost `passed` values and puts its result in place of the topmost
`consumed`. -/
def callNative (name : String) (passed consumed : Nat) : Exec Unit := do
  let start ← heightBelow passed
  let base ← heightBelow consumed
  let args ← valuesFrom start
  let native := (← environment).natives name
  let result ← ofExcept (← onMemory fun mem => native mem args)
  truncate base
  push result

/-- Enters a function with `argc` arguments. -/
def call (function : Handle) (argc : Nat) : Exec Unit := do
  let m ← get
  let f ← ofOption .notCallable (m.env.heap.function? function)
  if f.arity.toInt ≠ argc then fault (.wrongArity f.arity.toInt argc)
  else if Thread.maxFrames ≤ m.thread.frames.size then
    fault (.frameOverflow m.thread.frames.size Thread.maxFrames)
  else
    let slots ← heightBelow (← size (argc + 1))
    enter (.enter function f.code slots f.module)

/-- Calls a value. A bound method puts its receiver below the arguments. -/
def callCallee (callee : Value) (argc : Nat) : Exec Unit := do
  let heap := (← environment).heap
  match callee with
  | .object h =>
    match heap.get? h with
    | some (.boundMethod receiver method) =>
      setPeek argc receiver
      call method argc
    | some (.function _) => call h argc
    | some (.native name) => callNative name argc (argc + 1)
    | _ => fault .notCallable
  | _ => fault .notCallable

/-- Calls the value below the arguments. -/
def callValue (argc : Nat) : Exec Unit := do
  callCallee (← peek argc) argc

/-- Calls a value for the receiver below the arguments; a native gets the receiver too. -/
def callForObject (callable : Value) (argc : Nat) : Exec Unit := do
  let heap := (← environment).heap
  match callable with
  | .object h =>
    match heap.get? h with
    | some (.native name) => callNative name (argc + 1) (argc + 1)
    | _ => callCallee callable argc
  | _ => fault .notCallable

/-- Calls the member of a class for the receiver below the arguments. -/
def invokeFromClass (c : Handle) (hash : UInt32) (argc : Nat) : Exec Unit := do
  match ← onEnvironment (·.findMember c hash) with
  | some method => callForObject (method.delink (← cells)) argc
  | none => fault (.notInvocable ((← environment).variableName hash))

/-- Calls a member of the instance below the arguments: a field of its own, or a member of its
class. A super call starts at the parent of its class. -/
def invokeOnInstance (i : InstanceObject) (hash : UInt32) (argc : Nat) (isSuper : Bool) :
    Exec Unit := do
  if isSuper then
    match ← onEnvironment (·.resolveParent i.classHandle) with
    | some parent => invokeFromClass parent hash argc
    | none => fault .noParentMethod
  else
    match i.fields.get? hash with
    | some field => callCallee (field.delink (← cells)) argc
    | none => invokeFromClass i.classHandle hash argc

/-- Calls a member of the class below the arguments. -/
def invokeOnClass (c : Handle) (hash : UInt32) (argc : Nat) : Exec Unit := do
  match ← onEnvironment (·.findMember c hash) with
  | some method => callCallee (method.delink (← cells)) argc
  | none =>
    let env ← environment
    fault (.noEvent (env.variableName hash) (env.className c))

/-- Calls a member of the value below the arguments. -/
def invoke (hash : UInt32) (argc : Nat) (isSuper : Bool) : Exec Unit := do
  match ← peek argc with
  | .object h =>
    match (← environment).heap.get? h with
    | some (.inst i) => invokeOnInstance i hash argc isSuper
    | some (.scriptClass _) => invokeOnClass h hash argc
    | _ => fault .noMethods
  | _ => fault .noMethods

/-- The class that a value is. -/
def asClass? (heap : Heap) (v : Value) : Option Handle := v.object?.filter heap.isClass

/-- Puts a new instance in place of the class below the arguments and initializes it. -/
def instantiate (argc : Nat) : Exec Unit := do
  let callee ← peek argc
  let c ← ofOption .instantiateNonClass (asClass? (← environment).heap callee)
  let h ← alloc (.inst (.ofClass c))
  setPeek argc (.object h)
  match ((← environment).heap.class? c).bind (·.initializer) with
  | some init => callForObject init argc
  | none => if argc = 0 then pure () else fault (.initializerArguments argc)

end Exec
end ScriptVm
