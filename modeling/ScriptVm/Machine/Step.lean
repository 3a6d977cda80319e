import ScriptVm.Instruction
import ScriptVm.Machine.Load
import ScriptVm.Machine.Property

/-!
# Steps

One step of the machine: fetch the instruction of the current call, decode its operands, and
perform it.

* `perform` carries out a decoded instruction.
* `step` is a whole step. Importing a class runs its files, so both take the executor for that.
-/

namespace ScriptVm
namespace Exec

/-- A constant of the current function. -/
def constantAt (index : Nat) : Exec Value := do
  let f ← frame
  let function := (← environment).heap.function? f.function
  ofOption (.constantRange index) (function.bind (·.constants[index]?))

/-- The place of a slot of the current call on the stack. -/
def localIndex (slot : UInt8) : Exec Nat := do
  let f ← frame
  let index ← size (f.slots + slot.toNat)
  if index < (← get).thread.stack.size then return index
  else fault (.localRange slot.toNat)

/-- The module of the current call. -/
def currentModule : Exec (Handle × ModuleObject) := do
  let f ← frame
  let heap := (← environment).heap
  ofOption .noModule (f.module.bind fun h => (heap.module? h).map fun m => (h, m))

/-! ### Locals -/

/-- Pushes the value of a slot. -/
def getLocal (slot : UInt8) : Exec Unit := do
  let index ← localIndex slot
  push (← valueAt index)

/-- Writes the value on top into a slot. -/
def setLocal (slot : UInt8) : Exec Unit := do
  let index ← localIndex slot
  setValueAt index (← peek 0)

/-- Adds the value on top to the module. -/
def defineModuleLocal : Exec Unit := do
  let v ← pop
  let (h, _) ← currentModule
  let plain := v.delink (← cells)
  mapHeap (·.modifyModule h fun m => { m with locals := m.locals.push plain })

/-- Pushes a local of the module. -/
def getModuleLocal (slot : UInt16) : Exec Unit := do
  let (_, m) ← currentModule
  push (← ofOption (.moduleLocalRange slot.toNat) m.locals[slot.toNat]?)

/-- Writes the value on top into a local of the module. -/
def setModuleLocal (slot : UInt16) : Exec Unit := do
  let v ← peek 0
  let plain := v.delink (← cells)
  let (h, m) ← currentModule
  if slot.toNat < m.locals.size then
    mapHeap (·.modifyModule h fun m =>
      { m with locals := m.locals.setIfInBounds slot.toNat plain })
  else fault (.moduleLocalRange slot.toNat)

/-! ### Containers -/

/-- Makes an array of the topmost values. -/
def newArray (count : Nat) : Exec Unit := do
  let start ← heightBelow count
  let cells ← cells
  let values := (← valuesFrom start).map (·.delink cells)
  truncate start
  push (.object (← alloc (.array values)))

/-- Puts pairs of key and value into a map. -/
def fillMap (mem : Memory) : List Value → MapObject → Except Cause MapObject
  | key :: v :: rest, m =>
    match mem.heap.text? key with
    | some text => fillMap mem rest (m.put text (v.delink mem.cells))
    | none => .error (.mapKeyKind (mem.typeName key))
  | _, m => .ok m

/-- Makes a map of the topmost pairs of key and value. -/
def newMap (count : Nat) : Exec Unit := do
  let start ← heightBelow (← size (count * 2))
  let values ← valuesFrom start
  let map ← ofExcept (fillMap (← memory) values.toList .empty)
  truncate start
  push (.object (← alloc (.map map)))

/-- Pushes `left` times the value `depth` places below the top. -/
def copyValues (depth : Nat) : Nat → Exec Unit
  | 0 => pure ()
  | left + 1 => do
    push (← peek depth)
    copyValues depth left

/-- Copies the topmost values. -/
def copyTop (count : Nat) : Exec Unit :=
  if count = 0 then pure () else do copyValues (← difference count 1) count

/-! ### Arithmetic -/

/-- Adds two numbers, or joins two values if one is a string. -/
def add : Exec Unit := do
  let b ← peek 0
  let a ← peek 1
  let mem ← memory
  let v ←
    if mem.heap.kind? a = some .string ∨ mem.heap.kind? b = some .string then
      Value.object <$> onMemory (·.concatenate a b)
    else ofExcept (mem.applyBinary .add a b)
  let _ ← pop
  setPeek 0 v

/-- Applies an operation to the two values on top. -/
def binary (op : BinaryOp) : Exec Unit := do
  let b ← pop
  let a ← pop
  push (← ofExcept ((← memory).applyBinary op a b))

/-- Applies an operation to the value on top. -/
def unary (op : UnaryOp) : Exec Unit := do
  let a ← pop
  push (← ofExcept ((← memory).applyUnary op a))

/-- Compares the two values on top. -/
def compare (expected : Bool) : Exec Unit := do
  let b ← pop
  let a ← pop
  push (.ofBool ((← memory).looselyEqual a b == expected))

/-! ### Control -/

/-- Searches `left` entries of a switch table from an offset on, for the first whose constant
`matching` accepts. Entries with index 255 are defaults, of which the last counts. Gives the
chosen entry's distance, if any, and the offset after the entries read. -/
def searchTable (code : Array UInt8) (matching : Nat → Except Cause Bool) :
    Nat → Nat → Option Nat → Except Cause (Option Nat × Nat)
  | 0, offset, default => .ok (default, offset)
  | left + 1, offset, default =>
    match Code.byte? code offset, Code.half? code (offset + 1) with
    | some index, some distance =>
      if index = 0xFF then searchTable code matching left (offset + 3) (some distance.toNat)
      else
        match matching index.toNat with
        | .error c => .error c
        | .ok true => .ok (some distance.toNat, offset + 3)
        | .ok false => searchTable code matching left (offset + 3) default
    | _, _ => .error .endOfCode

/-- Jumps by the table that follows, on the value on top. -/
def switchTable (count : UInt16) : Exec Unit := do
  let v ← pop
  let f ← frame
  let mem ← memory
  let constants := ((mem.heap.function? f.function).map (·.constants)).getD #[]
  let matching (index : Nat) : Except Cause Bool :=
    match constants[index]? with
    | some k => .ok (mem.looselyEqual v k)
    | none => .error (.constantRange index)
  let stop ← size (f.ip + 3 * count.toNat + 3)
  let (chosen, after) ← ofExcept (searchTable f.code matching count.toNat f.ip none)
  moveTo after
  match chosen with
  | some distance =>
    let target ← size (stop + distance)
    jump (← offset (target - after))
  | none => pure ()

/-- Leaves the current call with the value on top. -/
def ret : Exec Unit := do
  let result ← pop
  let f ← frame
  modify (·.mapFrames (·.pop))
  truncate f.slots
  push result

/-! ### Classes -/

/-- Makes a class and pushes it. -/
def newClass (hash : UInt32) (kind : UInt8) : Exec Unit := do
  let name := ((← environment).token? hash).getD (Text.padLeft ' ' 8 (Text.hex hash.toNat))
  let text ← alloc (.string name)
  let c ← alloc (.scriptClass
    { ClassObject.ofHash hash with
      name := some text, kind := if kind = 1 then .extended else .normal })
  push (.object c)

/-- Names the parent of the class on top. -/
def inherit (hash : UInt32) : Exec Unit := do
  let v ← peek 0
  match asClass? (← environment).heap v with
  | some c => mapHeap (·.modifyClass c fun k => { k with parentHash := some hash, parent := none })
  | none => fault .inheritNonClass

/-- Gives the class on top a function of the module as a method. -/
def method (index : UInt8) (hash : UInt32) : Exec Unit := do
  let f ← frame
  let heap := (← environment).heap
  let function ← ofOption (.methodRange index.toNat)
    ((f.module.bind heap.module?).bind (·.functions[index.toNat]?))
  let v ← peek 0
  let c ← ofOption .methodOnNonClass (asClass? heap v)
  mapEnvironment (·.defineMethod c function hash)
  let _ ← pop

/-- Puts the parent of a class, or of an instance's class, in its place. -/
def getSuperclass : Exec Unit := do
  let v ← pop
  let parent ← match (← environment).classOf? v with
    | some c => onEnvironment (·.resolveParent c)
    | none => pure none
  match parent with
  | some p => push (.object p)
  | none => fault .noParent

/-- Loads the class that a constant names. -/
def importClass (executor : Exec Unit) (index : Nat) : Exec Unit := do
  let v ← constantAt index
  let mem ← memory
  match mem.heap.text? v with
  | none => fault (.importKind (mem.typeName v))
  | some name =>
    if ← (Load.loadClass executor name).toExec then pure ()
    else fault (.notImported name)

/-! ### Dispatch -/

/-- Carries out an instruction. -/
def perform (executor : Exec Unit) : Instruction → Exec Unit
  | .getGlobal hash => do push (← getGlobal hash)
  | .setGlobal hash => do setGlobal hash (← peek 0)
  | .defineGlobal hash => do
    defineGlobal hash (← peek 0)
    let _ ← pop
  | .defineConstant hash => do defineConstant hash (← pop)
  | .getLocal slot => getLocal slot
  | .setLocal slot => setLocal slot
  | .defineModuleLocal => defineModuleLocal
  | .getModuleLocal slot => getModuleLocal slot
  | .setModuleLocal slot => setModuleLocal slot
  | .getProperty hash => do
    let object ← peek 0
    setPeek 0 (← getProperty object hash)
  | .setProperty hash => do
    let v ← peek 0
    let object ← peek 1
    setProperty object hash v
    let _ ← pop
    setPeek 0 v
  | .hasProperty hash => do
    let object ← pop
    push (.ofBool (← hasProperty object hash))
  | .getElement => do
    let position ← pop
    let object ← pop
    push (← getElement object position)
  | .setElement => do
    let v ← peek 0
    let position ← peek 1
    let object ← peek 2
    setElement object position (v.delink (← cells))
    popMany 2
    setPeek 0 v
  | .newArray count => newArray count.toNat
  | .newMap count => newMap count.toNat
  | .push v => push v
  | .constant index => do push (← constantAt index.toNat)
  | .pop => popMany 1
  | .popN count => popMany count.toNat
  | .copy count => copyTop count.toNat
  | .saveValue => do
    let v ← pop
    modify (·.mapThread fun t => { t with register := v })
  | .loadValue => do push (← get).thread.register
  | .print => do
    let v ← peek 0
    let mem ← memory
    report .info fun _ => mem.format v
    popMany 1
  | .printStack => do
    let m ← get
    report .info fun _ => m.thread.stackText m.env.memory
  | .jump distance => jump distance
  | .jumpIfFalse distance => do
    if (← peek 0).isFalsey (← cells) then jump distance
  | .switchTable count => switchTable count
  | .failsafe offset => do
    let _ ← frame
    modify (·.mapFrame fun f => { f with failsafe := some offset.toNat })
  | .ret => ret
  | .add => add
  | .binary op => binary op
  | .unary op => unary op
  | .equal expected => compare expected
  | .typeOf => do
    let v ← pop
    push (.object (← alloc (.string ((← memory).typeOf v))))
  | .newClass hash kind => newClass hash kind
  | .inherit hash => inherit hash
  | .method index hash => method index hash
  | .getSuperclass => getSuperclass
  | .call argc => callValue argc.toNat
  | .invoke argc hash isSuper => invoke hash argc.toNat isSuper
  | .newInstance argc => instantiate argc.toNat
  | .importClass index => importClass executor index.toNat
  | .invalid op => fault (.invalidOpcode op.name)
  | .unsupported op => fault (.unsupportedOpcode op.name)

/-- Reads the opcode of the current call and notes where it is. -/
def fetchOpcode : Exec (Frame × Opcode) := do
  let f ← frame
  modify (·.mapFrame fun f => { f with ipLast := f.ip })
  let _ ← size (f.ip + 1)
  match Code.byte? f.code f.ip with
  | none => fault .endOfCode
  | some byte =>
    match Opcode.ofByte? byte with
    | none => fault (.unknownOpcode byte.toNat)
    | some op => return (f, op)

/-- One step: fetch, decode, move on, perform. -/
def step (executor : Exec Unit) : Exec Unit := do
  let (f, op) ← fetchOpcode
  let id := (← get).thread.id
  report .trace fun _ =>
    s!"[{id}] " ++ Text.padLeft '0' 4 (toString f.ip) ++ " " ++ op.name
  let _ ← size (f.ip + 1 + op.operandWidth?.getD 2)
  match Instruction.decode? f.code (f.ip + 1) op with
  | none => fault .endOfCode
  | some (instruction, next) =>
    modify (·.mapFrame fun f => { f with ip := next })
    perform executor instruction

end Exec
end ScriptVm
