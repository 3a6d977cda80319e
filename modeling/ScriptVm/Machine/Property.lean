import ScriptVm.Machine.Call

/-!
# Names, properties and elements

The instructions that read and write what scripts name.

* `defineGlobal` defines a global. A class under the name of a class adds its methods to that
  class; a constant cannot be defined again.
* `getProperty` and `setProperty` work on instances and classes, `getElement` and `setElement` on
  arrays and maps.
* `writeThrough` stores into the cell of a linked slot.
-/

namespace ScriptVm
namespace Exec

/-- Stores a value in the cell that a slot is linked to; says whether the slot is linked. -/
def writeThrough (slot value : Value) : Exec Bool := do
  let mem ← memory
  match slot with
  | .linkedInteger l =>
    let n ← ofOption (.wrongKind "Integer" (mem.typeName value)) (value.castInteger? mem.cells)
    mapCells (·.setInteger l n)
    return true
  | .linkedDecimal l =>
    let d ← ofOption (.wrongKind "Decimal" (mem.typeName value)) (value.castDecimal? mem.cells)
    mapCells (·.setDecimal l d)
    return true
  | _ => return false

/-! ### Globals -/

/-- Gives a hash a global. -/
def insertGlobal (hash : UInt32) (v : Value) : Exec Unit :=
  mapEnvironment fun env =>
    { env with globals := env.globals.insert hash (v.delink env.memory.cells) }

/-- The value of a global or constant. -/
def getGlobal (hash : UInt32) : Exec Value := do
  let env ← environment
  let found := match env.globals.get? hash with
    | some v => some v
    | none => env.constants.get? hash
  match found with
  | some v => return v.delink env.memory.cells
  | none => fault (.unknownVariable (env.variableName hash))

/-- Writes an existing global. -/
def setGlobal (hash : UInt32) (v : Value) : Exec Unit := do
  let env ← environment
  match env.globals.get? hash with
  | some slot => if ← writeThrough slot v then pure () else insertGlobal hash v
  | none =>
    if env.constants.contains hash then fault (.constantRedefined (env.variableName hash))
    else fault (.unknownGlobal (env.variableName hash))

/-- Defines a global. -/
def defineGlobal (hash : UInt32) (v : Value) : Exec Unit := do
  let env ← environment
  let incoming := asClass? env.heap v
  match env.globals.get? hash with
  | some existing =>
    match incoming, asClass? env.heap existing with
    | some extension, some target => mapEnvironment (·.extendClass extension target)
    | _, _ => insertGlobal hash v
  | none =>
    match env.constants.get? hash with
    | some existing =>
      match incoming, asClass? env.heap existing with
      | some extension, some target => mapEnvironment (·.extendClass extension target)
      | _, _ => fault (.constantRedefined (env.variableName hash))
    | none => insertGlobal hash v

/-- Defines a constant, also over another one. -/
def defineConstant (hash : UInt32) (v : Value) : Exec Unit :=
  mapEnvironment fun env =>
    { env with constants := env.constants.insert hash (v.delink env.memory.cells) }

/-! ### Properties -/

/-- A function found as the member of an instance becomes a bound method. -/
def bindMethod (receiver method : Value) : Exec Value := do
  let heap := (← environment).heap
  match method.object?.filter fun h => (heap.function? h).isSome with
  | some function => return .object (← alloc (.boundMethod receiver function))
  | none => return method.delink (← cells)

/-- A property of an instance or of a class. -/
def getProperty (object : Value) (hash : UInt32) : Exec Value := do
  let env ← environment
  match object.object?.bind env.heap.get? with
  | some (.inst i) =>
    match i.fields.get? hash with
    | some field => return field.delink env.memory.cells
    | none =>
      match ← onEnvironment (·.findMember i.classHandle hash) with
      | some method => bindMethod object method
      | none => fault (.notInInstance (env.variableName hash))
  | some (.scriptClass _) =>
    match ← onEnvironment (·.findMember (object.object?.getD default) hash) with
    | some v => return v.delink env.memory.cells
    | none => fault (.notInClass (env.variableName hash))
  | _ => fault .noProperties

/-- Whether an instance or a class has a property. -/
def hasProperty (object : Value) (hash : UInt32) : Exec Bool := do
  match object with
  | .object h =>
    match (← environment).heap.get? h with
    | some (.inst i) =>
      if i.fields.contains hash then return true
      else onEnvironment (·.hasMember i.classHandle hash)
    | some (.scriptClass _) => onEnvironment (·.hasMember h hash)
    | _ => return false
  | _ => return false

/-- The fields of an instance or of a class. -/
def fieldsOf? : Obj → Option (Table Value)
  | .inst i => some i.fields
  | .scriptClass c => some c.fields
  | _ => none

/-- Stores a field of an instance or of a class. -/
def insertField (hash : UInt32) (v : Value) : Obj → Obj
  | .inst i => .inst { i with fields := i.fields.insert hash v }
  | .scriptClass c => .scriptClass { c with fields := c.fields.insert hash v }
  | o => o

/-- Writes a property of an instance or of a class. -/
def setProperty (object : Value) (hash : UInt32) (v : Value) : Exec Unit := do
  match object with
  | .object h =>
    match ((← environment).heap.get? h).bind fieldsOf? with
    | none => fault .noProperties
    | some fields =>
      let linked ← match fields.get? hash with
        | some slot => writeThrough slot v
        | none => pure false
      if linked then pure ()
      else
        let plain := v.delink (← cells)
        mapHeap (·.modify h (insertField hash plain))
  | _ => fault .noProperties

/-! ### Elements -/

/-- The index of an array element. -/
def elementIndex (access : Access) (cells : Cells) (size : Nat) (position : Value) :
    Except Cause Nat :=
  match position.integer? cells with
  | none => .error (.arrayIndexKind access)
  | some n =>
    if 0 ≤ n.toInt ∧ n.toInt < size then .ok n.toInt.toNat
    else .error (.indexOutOfBounds n.toInt size)

/-- The key of a map entry. -/
def elementKey (access : Access) (heap : Heap) (position : Value) : Except Cause String :=
  match heap.text? position with
  | none => .error (.mapIndexKind access)
  | some key => if key.isEmpty then .error .emptyKey else .ok key

/-- An element of an array or of a map; a key that is not there gives null. -/
def getElement (object position : Value) : Exec Value := do
  let mem ← memory
  match object.object?.bind mem.heap.get? with
  | some (.array values) =>
    let index ← ofExcept (elementIndex .read mem.cells values.size position)
    return values[index]?.getD .null
  | some (.map m) =>
    let key ← ofExcept (elementKey .read mem.heap position)
    return (m.get? key).getD .null
  | some _ => fault (.notIndexable .read)
  | none => fault (.notContainer .read)

/-- Stores an element of an array. -/
def storeIndex (index : Nat) (v : Value) : Obj → Obj
  | .array values => .array (values.setIfInBounds index v)
  | o => o

/-- Stores an entry of a map. -/
def storeKey (key : String) (v : Value) : Obj → Obj
  | .map m => .map (m.put key v)
  | o => o

/-- How to store an element in an object. -/
def elementStore (mem : Memory) (object position v : Value) : Except Cause (Obj → Obj) :=
  match object.object?.bind mem.heap.get? with
  | some (.array values) =>
    (elementIndex .write mem.cells values.size position).map fun index => storeIndex index v
  | some (.map _) => (elementKey .write mem.heap position).map fun key => storeKey key v
  | some _ => .error (.notIndexable .write)
  | none => .error (.notContainer .write)

/-- Writes an element of an array or of a map. -/
def setElement (object position v : Value) : Exec Unit := do
  let store ← ofExcept (elementStore (← memory) object position v)
  match object with
  | .object h => mapHeap (·.modify h store)
  | _ => pure ()

end Exec
end ScriptVm
