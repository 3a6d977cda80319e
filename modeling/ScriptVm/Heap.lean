import ScriptVm.Object

/-!
# The heap

Objects live in slots that are used again after their object is gone. A handle carries the
generation of its slot, which changes when the slot is emptied, so a handle of a lost object
finds nothing.

* `alloc` places an object, in the slot emptied last if there is one.
* `free?` empties a slot; a handle that finds nothing is refused. `release` does the same account by
  account, and is also refused when one of them would go below zero.
* `get?` and its typed forms look through a handle, `modify` and its typed forms change in place.
-/

namespace ScriptVm

/-- A place for an object; the mark is set while a collection is under way. -/
structure Slot where
  generation : UInt32
  marked : Bool
  object : Option Obj
deriving Inhabited

/-- What collections did so far. -/
structure CollectionStats where
  collections : Nat
  lastFreed : Nat
  lastFreedBytes : Nat
  totalFreed : Nat
deriving DecidableEq, Inhabited

/-- The objects, the empty slots in the order in which they were emptied, and the accounts that
decide when to collect. -/
structure Heap where
  slots : Array Slot
  freeSlots : Array Nat
  live : Nat
  accounted : Nat
  threshold : Nat
  growth : Nat
  stats : CollectionStats
deriving Inhabited

namespace Heap

/-- The threshold before the first collection. -/
def defaultThreshold : Nat := 1048576

/-- How far the threshold lies above the accounted size after a collection. -/
def defaultGrowth : Nat := 1048576

/-- No objects. -/
def withThreshold (threshold growth : Nat) : Heap :=
  { slots := #[], freeSlots := #[], live := 0, accounted := 0, threshold, growth,
    stats := ⟨0, 0, 0, 0⟩ }

/-- No objects and the usual thresholds. -/
def empty : Heap := withThreshold defaultThreshold defaultGrowth

/-! ### Lookup -/

/-- The object that a handle finds. -/
def get? (heap : Heap) (h : Handle) : Option Obj :=
  match heap.slots[h.index]? with
  | some slot => if slot.generation = h.generation then slot.object else none
  | none => none

/-- Whether a handle finds an object. -/
def contains (heap : Heap) (h : Handle) : Bool := (heap.get? h).isSome

/-- The text of a string. -/
def string? (heap : Heap) (h : Handle) : Option String :=
  match heap.get? h with
  | some (.string s) => some s
  | _ => none

/-- A function. -/
def function? (heap : Heap) (h : Handle) : Option FunctionObject :=
  match heap.get? h with
  | some (.function f) => some f
  | _ => none

/-- A class. -/
def class? (heap : Heap) (h : Handle) : Option ClassObject :=
  match heap.get? h with
  | some (.scriptClass c) => some c
  | _ => none

/-- An instance. -/
def instance? (heap : Heap) (h : Handle) : Option InstanceObject :=
  match heap.get? h with
  | some (.inst i) => some i
  | _ => none

/-- A module. -/
def module? (heap : Heap) (h : Handle) : Option ModuleObject :=
  match heap.get? h with
  | some (.module m) => some m
  | _ => none

/-- The name of a native. -/
def native? (heap : Heap) (h : Handle) : Option String :=
  match heap.get? h with
  | some (.native name) => some name
  | _ => none

/-- Whether a handle finds a class. -/
def isClass (heap : Heap) (h : Handle) : Bool := (heap.class? h).isSome

/-- The kind of the object that a value is. -/
def kind? (heap : Heap) (v : Value) : Option Kind :=
  (v.object?.bind heap.get?).map Obj.kind

/-- The text of a value that is a string. -/
def text? (heap : Heap) (v : Value) : Option String := v.object?.bind heap.string?

/-- The objects with their handles, by slot. -/
def objects (heap : Heap) : List (Handle × Obj) :=
  (heap.slots.toList.mapIdx fun i slot =>
    slot.object.map fun o => (Handle.mk i slot.generation, o)).filterMap id

/-! ### Change -/

/-- Places an object, in the slot emptied last or else in a new one. -/
def alloc (heap : Heap) (o : Obj) : Handle × Heap :=
  let size := o.size
  match heap.freeSlots.back? with
  | some index =>
    let generation := (heap.slots[index]?.map (·.generation)).getD 0
    (⟨index, generation⟩,
      { heap with
        slots := heap.slots.setIfInBounds index ⟨generation, false, some o⟩
        freeSlots := heap.freeSlots.pop
        live := heap.live + 1
        accounted := heap.accounted + size })
  | none =>
    (⟨heap.slots.size, 0⟩,
      { heap with
        slots := heap.slots.push ⟨0, false, some o⟩
        live := heap.live + 1
        accounted := heap.accounted + size })

/-- Empties the slot of a handle and gives the object; `none` if the handle finds nothing. -/
def free? (heap : Heap) (h : Handle) : Option (Obj × Heap) :=
  (heap.get? h).map fun o =>
    (o, { heap with
      slots := heap.slots.setIfInBounds h.index ⟨h.generation + 1, false, none⟩
      freeSlots := heap.freeSlots.push h.index
      live := heap.live - 1
      accounted := heap.accounted - o.size })

/-- Why an object is not removed: the handle finds nothing, or an account would go below zero. -/
inductive Refusal where
  | stale
  | countUnderflow
  | sizeUnderflow
deriving DecidableEq

/-- Removes the object of a handle and looks at the accounts on the way: its slot is emptied and
listed as free, then it is taken off the count and off the accounted size. What was done before a
refusal stays done. -/
def release (heap : Heap) (h : Handle) : Except Refusal Obj × Heap :=
  match heap.get? h with
  | none => (.error .stale, heap)
  | some o =>
    let heap :=
      { heap with
        slots := heap.slots.setIfInBounds h.index ⟨h.generation + 1, false, none⟩
        freeSlots := heap.freeSlots.push h.index }
    if heap.live = 0 then (.error .countUnderflow, heap)
    else
      let heap := { heap with live := heap.live - 1 }
      if heap.accounted < o.size then (.error .sizeUnderflow, heap)
      else (.ok o, { heap with accounted := heap.accounted - o.size })

/-- Changes the object that a handle finds. -/
def modify (heap : Heap) (h : Handle) (f : Obj → Obj) : Heap :=
  { heap with
    slots := heap.slots.modify h.index fun slot =>
      if slot.generation = h.generation then { slot with object := slot.object.map f } else slot }

/-- Changes a class. -/
def modifyClass (heap : Heap) (h : Handle) (f : ClassObject → ClassObject) : Heap :=
  heap.modify h fun
    | .scriptClass c => .scriptClass (f c)
    | o => o

/-- Changes an instance. -/
def modifyInstance (heap : Heap) (h : Handle) (f : InstanceObject → InstanceObject) : Heap :=
  heap.modify h fun
    | .inst i => .inst (f i)
    | o => o

/-- Changes a module. -/
def modifyModule (heap : Heap) (h : Handle) (f : ModuleObject → ModuleObject) : Heap :=
  heap.modify h fun
    | .module m => .module (f m)
    | o => o

/-- Changes a function. -/
def modifyFunction (heap : Heap) (h : Handle) (f : FunctionObject → FunctionObject) : Heap :=
  heap.modify h fun
    | .function g => .function (f g)
    | o => o

/-- Places a string. -/
def newString (heap : Heap) (s : String) : Handle × Heap := heap.alloc (.string s)

/-- Whether the accounted size is above the threshold. -/
def shouldCollect (heap : Heap) : Bool := decide (heap.threshold < heap.accounted)

end Heap
end ScriptVm
