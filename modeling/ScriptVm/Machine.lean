import ScriptVm.Environment.ClassLookup

/-!
# The machine

A machine is an environment and the thread that executes in it. Its actions change the machine
and may halt; a halted action keeps the machine as it was left.

* `Halt` says why: an error, no steps left, or an index or a size out of its range.
* `Exec` is an action that halts with a fault.
* `size`, `difference`, `offset` are arithmetic on sizes; `valueAt`, `setValueAt`, `valuesFrom`,
  `enter` are what may only be done in range. Out of range they halt with `overflow`.
* `push`, `pop`, `peek`, `setPeek` work on the operand stack and check its ends.
* `onEnvironment` and `onMemory` run a function of the environment or of the memory.
-/

namespace ScriptVm

/-- Why an action halts. -/
inductive Halt (ε : Type) where
  | error (e : ε)
  | outOfFuel
  | overflow

/-- The same halt with another error. -/
def Halt.map {ε δ : Type} (f : ε → δ) : Halt ε → Halt δ
  | .error e => .error (f e)
  | .outOfFuel => .outOfFuel
  | .overflow => .overflow

/-- An environment and the thread that executes in it. -/
structure Machine where
  env : Environment
  thread : Thread
deriving Inhabited

/-- An action on a machine. -/
abbrev Exec := EStateM (Halt Fault) Machine

namespace Machine

/-- Changes the thread. -/
@[inline] def mapThread (m : Machine) (f : Thread → Thread) : Machine :=
  { m with thread := f m.thread }

/-- Changes the stack. -/
@[inline] def mapStack (m : Machine) (f : Array Value → Array Value) : Machine :=
  { m with thread := { m.thread with stack := f m.thread.stack } }

/-- Changes the frames. -/
@[inline] def mapFrames (m : Machine) (f : Array Frame → Array Frame) : Machine :=
  { m with thread := { m.thread with frames := f m.thread.frames } }

/-- Changes the frame of the current call. -/
@[inline] def mapFrame (m : Machine) (f : Frame → Frame) : Machine :=
  m.mapFrames fun frames => frames.modify (frames.size - 1) f

end Machine

namespace Exec

variable {α : Type}

/-- Halts with a cause. -/
def fault (c : Cause) : Exec α := fun m => .error (.error (.ofCause c)) m

/-- Goes on with a value or halts with a cause. -/
def ofExcept (r : Except Cause α) : Exec α :=
  match r with
  | .ok a => pure a
  | .error c => fault c

/-- Goes on with a value or halts with a cause. -/
def ofOption (c : Cause) : Option α → Exec α
  | some a => pure a
  | none => fault c

/-- The environment. -/
def environment : Exec Environment := fun m => .ok m.env m

/-- The memory. -/
def memory : Exec Memory := fun m => .ok m.env.memory m

/-- The cells. -/
def cells : Exec Cells := fun m => .ok m.env.memory.cells m

/-- Runs a function of the environment. -/
@[inline] def onEnvironment (f : Environment → α × Environment) : Exec α := fun m =>
  let env := m.env
  let thread := m.thread
  let (a, env) := f env
  .ok a ⟨env, thread⟩

/-- Changes the environment. -/
@[inline] def mapEnvironment (f : Environment → Environment) : Exec Unit :=
  onEnvironment fun env => ((), f env)

/-- Changes the heap. -/
def mapHeap (f : Heap → Heap) : Exec Unit := mapEnvironment (·.mapHeap f)

/-- Changes the cells. -/
def mapCells (f : Cells → Cells) : Exec Unit :=
  mapEnvironment fun env => { env with memory := { env.memory with cells := f env.memory.cells } }

/-- Runs a function of the memory. -/
def onMemory (f : Memory → α × Memory) : Exec α :=
  onEnvironment fun env =>
    let memory := env.memory
    let env := { env with memory := default }
    let (a, memory) := f memory
    (a, { env with memory })

/-- Places an object. -/
def alloc (o : Obj) : Exec Handle := onMemory (·.alloc o)

/-- Adds a line to the log. -/
@[inline] def report (level : Level) (text : Unit → String) : Exec Unit :=
  mapEnvironment (·.report level text)

/-! ### Ranges -/

/-- Halts because an index or a size leaves its range. -/
def outOfRange : Exec α := fun m => .error .overflow m

/-- A number that must be a size. -/
def size (n : Nat) : Exec Nat := if n < Heap.sizeRange then pure n else outOfRange

/-- A difference that must not be negative. -/
def difference (n k : Nat) : Exec Nat := if k ≤ n then pure (n - k) else outOfRange

/-- A number that must be a signed size. -/
def offset (n : Int) : Exec Int :=
  if -9223372036854775808 ≤ n ∧ n ≤ 9223372036854775807 then pure n else outOfRange

/-- The value at an index that must be on the stack. -/
def valueAt (index : Nat) : Exec Value := fun m =>
  match m.thread.stack[index]? with
  | some v => .ok v m
  | none => .error .overflow m

/-- Replaces the value at an index that must be on the stack. -/
def setValueAt (index : Nat) (v : Value) : Exec Unit := fun m =>
  if index < m.thread.stack.size then .ok () (m.mapStack (·.setIfInBounds index v))
  else .error .overflow m

/-- The values from a height on, which must be at most that of the stack. -/
def valuesFrom (start : Nat) : Exec (Array Value) := fun m =>
  if start ≤ m.thread.stack.size then
    .ok (m.thread.stack.extract start m.thread.stack.size) m
  else .error .overflow m

/-- Adds a call, for which there must be room. -/
def enter (f : Frame) : Exec Unit := fun m =>
  if m.thread.frames.size < Thread.maxFrames then .ok () (m.mapFrames (·.push f))
  else .error .overflow m

/-! ### The operand stack -/

/-- Puts a value on the stack. -/
def push (v : Value) : Exec Unit := fun m =>
  if m.thread.stack.size < Thread.maxStack then .ok () (m.mapStack (·.push v))
  else .error (.error (.ofCause (.stackOverflow m.thread.stack.size))) m

/-- Puts several values on the stack. -/
def pushAll : List Value → Exec Unit
  | [] => pure ()
  | v :: rest => do
    push v
    pushAll rest

/-- Takes the value on top of the stack. -/
def pop : Exec Value := fun m =>
  match m.thread.stack.back? with
  | some v => .ok v (m.mapStack (·.pop))
  | none => .error (.error (.ofCause .stackUnderflow)) m

/-- Takes several values off the stack. -/
def popMany : Nat → Exec Unit
  | 0 => pure ()
  | n + 1 => do
    let _ ← pop
    popMany n

/-- The height that is left when `count` values are taken off. -/
def heightBelow (count : Nat) : Exec Nat := fun m =>
  if count ≤ m.thread.stack.size then .ok (m.thread.stack.size - count) m
  else .error (.error (.ofCause .stackUnderflow)) m

/-- The value `depth` places below the top. -/
def peek (depth : Nat) : Exec Value := do
  let count ← size (depth + 1)
  valueAt (← heightBelow count)

/-- Replaces the value `depth` places below the top. -/
def setPeek (depth : Nat) (v : Value) : Exec Unit := do
  let count ← size (depth + 1)
  setValueAt (← heightBelow count) v

/-- Cuts the stack to a height. -/
def truncate (height : Nat) : Exec Unit := fun m => .ok () (m.mapStack (·.shrink height))

/-! ### The current call -/

/-- The frame of the current call. -/
def frame : Exec Frame := fun m =>
  match m.thread.frames.back? with
  | some f => .ok f m
  | none => .error (.error (.ofCause .noFrame)) m

/-- Moves the current call to an offset. -/
def moveTo (target : Int) : Exec Unit := do
  let f ← frame
  let moved ← ofExcept (f.moveTo target)
  modify (·.mapFrame fun _ => moved)

/-- Moves the current call by a distance. -/
def jump (distance : Int) : Exec Unit := do
  let f ← frame
  moveTo (← offset (f.ip + distance))

end Exec
end ScriptVm
