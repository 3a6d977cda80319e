import ScriptVm.Debugger
import ScriptVm.Frame

/-!
# Threads

A thread of execution: its operand stack, its active calls, the register, and its debugging
state. `returnFrame` is the number of calls that were active when the current run began; the run
is over when no more than these are left.
-/

namespace ScriptVm

/-- What a thread is doing. -/
inductive ThreadState where
  | idle | running | returned | errored | suspended
deriving DecidableEq, Inhabited

/-- The name of a thread state. -/
def ThreadState.name : ThreadState → String
  | .idle => "Idle"
  | .running => "Running"
  | .returned => "Returned"
  | .errored => "Errored"
  | .suspended => "Suspended"

/-- A thread of execution. -/
structure Thread where
  id : Nat
  stack : Array Value
  frames : Array Frame
  returnFrame : Nat
  register : Value
  state : ThreadState
  debug : DebugState
deriving Inhabited

namespace Thread

/-- How many calls may be active. -/
def maxFrames : Nat := 64

/-- How many values may be on the operand stack. -/
def maxStack : Nat := 16384

/-- A thread that has not run. -/
def new (id : Nat) : Thread :=
  { id, stack := #[], frames := #[], returnFrame := 0, register := .null, state := .idle,
    debug := .off }

/-- Forgets all execution state and keeps the debugger and its breakpoints. -/
def reset (t : Thread) : Thread :=
  { t with
    stack := #[], frames := #[], returnFrame := 0, register := .null, state := .idle
    debug := { t.debug with stepping := false } }

/-- Whether calls of the current run are active. -/
def isActive (t : Thread) : Bool := decide (t.returnFrame < t.frames.size)

/-- The slots of the current call and what lies above them. -/
def locals (t : Thread) : List Value :=
  t.stack.toList.drop ((t.frames.back?.map (·.slots)).getD 0)

/-- The handles that a thread holds. -/
def roots (t : Thread) : List Handle :=
  Obj.handlesOf t.stack.toList ++ t.frames.toList.map (·.function) ++ Obj.handlesOf [t.register]

/-- The operand stack, the top first. -/
def stackText (t : Thread) (mem : Memory) : String :=
  "Stack:\n" ++ String.join (t.stack.toList.reverse.mapIdx fun i v =>
    Text.intColumn 4 (-(i : Int)) ++ " '" ++ mem.format v ++ "'\n")

/-- The form in debugging output. -/
def debugText (t : Thread) : String :=
  s!"VmThread \x7b id: {t.id}, stack: {t.stack.size}, frames: {t.frames.size}, " ++
    s!"return_frame: {t.returnFrame}, state: {t.state.name}, debug: {t.debug.debugText} \x7d"

end Thread
end ScriptVm
