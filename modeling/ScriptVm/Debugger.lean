import ScriptVm.Fault
import ScriptVm.Memory.Inspection

/-!
# Debuggers

A debugger answers each break with a command and keeps a record of what it saw. It is given as
the list of its answers; when they are used up it lets the script run on.

* `BreakCommand` is one answer, with what to look at.
* `BreakRecord` is what was seen at one break.
* `DebugState` is the debugging state of a thread: whether breaks are on, whether the next
  instruction breaks, the breakpoints, and the debugger if there is one.
-/

namespace ScriptVm

/-- How to go on after a break. -/
inductive DebugAction where
  | continue | step | abort
deriving DecidableEq, Inhabited

/-- The answer to one break: a function to evaluate first, if any, and whether to look at the
tables of names. -/
structure BreakCommand where
  action : DebugAction
  evaluate : Option Handle
  tables : Bool
deriving DecidableEq, Inhabited

/-- What the answer is when a debugger has no more of its own. -/
def BreakCommand.resume : BreakCommand := ⟨.continue, none, false⟩

/-- What was seen at a break. -/
structure BreakRecord where
  offset : Nat
  thread : Nat
  line : Option UInt32
  frames : List StackFrame
  functionName : String
  formatted : List String
  locals : List View
  globals : Option (List (String × View))
  constants : Option (List (String × View))
  evaluated : Option (Except Fault View)

/-- The answers still to give and the records so far. -/
structure Debugger where
  script : List BreakCommand
  records : Array BreakRecord

namespace Debugger

/-- A debugger that gives some answers. -/
def ofScript (script : List BreakCommand) : Debugger := ⟨script, #[]⟩

/-- The next answer. -/
def command (d : Debugger) : BreakCommand := d.script.head?.getD .resume

/-- Keeps a record and turns to the next answer. -/
def advance (d : Debugger) (r : BreakRecord) : Debugger := ⟨d.script.tail, d.records.push r⟩

end Debugger

/-- The debugging state of a thread. -/
structure DebugState where
  enabled : Bool
  stepping : Bool
  breakpoints : List (Handle × Nat)
  debugger : Option Debugger

namespace DebugState

/-- No debugging. -/
def off : DebugState := ⟨false, false, [], none⟩

instance : Inhabited DebugState := ⟨off⟩

/-- Whether to break before an instruction. -/
def shouldBreak (s : DebugState) (function : Handle) (offset : Nat) : Bool :=
  s.enabled && s.debugger.isSome && (s.stepping || s.breakpoints.contains (function, offset))

/-- Adds a breakpoint unless it is set. -/
def addBreakpoint (s : DebugState) (function : Handle) (offset : Nat) : DebugState :=
  if s.breakpoints.contains (function, offset) then s
  else { s with breakpoints := s.breakpoints ++ [(function, offset)] }

/-- Removes a breakpoint. -/
def removeBreakpoint (s : DebugState) (function : Handle) (offset : Nat) : DebugState :=
  { s with breakpoints := s.breakpoints.filter (· != (function, offset)) }

/-- The form in debugging output. -/
def debugText (s : DebugState) : String :=
  s!"DebugState \x7b enabled: {s.enabled}, stepping: {s.stepping}, " ++
    s!"breakpoints: {s.breakpoints.length}, debugger: {s.debugger.isSome} \x7d"

end DebugState
end ScriptVm
