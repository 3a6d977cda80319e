import ScriptVm.Machine.Step

/-!
# Execution

The active calls of a run are executed step by step until they have returned. Fuel bounds the
number of steps.

* `checkBreakpoint` suspends the thread before an instruction that has a breakpoint, or after a
  step was asked for, and lets the debugger look around.
* `execute` is the executor.
-/

namespace ScriptVm
namespace Exec

/-- Calls a function in a run of its own and keeps a fault as its result. -/
def evaluate (executor : Exec Unit) (target : Handle) : Exec (Except Fault View) := fun m =>
  match runValue executor (.object target) [] m with
  | .ok v m => .ok (.ok (m.env.memory.view v)) m
  | .error (.error f) m => .ok (.error f) m
  | .error other m => .error other m

/-- What the debugger sees. Locals are printed, and the tables and the trace are taken, before it
evaluates what it wants to; the values of the locals and the name of the function are those
after that. -/
def observe (executor : Exec Unit) (command : BreakCommand) (function : Handle) (offset : Nat) :
    Exec BreakRecord := do
  let m ← get
  let locals := m.thread.locals
  let formatted := locals.map m.env.memory.format
  let globals := if command.tables then some (m.env.named m.env.globals) else none
  let constants := if command.tables then some (m.env.named m.env.constants) else none
  let evaluated ← match command.evaluate with
    | none => pure none
    | some target => some <$> evaluate executor target
  let env ← environment
  return {
    offset, thread := m.thread.id, line := Machine.lineOf? m.env function offset
    frames := m.callTrace, functionName := env.functionName function
    formatted, locals := locals.map env.memory.view, globals, constants, evaluated }

/-- Changes the debugging state. -/
def mapDebug (f : DebugState → DebugState) : Exec Unit :=
  modify (·.mapThread fun t => { t with debug := f t.debug })

/-- Lets a debugger answer before the instruction at an offset of a function. -/
def breakAt (executor : Exec Unit) (d : Debugger) (function : Handle) (offset : Nat) :
    Exec Unit := do
  mapDebug fun s => { s with debugger := none, stepping := false }
  modify (·.mapThread fun t => { t with state := .suspended })
  let id := (← get).thread.id
  let name := (← environment).functionName function
  report .debug fun _ => s!"Thread {id} suspended in {name} at offset {offset}"
  let command := d.command
  let record ← observe executor command function offset
  mapDebug fun s => { s with debugger := some (d.advance record) }
  modify (·.mapThread fun t => { t with state := .running })
  match command.action with
  | .continue => pure ()
  | .step => mapDebug fun s => { s with stepping := true }
  | .abort => fault .aborted

/-- Breaks before the next instruction if it has a breakpoint. -/
def checkBreakpoint (executor : Exec Unit) : Exec Unit := do
  let t := (← get).thread
  match t.frames.back?, t.debug.debugger with
  | some f, some d =>
    if t.debug.shouldBreak f.function f.ip then breakAt executor d f.function f.ip
  | _, _ => pure ()

/-- Executes the calls of the current run, at most `fuel` steps deep and far. -/
def execute : Nat → Exec Unit
  | 0, m => if m.thread.isActive then .error .outOfFuel m else .ok () m
  | fuel + 1, m =>
    if m.thread.isActive then
      match checkBreakpoint (execute fuel) m with
      | .error e m => .error e m
      | .ok _ m =>
        match step (execute fuel) m with
        | .error e m => .error e m
        | .ok _ m => execute fuel m
    else .ok () m

end Exec
end ScriptVm
