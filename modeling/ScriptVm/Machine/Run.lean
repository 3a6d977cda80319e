import ScriptVm.Machine.Call

/-!
# Protected runs

A host calls a script in a run of its own. Whatever the script does, the calls and the state of
the thread are put back when the run ends, and its stack is cut to its old height. A fault gets
the trace of the calls that were active when it is first noticed, and is reported in the log.

* `callTrace` and `errorReport` describe the active calls.
* `runProtected` is a run; `runValue` calls a value, `invokeForObject` calls it for a receiver,
  `callInitializer` initializes an instance. All take the executor that carries the calls out.
-/

namespace ScriptVm
namespace Machine

/-- The source line of an offset of a function. -/
def lineOf? (env : Environment) (function : Handle) (offset : Nat) : Option UInt32 :=
  (env.heap.function? function).bind (·.line? offset)

/-- One line of a trace: the call `f`, made by `caller` if there is one. -/
def traceEntry (env : Environment) (caller : Option Frame) (f : Frame) : StackFrame :=
  { functionName := env.functionName f.function
    sourceFilename := env.sourceFilename f.function
    line := caller.bind fun c => lineOf? env c.function c.ipLast }

/-- The trace of calls, each after its caller. -/
def traceFrom (env : Environment) : Option Frame → List Frame → List StackFrame
  | _, [] => []
  | caller, f :: rest => traceEntry env caller f :: traceFrom env (some f) rest

/-- The active calls, the outermost first. -/
def callTrace (m : Machine) : List StackFrame := traceFrom m.env none m.thread.frames.toList

/-- The lines of a trace. -/
def traceLines : List StackFrame → List String
  | [] => []
  | [f] => ["    " ++ f.text ++ "\n"]
  | f :: rest => ("    " ++ f.text ++ ", then\n") :: traceLines rest

/-- Where the current call is. -/
def location (env : Environment) (f : Frame) (message : String) : String :=
  match lineOf? env f.function f.ipLast with
  | some line =>
    s!"In {env.functionName f.function} of {env.sourceFilename f.function}, " ++
      s!"line {line.toNat}:\n\n    {message}\n"
  | none => s!"On offset {f.ipLast}:\n    {message}\n"

/-- A message with the place and the trace of the current call. -/
def errorReport (m : Machine) (message : String) : String :=
  match m.thread.frames.back? with
  | none => message ++ "\n"
  | some f =>
    location m.env f message ++ s!"\nCall Trace (Thread {m.thread.id}):\n" ++
      String.join (traceLines m.callTrace)

/-- Gives a fault its trace and reports it, unless it has one. -/
def attachTrace (m : Machine) (f : Fault) : Fault × Machine :=
  if f.stack.isEmpty then
    ({ f with stack := m.callTrace },
      { m with env := m.env.report .error fun _ => m.errorReport f.message })
  else (f, m)

/-- Begins a run above the active calls. -/
def beginRun (m : Machine) : Machine :=
  m.mapThread fun t => { t with returnFrame := t.frames.size, state := .running }

/-- Ends a run that began with the given heights. -/
def endRun (height calls returnFrame : Nat) (outcome : ThreadState) (m : Machine) : Machine :=
  m.mapThread fun t =>
    { t with
      stack := t.stack.shrink height
      frames := t.frames.shrink calls
      returnFrame
      state := if 0 < calls then .running else outcome }

end Machine

namespace Exec

/-- Runs an action and takes its result off the stack; the thread is put back afterwards. -/
def runProtected (body : Exec Unit) : Exec Value := fun m =>
  let height := m.thread.stack.size
  let calls := m.thread.frames.size
  let returnFrame := m.thread.returnFrame
  match (body *> pop) m.beginRun with
  | .ok v m => .ok v (m.endRun height calls returnFrame .returned)
  | .error (.error f) m =>
    let (f, m) := m.attachTrace f
    .error (.error f) (m.endRun height calls returnFrame .errored)
  | .error other m => .error other (m.endRun height calls returnFrame .errored)

/-- Calls a value. -/
def runValue (executor : Exec Unit) (callee : Value) (args : List Value) : Exec Value :=
  runProtected do
    push callee
    pushAll args
    callValue args.length
    executor

/-- Calls a value for a receiver. -/
def invokeForObject (executor : Exec Unit) (callable receiver : Value) (args : List Value) :
    Exec Value :=
  runProtected do
    push receiver
    pushAll args
    callForObject callable args.length
    executor

/-- Calls the initializer of an instance's class, which must have no parameters. -/
def callInitializer (executor : Exec Unit) (h : Handle) : Exec Unit := do
  let heap := (← environment).heap
  let i ← ofOption .notAnInstance (heap.instance? h)
  match (heap.class? i.classHandle).bind (·.initializer) with
  | none => pure ()
  | some init =>
    match (init.object?.bind heap.function?).map (·.arity) with
    | some arity =>
      if arity = 0 then
        let _ ← invokeForObject executor init (.object h) []
      else fault .initializerParameters
    | none =>
      let _ ← invokeForObject executor init (.object h) []

end Exec
end ScriptVm
