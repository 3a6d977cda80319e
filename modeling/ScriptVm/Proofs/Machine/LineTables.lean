import ScriptVm.Proofs.Machine.BlindSteps
import ScriptVm.Vm

/-!
# Line tables do not influence execution

A script runs the same with its line tables, with others and with none. What they change is where a
trace or a report says that a fault happened.

* `ThreadCall` and `HostCall` are the calls that a host can make, `Vm.serve` makes them one
  after the other.
* `Vm.Twins.answer` is about one call, `Vm.Twins.serve` about any number.
* `calls_alike_with_other_lines` is the result. `Vm.Alike` lists what the machines have in
  common in the end.
* `Stumbling` has a function that fails. Its report begins with the line if there is one, and
  otherwise with the offset of the instruction, without the function and its file.
-/

namespace ScriptVm

/-- The container with other line tables, one or none for each of its functions. -/
def Container.withLines (c : Container) (debugInfo : Bool) (tables : Nat → Option (Array Int32)) :
    Container :=
  { c with
    debugInfo
    functions := c.functions.mapIdx fun i p =>
      { p with chunk := { p.chunk with lines := tables i } } }

theorem Container.stripped_withLines (c : Container) (debugInfo : Bool)
    (tables : Nat → Option (Array Int32)) :
    (c.withLines debugInfo tables).stripped = c.stripped := by
  have hfunctions : (c.withLines debugInfo tables).functions.map Prototype.stripped =
      c.functions.map Prototype.stripped := by
    refine List.ext_getElem? fun i => ?_
    rw [List.getElem?_map, List.getElem?_map, withLines, List.getElem?_mapIdx, Option.map_map]
    rfl
  exact congrArg (fun functions => { c with debugInfo := false, functions }) hfunctions

/-! ### Calls of a host -/

/-- What a thread can be asked to do. -/
inductive ThreadCall where
  | value (callee : Value) (args : List Value)
  | forObject (callable receiver : Value) (args : List Value)
  | initializer (h : Handle)
  | event (h : Handle) (hash : UInt32) (args : List Value)
  | eventOrNative (h : Handle) (hash : UInt32) (native : String) (args : List Value)
  | spawn (c : Handle) (e : EntityId)
  | clone (source : Handle) (e : EntityId)
  | runFile (bytes : List UInt8) (file : UInt32)
  | loadScript (file : UInt32)
  | loadClass (name : String)

/-- What a call comes to. -/
inductive Answer where
  | done
  | value (v : Value)
  | flag (b : Bool)
  | handle (h : Handle)
  | collected (r : Option CollectionReport)

/-- The action of a call on a thread. -/
def ThreadCall.action (executor : Exec Unit) : ThreadCall → Load Answer
  | .value callee args => Answer.value <$> Load.ofExec (Exec.runValue executor callee args)
  | .forObject callable receiver args =>
    Answer.value <$> Load.ofExec (Exec.invokeForObject executor callable receiver args)
  | .initializer h => (fun _ => Answer.done) <$> Load.ofExec (Exec.callInitializer executor h)
  | .event h hash args => Answer.flag <$> Load.ofExec (Exec.runEvent executor h hash args)
  | .eventOrNative h hash native args =>
    Answer.value <$> Load.ofExec (Exec.invokeWithDefault executor h hash native args)
  | .spawn c e => Answer.handle <$> Load.ofExec (Exec.spawn executor c e)
  | .clone source e => Answer.handle <$> Load.ofExec (Exec.cloneEntity source e)
  | .runFile bytes file => (fun _ => Answer.done) <$> Load.runFile executor bytes file
  | .loadScript file => Answer.flag <$> Load.loadScript executor file
  | .loadClass name => Answer.flag <$> Load.loadClass executor name

/-- What a host can ask of a virtual machine: a call on one of its threads, or a collection. -/
inductive HostCall where
  | thread (id fuel : Nat) (call : ThreadCall)
  | force
  | request

/-- A collection as a call; its only error is a size out of range. -/
def HostCall.collection (x : List Thread → Environment.Collect (Option CollectionReport)) :
    EStateM (Halt RegistryError) Vm Answer :=
  Answer.collected <$> EStateM.adaptExcept (fun _ => Halt.overflow) (Vm.collecting x)

/-- The action of a call. -/
def HostCall.action : HostCall → EStateM (Halt RegistryError) Vm Answer
  | .thread id fuel call => Vm.onThread id (call.action (Exec.execute fuel))
  | .force => collection Environment.force
  | .request => collection Environment.request

/-- The answer to an action and what it leaves. -/
def Vm.answer (x : EStateM (Halt RegistryError) Vm Answer) (vm : Vm) :
    Except (Halt RegistryError) Answer × Vm :=
  match x vm with
  | .ok a vm => (.ok a, vm)
  | .error e vm => (.error e, vm)

/-- The answers to calls made one after the other, and what they leave. -/
def Vm.serve : List HostCall → Vm → List (Except (Halt RegistryError) Answer) × Vm
  | [], vm => ([], vm)
  | call :: rest, vm =>
    let (answer, vm) := vm.answer call.action
    let (answers, vm) := Vm.serve rest vm
    (answer :: answers, vm)

/-! ### Virtual machines -/

/-- Two answers are the same but for lines of the source. -/
inductive Answer.Alike :
    Except (Halt RegistryError) Answer → Except (Halt RegistryError) Answer → Prop
  | ok (a : Answer) : Alike (.ok a) (.ok a)
  | error {e e' : Halt RegistryError} : e.Alike e' → Alike (.error e) (.error e')

namespace Vm

/-- Two virtual machines are the same but for line tables. They do not debug, and their natives do
not look at line tables. -/
structure Twins (vm vm' : Vm) : Prop where
  env : vm.env.Alike vm'.env
  threads : vm'.threads = vm.threads
  quiet : ∀ t ∈ vm.threads, t.debug.enabled = false
  blind : ∀ name, (vm.env.natives name).LineBlind

variable {vm vm' : Vm}

/-- A thread of both. -/
theorem Twins.machine (hvm : vm.Twins vm') (id : Nat) :
    (⟨vm.env, vm.threads[id]?.getD (.new id)⟩ : Machine).Twins
      ⟨vm'.env, vm'.threads[id]?.getD (.new id)⟩ := by
  refine ⟨hvm.env, by rw [hvm.threads], ?_, hvm.blind⟩
  show (vm.threads[id]?.getD (.new id)).debug.enabled = false
  cases ht : vm.threads[id]? with
  | none => rfl
  | some t => exact hvm.quiet t (Array.mem_of_getElem? ht)

theorem Twins.putBack (hvm : vm.Twins vm') (id : Nat) {m m' : Machine} (hm : m.Twins m') :
    (⟨m.env, vm.threads.setIfInBounds id m.thread⟩ : Vm).Twins
      ⟨m'.env, vm'.threads.setIfInBounds id m'.thread⟩ := by
  refine ⟨hm.env, by rw [hvm.threads, hm.thread], fun t ht => ?_, hm.blind⟩
  rcases Array.mem_or_eq_of_mem_setIfInBounds ht with ht | rfl
  · exact hvm.quiet t ht
  · exact hm.quiet

end Vm

theorem ThreadCall.blind_action {executor : Exec Unit} (hx : Exec.Blind executor)
    (call : ThreadCall) : Exec.Blind (call.action executor) := by
  cases call with
  | value callee args => exact (Exec.blind_ofExec (Exec.blind_runValue hx callee args)).map _
  | forObject callable receiver args =>
    exact (Exec.blind_ofExec (Exec.blind_invokeForObject hx callable receiver args)).map _
  | initializer h => exact (Exec.blind_ofExec (Exec.blind_callInitializer hx h)).map _
  | event h hash args => exact (Exec.blind_ofExec (Exec.blind_runEvent hx h hash args)).map _
  | eventOrNative h hash native args =>
    exact (Exec.blind_ofExec (Exec.blind_invokeWithDefault hx h hash native args)).map _
  | spawn c e => exact (Exec.blind_ofExec (Exec.blind_spawn hx c e)).map _
  | clone source e => exact (Exec.blind_ofExec (Exec.blind_cloneEntity source e)).map _
  | runFile bytes file => exact (Exec.blind_runFile hx bytes file).map _
  | loadScript file => exact (Exec.blind_loadScript hx file).map _
  | loadClass name => exact (Exec.blind_loadClass hx name).map _

namespace Vm.Twins

variable {vm vm' : Vm}

/-- A call on a thread. -/
theorem answer_onThread (hvm : vm.Twins vm') (id : Nat) {x : Load Answer} (hx : Exec.Blind x) :
    Answer.Alike (vm.answer (onThread id x)).1 (vm'.answer (onThread id x)).1 ∧
      (vm.answer (onThread id x)).2.Twins (vm'.answer (onThread id x)).2 := by
  have hout := hx _ _ (hvm.machine id)
  unfold answer onThread
  dsimp only
  generalize x ⟨vm.env, vm.threads[id]?.getD (.new id)⟩ = r,
    x ⟨vm'.env, vm'.threads[id]?.getD (.new id)⟩ = r' at hout
  cases hout with
  | ok a hm => exact ⟨.ok a, hvm.putBack id hm⟩
  | error he hm => exact ⟨.error he, hvm.putBack id hm⟩

/-- A collection with the threads at hand. -/
theorem answer_collection (hvm : vm.Twins vm')
    {x : List Thread → Environment.Collect (Option CollectionReport)}
    (hx : ∀ threads,
      Environment.Strips (Environment.outcome (x threads)) (Environment.outcome (x threads))) :
    Answer.Alike (vm.answer (HostCall.collection x)).1 (vm'.answer (HostCall.collection x)).1 ∧
      (vm.answer (HostCall.collection x)).2.Twins (vm'.answer (HostCall.collection x)).2 := by
  have hanswer : ∀ vm : Vm, vm.answer (HostCall.collection x) =
      match Environment.outcome (x vm.threads.toList) vm.env with
      | (.ok report, env) => (.ok (.collected report), ⟨env, vm.threads⟩)
      | (.error _, env) => (.error .overflow, ⟨env, vm.threads⟩) := by
    intro vm
    show vm.answer (EStateM.map _ (EStateM.adaptExcept _ (collecting x))) = _
    unfold answer Environment.outcome EStateM.map EStateM.adaptExcept collecting
    dsimp only
    cases x vm.threads.toList vm.env <;> rfl
  have hsame := hvm.env.apply (hx vm.threads.toList) (hx vm.threads.toList)
  have hnatives := (hx vm.threads.toList).natives vm.env
  rw [hanswer, hanswer, hvm.threads]
  generalize Environment.outcome (x vm.threads.toList) vm.env = r,
    Environment.outcome (x vm.threads.toList) vm'.env = r' at hsame hnatives
  obtain ⟨_ | report, env⟩ := r <;> obtain ⟨result', env'⟩ := r' <;> obtain ⟨rfl, henv⟩ := hsame
  · exact ⟨.error .overflow, henv, rfl, hvm.quiet, hnatives ▸ hvm.blind⟩
  · exact ⟨.ok _, henv, rfl, hvm.quiet, hnatives ▸ hvm.blind⟩

/-- **A call.** Machines that differ in line tables answer it alike and come out alike. -/
theorem answer (hvm : vm.Twins vm') (call : HostCall) :
    Answer.Alike (vm.answer call.action).1 (vm'.answer call.action).1 ∧
      (vm.answer call.action).2.Twins (vm'.answer call.action).2 := by
  cases call with
  | thread id fuel call =>
    exact hvm.answer_onThread id (call.blind_action (Exec.blind_execute fuel))
  | force => exact hvm.answer_collection Environment.strips_force
  | request => exact hvm.answer_collection Environment.strips_request

/-- **Any number of calls.** -/
theorem serve (hvm : vm.Twins vm') (calls : List HostCall) :
    List.Forall₂ Answer.Alike (Vm.serve calls vm).1 (Vm.serve calls vm').1 ∧
      (Vm.serve calls vm).2.Twins (Vm.serve calls vm').2 := by
  induction calls generalizing vm vm' with
  | nil => exact ⟨.nil, hvm⟩
  | cons call rest ih =>
    obtain ⟨hanswer, hleft⟩ := hvm.answer call
    obtain ⟨hanswers, hlast⟩ := ih hleft
    exact ⟨.cons hanswer hanswers, hlast⟩

end Vm.Twins

/-! ### The result -/

/-- Two virtual machines are the same but for line tables and lines of the source in their logs. -/
structure Vm.Alike (vm vm' : Vm) : Prop where
  threads : vm'.threads = vm.threads
  globals : vm'.env.globals = vm.env.globals
  constants : vm'.env.constants = vm.env.constants
  heap : vm'.env.heap.stripped = vm.env.heap.stripped
  cells : vm'.env.memory.cells = vm.env.memory.cells
  /-- All that an environment has, but for line tables and what was logged. -/
  core : vm'.env.core = vm.env.core
  log : List.Forall₂ LogEntry.Alike vm.env.log.entries.toList vm'.env.log.entries.toList

theorem Vm.Twins.alike {vm vm' : Vm} (hvm : vm.Twins vm') : vm.Alike vm' where
  threads := hvm.threads
  globals := hvm.env.reads (k := (·.globals)) fun _ _ => rfl
  constants := hvm.env.reads (k := (·.constants)) fun _ _ => rfl
  heap := congrArg (fun env : Environment => env.heap) hvm.env.core.symm
  cells := hvm.env.reads (k := (·.memory.cells)) fun _ _ => rfl
  core := hvm.env.core.symm
  log := hvm.env.log

/-- **Line tables do not influence execution.** With other line tables a container gives the same
functions, alike answers and alike machines. -/
theorem calls_alike_with_other_lines (c : Container) (file : UInt32) (debugInfo debugInfo' : Bool)
    (tables tables' : Nat → Option (Array Int32)) (env : Environment) (threads : Array Thread)
    (calls : List HostCall) (hquiet : ∀ t ∈ threads, t.debug.enabled = false)
    (hblind : ∀ name, (env.natives name).LineBlind) :
    let loaded := env.loadModule (c.withLines debugInfo tables) file
    let loaded' := env.loadModule (c.withLines debugInfo' tables') file
    let served := Vm.serve calls ⟨loaded.2, threads⟩
    let served' := Vm.serve calls ⟨loaded'.2, threads⟩
    loaded.1 = loaded'.1 ∧ List.Forall₂ Answer.Alike served.1 served'.1 ∧
    served.2.Alike served'.2 := by
  intro loaded loaded' served served'
  have hsame : (c.withLines debugInfo tables).stripped =
      (c.withLines debugInfo' tables').stripped := by
    rw [Container.stripped_withLines, Container.stripped_withLines]
  have hmachine : (⟨env, default⟩ : Machine).Twins ⟨env, default⟩ := ⟨.refl env, rfl, rfl, hblind⟩
  obtain ⟨hmodule, hloaded⟩ := Exec.outcome_loadModule hsame file hmachine
  have hvm : (⟨loaded.2, threads⟩ : Vm).Twins ⟨loaded'.2, threads⟩ :=
    ⟨hloaded.env, rfl, hquiet, hloaded.blind⟩
  obtain ⟨hanswers, hlast⟩ := hvm.serve calls
  exact ⟨hmodule, hanswers, hlast.alike⟩

/-! ### A report without a line -/

namespace Stumbling

/-- A function whose only instruction asks for the parent of the function itself. -/
def container : Container :=
  .ofFunctions [⟨0, 0, { Chunk.empty false with code := #[Opcode.getSuperclass.toByte] }⟩]

/-- Where the function is loaded. -/
def environment : Environment :=
  .new (Heap.withThreshold 1048576 1048576) Native.standard none (.upTo .error)

/-- Calls the function, which is placed after its source, its module and its name. -/
def call : HostCall := .thread 0 3 (.value (.object ⟨3, 0⟩) [])

/-- What the call comes to with a choice of line tables. -/
def served (debugInfo : Bool) (tables : Nat → Option (Array Int32)) :
    List (Except (Halt RegistryError) Answer) × Vm :=
  Vm.serve [call] ⟨(environment.loadModule (container.withLines debugInfo tables) 1).2, #[.new 0]⟩

/-- What is logged. -/
def reports (debugInfo : Bool) (tables : Nat → Option (Array Int32)) : Array String :=
  (served debugInfo tables).2.env.log.entries.map (·.text)

/-- The call fails, with a trace, and comes to the same with and without a line table. -/
theorem failing_call_alike :
    (∀ t ∈ #[Thread.new 0], t.debug.enabled = false) ∧
      (∀ name, (environment.natives name).LineBlind) ∧
      ((served true fun _ => some #[7]).1.map fun answer => match answer with
        | .error (.error (.vm f)) => (f.message, f.stack.length)
        | _ => ("", 0)) = [("Class does not have a parent.", 1)] ∧
      List.Forall₂ Answer.Alike (served false fun _ => none).1 (served true fun _ => some #[7]).1 ∧
      (served false fun _ => none).2.Alike (served true fun _ => some #[7]).2 := by
  have hquiet : ∀ t ∈ #[Thread.new 0], t.debug.enabled = false := by
    intro t ht
    rw [List.mem_toArray, List.mem_singleton] at ht
    rw [ht]
    rfl
  have hblind : ∀ name, (environment.natives name).LineBlind := Native.lineBlind_standard
  refine ⟨hquiet, hblind, by decide +kernel, ?_⟩
  exact (calls_alike_with_other_lines container 1 false true (fun _ => none) (fun _ => some #[7])
    environment #[.new 0] [call] hquiet hblind).2

/-- A text without the digits, in which the numbers are written. -/
def wording (s : String) : List Char := s.toList.filter fun ch => !ch.isDigit

/-- More than a line number depends on the table: without a line, a report begins with the offset in
place of the function and its file. -/
theorem heading_tells_offset_without_line :
    reports false (fun _ => none) = #["On offset 0:\n    Class does not have a parent.\n\n" ++
        "Call Trace (Thread 0):\n    called top-level function of 00000001\n"] ∧
      reports true (fun _ => some #[7]) = #["In top-level function of 00000001, line 7:\n\n" ++
        "    Class does not have a parent.\n\n" ++
        "Call Trace (Thread 0):\n    called top-level function of 00000001\n"] ∧
      (reports false fun _ => none).map wording ≠
        (reports true fun _ => some #[7]).map wording := by
  refine ⟨?_, ?_, ?_⟩
  · decide +kernel
  · decide +kernel
  · decide +kernel

end Stumbling
end ScriptVm
