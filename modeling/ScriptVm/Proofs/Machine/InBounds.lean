import ScriptVm.Native.Catalog
import ScriptVm.Proofs.Machine.Watching

/-!
# Execution stays in bounds

Whatever code is executed, no index and no size leaves its range.

* `Addressable` asks that code is not larger than any memory, of a heap and of what natives leave.
* `Entry` is what a host can have a thread do, `Reached` the machines that it comes to.
* `inBounds` bounds the stack, the number of calls and their positions.
* `entry_inBounds` is the result: to watch the bounds before every step makes no difference, and
  nothing overflows.
-/

namespace ScriptVm

/-- The code of all functions can be addressed. -/
def Heap.Addressable (heap : Heap) : Prop :=
  ∀ h f, heap.function? h = some f → f.code.size ≤ Code.maxSize

/-- The code of all functions can be addressed, and natives do not change that. -/
structure Environment.Addressable (env : Environment) : Prop where
  heap : env.heap.Addressable
  natives : ∀ name (mem : Memory) args, mem.heap.Addressable →
    (env.natives name mem args).2.heap.Addressable

namespace Machine

/-- The stack and the calls have their room, and every call is at an offset of its code. -/
def inBounds (m : Machine) : Bool :=
  decide (m.thread.stack.size ≤ Thread.maxStack) &&
    decide (m.thread.frames.size ≤ Thread.maxFrames) &&
      m.thread.frames.all fun f => decide (f.ip ≤ f.code.size)

/-- What a host can have a thread do. -/
inductive Entry where
  | push (v : Value)
  | pop
  | runValue (fuel : Nat) (callee : Value) (args : List Value)
  | invokeForObject (fuel : Nat) (callable receiver : Value) (args : List Value)
  | callInitializer (fuel : Nat) (h : Handle)

/-- An entry as an action, with the executor that carries calls out. -/
def Entry.run (executor : Nat → Exec Unit) : Entry → Exec Unit
  | .push v => Exec.push v
  | .pop => do let _ ← Exec.pop
  | .runValue fuel callee args => do let _ ← Exec.runValue (executor fuel) callee args
  | .invokeForObject fuel callable receiver args => do
    let _ ← Exec.invokeForObject (executor fuel) callable receiver args
  | .callInitializer fuel h => Exec.callInitializer (executor fuel) h

/-- The machine that is left. -/
def Entry.after (e : Entry) (m : Machine) : Machine := Exec.after (e.run Exec.execute) m

/-- The machines that a host comes to. Between its entries the thread may be reset, and the
environment, breakpoints and debuggers may change. -/
inductive Reached : Machine → Prop
  | new (env : Environment) (id : Nat) : env.Addressable → Reached ⟨env, .new id⟩
  | entry {m : Machine} (e : Entry) : Reached m → Reached (e.after m)
  | reset {m : Machine} : Reached m → Reached (m.mapThread Thread.reset)
  | environment {m : Machine} (env : Environment) :
    Reached m → env.Addressable → Reached { m with env }
  | debug {m : Machine} (debug : DebugState) :
    Reached m → Reached (m.mapThread fun t => { t with debug })

end Machine

namespace Contract

open Exec

/-- The contract about ranges. -/
def ranged : Contract := .unbounded False True

variable {heap : Heap} {env : Environment} {m : Machine}

theorem goodHeap_ranged : ranged.GoodHeap heap ↔ heap.Addressable := by
  constructor
  · exact fun hg h f hf => (hg.objects h _ (Heap.function?_eq_some.1 hf)).code trivial
  · refine fun ha => ⟨False.elim, fun h o ho => ⟨fun _ _ => False.elim, fun _ => ?_⟩⟩
    cases o with
    | function f => exact ha h f (Heap.function?_eq_some.2 ho)
    | _ => exact Nat.zero_le _

theorem goodEnvironment_ranged (ha : env.Addressable) : ranged.GoodEnvironment env := by
  refine goodEnvironment_of_not_live not_false (goodHeap_ranged.2 ha.heap) ?_
  intro name mem args hh _
  have hleft := ha.natives name mem args (goodHeap_ranged.1 hh)
  exact ⟨goodHeap_ranged.2 hleft, False.elim, fun _ _ _ _ => False.elim⟩

theorem inBounds_of_good {c : Contract} (hs : c.sized) (hm : c.GoodMachine m) :
    m.inBounds = true := by
  simp only [Machine.inBounds, Bool.and_eq_true, decide_eq_true_eq,
    Array.all_eq_true_iff_forall_mem]
  refine ⟨⟨hm.thread.stack_le hs, hm.thread.frames_le hs⟩, fun f hf => ?_⟩
  exact (hm.thread.frames f (Array.mem_toList_iff.2 hf)).ip_le hs

/-- Executing is safe for ranges, watched or not. -/
theorem safeExecutor_inBounds (fuel : Nat) :
    ranged.SafeExecutor (watch Machine.inBounds fuel) := by
  have hw : ranged.Expectation Machine.inBounds :=
    { room := fun _ _ _ _ => .inl rfl
      holds := fun _ n hn _ hm => inBounds_of_good (c := ranged.keeping n hn) trivial hm }
  exact safeExecutor_watch hw fuel

/-- Every entry is safe for ranges. -/
theorem safe_entry {executor : Nat → Exec Unit} (hm : ranged.GoodMachine m)
    (he : ∀ fuel, ranged.SafeExecutor (executor fuel)) (e : Machine.Entry) :
    ranged.Safe m (e.run executor) fun _ _ => True := by
  have hgood : ∀ (m' : Machine) (v : Value), ranged.Good m'.env.heap v :=
    fun _ _ _ _ => False.elim
  cases e with
  | push v => exact (safe_push hm hm.room_zero (hgood m v)).forget
  | pop =>
    exact (safe_pop (k := 0) hm (.inl rfl)).bind fun _ m₁ hm₁ _ _ => safe_pure hm₁ trivial
  | runValue fuel callee args =>
    exact (safe_runValue hm (he fuel) (hgood m callee) fun w _ => hgood m w).bind
      fun _ m₁ hm₁ _ _ => safe_pure hm₁ trivial
  | invokeForObject fuel callable receiver args =>
    exact (safe_invokeForObject hm (he fuel) (hgood m callable) (hgood m receiver)
      fun w _ => hgood m w).bind fun _ m₁ hm₁ _ _ => safe_pure hm₁ trivial
  | callInitializer fuel h => exact safe_callInitializer hm (he fuel) h

end Contract

namespace Machine

open Contract Exec

variable {m : Machine}

theorem Entry.refines (expected : Machine → Bool) (e : Entry) :
    Refines (e.run (watch expected)) (e.run execute) := by
  cases e with
  | push v => exact .refl _
  | pop => exact .refl _
  | runValue fuel callee args =>
    exact (refines_runValue (watch_refines expected fuel) callee args).bind fun _ => .refl _
  | invokeForObject fuel callable receiver args =>
    exact (refines_invokeForObject (watch_refines expected fuel) callable receiver args).bind
      fun _ => .refl _
  | callInitializer fuel h => exact refines_callInitializer (watch_refines expected fuel) h

/-- The bounds hold before every step, so that watching them makes no difference. -/
theorem Entry.run_watch (hm : ranged.GoodMachine m) (e : Entry) :
    e.run (watch inBounds) m = e.run execute m ∧
      ∀ m', e.run execute m ≠ .error .overflow m' := by
  have hsafe := safe_entry hm safeExecutor_inBounds e
  unfold Safe at hsafe
  -- a sized contract rules overflows out, also those that watching would add
  have hno : ∀ m', e.run (watch inBounds) m ≠ .error .overflow m' := by
    intro m' hrun
    rw [hrun] at hsafe
    exact hsafe.2.2 trivial rfl
  rcases e.refines inBounds m with heq | ⟨m', hover⟩
  · exact ⟨heq, heq ▸ hno⟩
  · exact absurd hover (hno m')

theorem Entry.good_after (hm : ranged.GoodMachine m) (e : Entry) :
    ranged.GoodMachine (e.after m) := by
  have hgood := (safe_entry hm safeExecutor_inBounds e).good_after
  unfold Exec.after at hgood
  rwa [(e.run_watch hm).1] at hgood

theorem Reached.good (hr : Reached m) : ranged.GoodMachine m := by
  induction hr with
  | new env id ha => exact ⟨goodEnvironment_ranged ha, goodThread_idle rfl rfl good_null⟩
  | entry e _ ih => exact e.good_after ih
  | reset _ ih => exact ⟨ih.env, goodThread_idle rfl rfl good_null⟩
  | environment env _ ha ih => exact ⟨goodEnvironment_ranged ha, ih.thread.mono False.elim⟩
  | debug debug _ ih => exact ⟨ih.env, { ih.thread with }⟩

/-- **Execution stays in bounds.** Before and after every step of a machine that a host comes to,
indices and sizes are in bounds, and none overflows. -/
theorem entry_inBounds (hr : Reached m) (e : Entry) :
    m.inBounds = true ∧ e.run (watch inBounds) m = e.run execute m ∧
      (e.after m).inBounds = true ∧ ∀ m', e.run execute m ≠ .error .overflow m' := by
  obtain ⟨hwatch, hover⟩ := e.run_watch hr.good
  exact ⟨inBounds_of_good trivial hr.good, hwatch,
    inBounds_of_good trivial (hr.entry e).good, hover⟩

/-- A machine whose heap holds one function, with natives that leave the memory alone. -/
def ofCode (code : Array UInt8) : Machine :=
  let heap := (Heap.empty.alloc (.function (.ofCode 0 1 code))).2
  ⟨.new heap (fun _ => Native.first) none default, .new 0⟩

theorem reached_ofCode {code : Array UInt8} (hc : code.size ≤ Code.maxSize) :
    (ofCode code).Reached := by
  refine .new _ 0 ⟨fun h f hf => ?_, fun _ _ _ ha => ha⟩
  rcases Heap.get?_alloc_cases (Heap.function?_eq_some.1 hf) with heq | hold
  · cases heq
    exact hc
  · simp [Heap.get?, Heap.empty, Heap.withThreshold] at hold

/-- A function that drops its own slot and then jumps out of its code. -/
theorem entry_inBounds_stray_code :
    let m := ofCode #[20, 17, 255, 127]
    let e := Entry.runValue 9 (.object ⟨0, 0⟩) []
    m.Reached ∧ m.inBounds = true ∧ e.run (watch inBounds) m = e.run execute m ∧
      (e.after m).inBounds = true ∧ ∀ m', e.run execute m ≠ .error .overflow m' := by
  intro m e
  have hr : m.Reached := reached_ofCode (by decide)
  exact ⟨hr, entry_inBounds hr e⟩

end Machine
end ScriptVm
