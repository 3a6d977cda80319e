import ScriptVm.Proofs.Machine.InBounds

/-!
# The stack of a caller

A call that is made in a run of its own works on the operand stack of its caller. When it ends, the
stack is cut to its old height, but nothing puts back what an instruction took from below that
height.

* `Call` is what is called, `Call.stackLeft` the stack before it is cut.
* `spares` says that the next instruction takes no value from below a height, `Call.Spares` that
  this is so all through a call.
* `stack_after_call` is the result: the caller has its stack back if and only if the call left it
  where it was, and so it is if the call spares it.
* `stack_after_pops` is a function that takes the value of its caller.
-/

namespace ScriptVm

namespace Machine

open Exec

/-- The next instruction takes no value from below a height. -/
def spares (height : Nat) (m : Machine) : Bool :=
  m.next?.all fun i => decide (height + i.takes ≤ m.thread.stack.size)

/-- What is called in a run of its own. -/
inductive Call where
  | value (callee : Value) (args : List Value)
  | forObject (callable receiver : Value) (args : List Value)

namespace Call

/-- The whole run. -/
def run (executor : Exec Unit) : Call → Exec Value
  | .value callee args => runValue executor callee args
  | .forObject callable receiver args => invokeForObject executor callable receiver args

/-- What is done inside the run. -/
def body (executor : Exec Unit) : Call → Exec Unit
  | .value callee args => do
    push callee
    pushAll args
    callValue args.length
    executor
  | .forObject callable receiver args => do
    push receiver
    pushAll args
    callForObject callable args.length
    executor

/-- The operand stack at the end of the run, before it is cut. -/
def stackLeft (call : Call) (fuel : Nat) (m : Machine) : Array Value :=
  (after (call.body (execute fuel) *> pop) m.beginRun).thread.stack

/-- No instruction of the run takes a value from below a height: watching for it changes nothing. -/
def Spares (call : Call) (fuel height : Nat) (m : Machine) : Prop :=
  call.run (watch (spares height) fuel) m = call.run (execute fuel) m

theorem run_eq_runProtected (call : Call) (executor : Exec Unit) :
    call.run executor = runProtected (call.body executor) := by
  cases call <;> rfl

end Call
end Machine

namespace Exec

/-- A run cuts the stack that its body leaves. -/
theorem stack_after_runProtected (body : Exec Unit) (m : Machine) :
    (after (runProtected body) m).thread.stack =
      (after (body *> pop) m.beginRun).thread.stack.shrink m.thread.stack.size := by
  have htrace : ∀ (m : Machine) f, (m.attachTrace f).2.thread = m.thread := by
    intro m f
    unfold Machine.attachTrace
    split <;> rfl
  unfold after runProtected
  cases (body *> pop) m.beginRun with
  | ok v m' => rfl
  | error e m' =>
    cases e with
    | error f =>
      dsimp only [Machine.endRun, Machine.mapThread]
      rw [htrace]
    | outOfFuel => rfl
    | overflow => rfl

end Exec

namespace Contract

open Exec Machine

variable {m : Machine} {height : Nat}

/-- The contract about the lower part of a stack: calls above those of `m` have slots above it. -/
def sheltering (m : Machine) (height : Nat) : Contract where
  live := False
  sized := False
  floor := height
  base := m.thread.frames.size
  calls := m.thread.frames.size
  base_le_calls := Nat.le_refl _

/-- Nothing but the height is asked. -/
theorem goodMachine_sheltering (hle : height ≤ m.thread.stack.size) :
    (sheltering m height).GoodMachine m := by
  have hheap : ∀ heap : Heap, (sheltering m height).GoodHeap heap := fun heap =>
    ⟨False.elim, fun _ _ _ => ⟨fun _ _ => False.elim, False.elim⟩⟩
  have hnatives : (sheltering m height).Respects m.env.natives := fun _ _ _ _ _ =>
    ⟨hheap _, False.elim, fun _ _ _ _ => False.elim⟩
  -- no call of `m` counts as above its own
  have habove : ∀ (i : Nat) (f : Frame), m.thread.frames.size ≤ i →
      m.thread.frames[i]? = some f → height ≤ f.slots := by
    intro i f hi hf
    have hlt := (Array.getElem?_eq_some_iff.1 hf).1
    omega
  exact ⟨goodEnvironment_of_not_live not_false (hheap _) hnatives,
    { stack := fun _ _ _ _ => False.elim
      stack_le := False.elim
      floor_le := hle
      frames := fun _ _ => ⟨False.elim, False.elim, False.elim, False.elim⟩
      frames_le := False.elim
      calls_le := Nat.le_refl _
      above := habove
      register := fun _ _ => False.elim }⟩

theorem expectation_spares : (sheltering m height).Expectation (spares height) := by
  refine ⟨fun m' hspares i hi => .inr ?_, False.elim⟩
  show height + i.takes ≤ m'.thread.stack.size
  simpa [spares, hi] using hspares

/-- A call that is watched leaves the lower part of the stack as it was. -/
theorem continues_watched (call : Call) (fuel : Nat) (hle : height ≤ m.thread.stack.size) :
    (sheltering m height).Continues m (after (call.run (watch (spares height) fuel)) m) := by
  have hm := goodMachine_sheltering hle
  have he : (sheltering m height).SafeExecutor (watch (spares height) fuel) :=
    safeExecutor_watch expectation_spares fuel
  have hgood : ∀ v : Value, (sheltering m height).Good m.env.heap v := fun _ _ _ => False.elim
  cases call with
  | value callee args =>
    exact (safe_runValue hm he (hgood callee) fun w _ => hgood w).continues_after
  | forObject callable receiver args =>
    exact (safe_invokeForObject hm he (hgood callable) (hgood receiver)
      fun w _ => hgood w).continues_after

end Contract

namespace Machine

open Exec Contract

theorem Call.refines (expected : Machine → Bool) (call : Call) (fuel : Nat) :
    Refines (call.run (watch expected fuel)) (call.run (execute fuel)) := by
  cases call with
  | value callee args => exact refines_runValue (watch_refines expected fuel) callee args
  | forObject callable receiver args =>
    exact refines_invokeForObject (watch_refines expected fuel) callable receiver args

theorem Call.stack_after_run (call : Call) (fuel : Nat) (m : Machine) :
    (after (call.run (execute fuel)) m).thread.stack =
      (call.stackLeft fuel m).shrink m.thread.stack.size := by
  rw [call.run_eq_runProtected]
  exact stack_after_runProtected _ m

/-- What lies below the height that a call spares is as it was. -/
theorem Call.Spares.below {call : Call} {fuel height : Nat} {m : Machine}
    (hs : call.Spares fuel height m) (hle : height ≤ m.thread.stack.size) {i : Nat}
    (hi : i < height) :
    (after (call.run (execute fuel)) m).thread.stack[i]? = m.thread.stack[i]? := by
  have hbelow := (continues_watched call fuel hle).below i hi
  unfold after at hbelow
  rwa [hs] at hbelow

/-- **The stack of a caller.** A call leaves what it has on the stack, cut to the height before;
only values that an instruction takes from below its own are lost. -/
theorem stack_after_call (call : Call) (fuel : Nat) (m : Machine) :
    (after (call.run (execute fuel)) m).thread.stack =
        (call.stackLeft fuel m).shrink m.thread.stack.size ∧
      ((after (call.run (execute fuel)) m).thread.stack = m.thread.stack ↔
        m.thread.stack.toList <+: (call.stackLeft fuel m).toList) ∧
      (∀ height ≤ m.thread.stack.size, call.Spares fuel height m → ∀ i < height,
        (after (call.run (execute fuel)) m).thread.stack[i]? = m.thread.stack[i]?) ∧
      (call.Spares fuel m.thread.stack.size m →
        (after (call.run (execute fuel)) m).thread.stack = m.thread.stack) := by
  have hcut := call.stack_after_run fuel m
  refine ⟨hcut, ?_, fun height hle hs i hi => hs.below hle hi, fun hs => ?_⟩
  · rw [hcut, ← Array.toList_inj, Array.toList_shrink, List.prefix_iff_eq_take, eq_comm,
      Array.length_toList]
  · have hsize : (after (call.run (execute fuel)) m).thread.stack.size ≤ m.thread.stack.size := by
      rw [hcut, Array.size_shrink]
      exact Nat.min_le_left _ _
    -- both stacks end at the old height, one for it was cut there
    refine Array.ext_getElem? fun i => ?_
    by_cases hi : i < m.thread.stack.size
    · exact hs.below (Nat.le_refl _) hi
    · rw [Array.getElem?_eq_none (by omega), Array.getElem?_eq_none (by omega)]

/-- A caller with the value 7 on its stack and a function with the given code. -/
def callerOf (code : Array UInt8) : Machine :=
  (ofCode code).mapThread fun t => { t with stack := #[.integer 7] }

/-- A function drops its own slot and a value more and returns; the caller has lost its value. -/
theorem stack_after_pops :
    let m := callerOf #[20, 20, 32, 11]
    let call := Call.value (.object ⟨0, 0⟩) []
    m.thread.stack = #[.integer 7] ∧
      (after (call.run (execute 9)) m).thread.stack = #[] := by
  decide +kernel

/-- A function that returns null spares its caller. -/
theorem stack_after_null :
    let m := callerOf #[32, 11]
    let call := Call.value (.object ⟨0, 0⟩) []
    call.Spares 9 m.thread.stack.size m ∧
      (after (call.run (execute 9)) m).thread.stack = #[.integer 7] := by
  intro m call
  have hok : (match call.run (watch (spares 1) 9) m with
      | .ok _ _ => true
      | .error _ _ => false) = true := by decide +kernel
  have hs : call.Spares 9 m.thread.stack.size m := by
    rcases call.refines (spares 1) 9 m with heq | ⟨m', hover⟩
    · exact heq
    · rw [hover] at hok
      cases hok
  exact ⟨hs, (stack_after_call call 9 m).2.2.2 hs⟩

end Machine
end ScriptVm
