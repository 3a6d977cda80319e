import ScriptVm.Machine.Execute
import ScriptVm.Proofs.Machine.Advance

/-!
# Safe execution

Executing the calls of a run step by step is safe, however many steps it takes.

* `watch` executes as `execute` does, but halts with an overflow before a step of a machine that is
  not as expected. What is expected is a parameter: it is how statements about all machines that an
  execution goes through are made.
* `safe_checkBreakpoint` is a break, whatever the debugger evaluates: a handle that finds nothing is
  refused before it does any harm, which is `runValue_of_lost`.
* `safeExecutor_watch` is the induction on the number of steps; one step is `safe_step`.
* `Refines` relates a watched run to the run itself, `watch_refines` says that watching changes
  nothing unless it halts.
-/

namespace ScriptVm

namespace Exec

variable {ε δ α β : Type}

/-- Halts with an overflow where the machine is not as expected. -/
def expect (expected : Machine → Bool) : Exec Unit := fun m =>
  if expected m then .ok () m else .error .overflow m

/-- Executes the calls of the current run and looks at the machine before every step. -/
def watch (expected : Machine → Bool) : Nat → Exec Unit
  | 0 => execute 0
  | fuel + 1 => do
    if (← get).thread.isActive then
      checkBreakpoint (watch expected fuel)
      expect expected
      step (watch expected fuel)
      watch expected fuel

/-- One round of execution. -/
theorem execute_succ (fuel : Nat) : execute (fuel + 1) = (do
    if (← get).thread.isActive then
      checkBreakpoint (execute fuel)
      step (execute fuel)
      execute fuel) := by
  funext m
  show _ = (if m.thread.isActive = true then _ else _ : Exec Unit) m
  rw [execute]
  split
  · show _ = EStateM.bind (checkBreakpoint (execute fuel)) _ m
    unfold EStateM.bind
    cases checkBreakpoint (execute fuel) m with
    | error e m₁ => rfl
    | ok _ m₁ =>
      dsimp only
      show _ = EStateM.bind (step (execute fuel)) _ m₁
      unfold EStateM.bind
      cases step (execute fuel) m₁ <;> rfl
  · rfl

/-- Expecting nothing is executing. -/
theorem watch_true (fuel : Nat) : watch (fun _ => true) fuel = execute fuel := by
  induction fuel with
  | zero => rfl
  | succ fuel ih =>
    rw [execute_succ, watch, ih]
    rfl

/-! ### Calls of what is gone -/

section Lost

variable {m : Machine}

/-- A run that fails when it has pushed some values leaves the thread as it was. -/
theorem runProtected_of_refused {body : Exec Unit} {cause : Cause} (pushed : Array Value)
    (hbody : body m.beginRun = fault cause (m.beginRun.mapStack (· ++ pushed))) :
    ∃ f text state, runProtected body m =
      .error (.error f) ⟨m.env.report .error text, { m.thread with state }⟩ := by
  have hrun : (body *> pop) m.beginRun = fault cause (m.beginRun.mapStack (· ++ pushed)) :=
    bind_of_error hbody
  have hstack : (m.thread.stack ++ pushed).shrink m.thread.stack.size = m.thread.stack := by
    rw [← Array.toList_inj, Array.toList_shrink, Array.toList_append, ← Array.length_toList,
      List.take_left]
  have hframes : m.thread.frames.shrink m.thread.frames.size = m.thread.frames := by
    rw [← Array.toList_inj, Array.toList_shrink, ← Array.length_toList, List.take_length]
  let inner := m.beginRun.mapStack (· ++ pushed)
  refine ⟨{ Fault.ofCause cause with stack := inner.callTrace },
    fun _ => inner.errorReport (Fault.ofCause cause).message,
    if 0 < m.thread.frames.size then .running else .errored, ?_⟩
  unfold runProtected
  rw [hrun]
  show EStateM.Result.error _ (Machine.mk _ { m.thread with
    stack := (m.thread.stack ++ pushed).shrink m.thread.stack.size
    frames := m.thread.frames.shrink m.thread.frames.size
    state := _ }) = _
  rw [hstack, hframes]
  rfl

/-- A call of a handle that finds nothing is reported, and leaves the thread as it was. -/
theorem runValue_of_lost (executor : Exec Unit) {target : Handle}
    (hlost : m.env.heap.get? target = none) :
    ∃ f text state, runValue executor (.object target) [] m =
      .error (.error f) ⟨m.env.report .error text, { m.thread with state }⟩ := by
  by_cases hroom : m.thread.stack.size < Thread.maxStack
  · let inner := m.beginRun.mapStack (·.push (.object target))
    have hpush : push (.object target) m.beginRun = .ok () inner := if_pos hroom
    have hpeek : peek 0 inner = .ok (.object target) inner := by
      have hsize : inner.thread.stack.size = m.thread.stack.size + 1 := Array.size_push _
      refine peek_of_getElem? (by decide) (by omega) ?_
      rw [hsize, Nat.add_sub_cancel]
      exact Array.getElem?_push_size
    have hcall : callCallee (.object target) 0 inner = fault .notCallable inner := by
      have hget : inner.env.heap.get? target = none := hlost
      have henv : environment inner = .ok inner.env inner := rfl
      unfold callCallee
      rw [bind_of_ok henv]
      simp only [hget]
    have hbody :
        (push (.object target) >>= fun _ => pushAll [] >>= fun _ => callValue 0 >>= fun _ =>
        executor) m.beginRun = fault .notCallable inner := by
      rw [bind_of_ok hpush]
      show (callValue 0 >>= fun _ => executor) inner = _
      exact bind_of_error ((bind_of_ok hpeek).trans hcall)
    exact runProtected_of_refused #[.object target] hbody
  · have hsame : m.beginRun.mapStack (· ++ #[]) = m.beginRun :=
      congrArg (fun stack => m.beginRun.mapStack fun _ => stack) Array.append_empty
    have hpush : push (.object target) m.beginRun =
        fault (.stackOverflow m.thread.stack.size) (m.beginRun.mapStack (· ++ #[])) := by
      rw [hsame]
      exact if_neg hroom
    exact runProtected_of_refused #[] (bind_of_error hpush)

end Lost

end Exec

namespace Contract

open Exec

variable {c : Contract} {m : Machine} {executor : Exec Unit} {expected : Machine → Bool}

/-! ### Breakpoints -/

/-- Debugging state may change as it likes. -/
theorem safe_mapDebug (hm : c.GoodMachine m) (g : DebugState → DebugState) :
    c.Safe m (mapDebug g) fun _ _ => True :=
  safe_modify ⟨hm.env, { hm.thread with }⟩ ⟨.refl c _, fun _ _ => rfl, rfl⟩ trivial

theorem safe_setState (hm : c.GoodMachine m) (state : ThreadState) :
    c.Safe m (modify (·.mapThread fun t => { t with state }) : Exec Unit) fun _ _ => True :=
  safe_modify ⟨hm.env, { hm.thread with }⟩ ⟨.refl c _, fun _ _ => rfl, rfl⟩ trivial

/-- A handle may be called whether or not it finds anything. -/
theorem safe_runTarget (hm : c.GoodMachine m) (he : c.SafeExecutor executor) (target : Handle) :
    c.Safe m (runValue executor (.object target) []) fun _ _ => True := by
  cases htarget : m.env.heap.get? target with
  | some o => exact (safe_runValue hm he (good_object.2 (finds_of_get? htarget)) (by simp)).forget
  | none =>
    obtain ⟨f, text, state, hrun⟩ := runValue_of_lost executor htarget
    have hleft := hm.report .error text
    exact safe_of_error hrun ⟨hleft.env, { hleft.thread with }⟩ ⟨.refl c _, fun _ _ => rfl, rfl⟩
      fun _ he => by cases he

theorem safe_evaluate (hm : c.GoodMachine m) (he : c.SafeExecutor executor) (target : Handle) :
    c.Safe m (evaluate executor target) fun _ _ => True := by
  have hrun := safe_runTarget hm he target
  unfold Safe at hrun ⊢
  unfold evaluate
  split at hrun
  · rename_i heq
    rw [heq]
    exact hrun
  · rename_i e m' heq
    rw [heq]
    cases e with
    | error f => exact ⟨hrun.1, hrun.2.1, trivial⟩
    | outOfFuel => exact hrun
    | overflow => exact hrun

theorem safe_observe (hm : c.GoodMachine m) (he : c.SafeExecutor executor)
    (command : BreakCommand) (function : Handle) (offset : Nat) :
    c.Safe m (observe executor command function offset) fun _ _ => True := by
  unfold observe
  rw [safe_get_bind]
  dsimp only
  split
  · rw [pure_bind, safe_environment_bind]
    exact safe_pure hm trivial
  · refine (Safe.map (R := fun _ _ => True) (safe_evaluate hm he _)).bind fun _ m₁ hm₁ _ _ => ?_
    rw [safe_environment_bind]
    exact safe_pure hm₁ trivial

theorem safe_breakAt (hm : c.GoodMachine m) (he : c.SafeExecutor executor) (d : Debugger)
    (function : Handle) (offset : Nat) :
    c.Safe m (breakAt executor d function offset) fun _ _ => True := by
  refine (safe_mapDebug hm _).bind fun _ m₁ hm₁ _ _ => ?_
  refine (safe_setState hm₁ .suspended).bind fun _ m₂ hm₂ _ _ => ?_
  rw [safe_get_bind, safe_environment_bind]
  refine (safe_report hm₂ _ _).bind fun _ m₃ hm₃ _ _ => ?_
  dsimp only
  refine (safe_observe hm₃ he _ _ _).bind fun record m₄ hm₄ _ _ => ?_
  refine (safe_mapDebug hm₄ _).bind fun _ m₅ hm₅ _ _ => ?_
  refine (safe_setState hm₅ .running).bind fun _ m₆ hm₆ _ _ => ?_
  split
  · exact safe_pure hm₆ trivial
  · exact safe_mapDebug hm₆ _
  · exact safe_fault hm₆ _

theorem safe_checkBreakpoint (hm : c.GoodMachine m) (he : c.SafeExecutor executor) :
    c.Safe m (checkBreakpoint executor) fun _ _ => True := by
  unfold checkBreakpoint
  rw [safe_get_bind]
  dsimp only
  split
  · split
    · exact safe_breakAt hm he _ _ _
    · exact safe_pure hm trivial
  · exact safe_pure hm trivial

/-! ### Execution -/

/-- What is expected of machines lets instructions take values above the floor only, and is so of
all good machines if an overflow is ruled out. -/
structure Expectation (c : Contract) (expected : Machine → Bool) : Prop where
  room : ∀ m, expected m = true → ∀ i, m.next? = some i → c.Room i.takes m.thread
  holds : c.sized → ∀ n (hn : c.base ≤ n) m, (c.keeping n hn).GoodMachine m → expected m = true

theorem safe_expect (hm : c.GoodMachine m) (hs : c.sized → expected m = true) :
    c.Safe m (expect expected) fun _ m' => expected m = true ∧ m = m' := by
  unfold Safe expect
  split
  · rename_i hexpected
    split at hexpected <;> cases hexpected
    rename_i htrue
    exact ⟨hm, .refl c m, htrue, rfl⟩
  · rename_i hexpected
    split at hexpected <;> cases hexpected
    rename_i hfalse
    exact ⟨hm, .refl c m, fun h => absurd (hs h) hfalse⟩

/-- A run that has no more calls of its own has its result. -/
theorem Answered.room {t : Thread} {n : Nat} {hn : c.base ≤ n}
    (ha : (c.keeping n hn).Answered t) (hreturn : t.returnFrame = n)
    (hactive : ¬ t.isActive = true) : c.Room 1 t := by
  rcases ha with hlt | hroom
  · refine absurd ?_ hactive
    simp only [Thread.isActive, decide_eq_true_eq]
    rw [hreturn]
    exact hlt
  · exact hroom

theorem safeExecutor_watch (hw : c.Expectation expected) (fuel : Nat) :
    c.SafeExecutor (watch expected fuel) := by
  -- runs that a step starts get the fuel that is left, so the hypothesis covers them too
  induction fuel with
  | zero =>
    intro n hn m hm hreturn ha
    unfold Safe watch execute
    by_cases hactive : m.thread.isActive = true
    · rw [if_pos hactive]
      exact ⟨hm, .refl _ m, fun _ he => by cases he⟩
    · rw [if_neg hactive]
      exact ⟨hm, .refl _ m, ha.room hreturn hactive⟩
  | succ fuel ih =>
    intro n hn m hm hreturn ha
    unfold watch
    rw [safe_get_bind]
    split
    · rename_i hactive
      have hlt : n < m.thread.frames.size := by
        simpa only [Thread.isActive, decide_eq_true_eq, hreturn] using hactive
      have hle := Nat.le_of_lt (Nat.lt_of_le_of_lt hn hlt)
      -- a breakpoint leaves all calls as they are
      have hbreak := safe_checkBreakpoint (hm.keep hle (Nat.le_refl _)) ih.keep.keep
      refine (hbreak.release (Nat.le_of_lt hlt)).bind fun _ m₁ hm₁ hc₁ hq => ?_
      refine (safe_expect hm₁ fun hs => hw.holds hs n hn m₁ hm₁).bind fun _ m₂ _ _ hq₂ => ?_
      obtain ⟨hexpected, rfl⟩ := hq₂
      have hlt₁ : (c.keeping n hn).calls < m₁.thread.frames.size := Nat.lt_of_lt_of_le hlt hq.1
      refine (safe_step hm₁ ih.keep hlt₁ (hw.room m₁ hexpected)).bind fun _ m₃ hm₃ hc₃ ha₃ => ?_
      exact ih n hn m₃ hm₃ ((hc₁.trans hc₃).returnFrame.trans hreturn) ha₃
    · rename_i hactive
      exact safe_pure hm (ha.room hreturn hactive)

end Contract
end ScriptVm
