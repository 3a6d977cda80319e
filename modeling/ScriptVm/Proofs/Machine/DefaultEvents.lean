import ScriptVm.Proofs.Machine.ClassFiles
import ScriptVm.Proofs.Machine.MethodValues
import ScriptVm.Proofs.Machine.Ordinary

/-!
# Events with a native to fall back on

A host calls what an event of an instance calls, or a native of its own if there is nothing else.
When the event comes to that native anyway, it is run at once, and the thread takes no part in it.

* `SameToHost` is when two outcomes are the same to the host: the thread of a run is noticed to have
  run, and an error of it has a trace and is reported.
* `sameToHost_invokeForObject` runs the native on the thread: the receiver and the arguments are put
  on the stack and taken off again, with any calls below them.
* `event_with_default` is the result.
-/

namespace ScriptVm

/-- Two machines that are the same but for the lines logged and for what the thread is doing. -/
structure Machine.SameToHost (m m' : Machine) : Prop where
  env : m'.env.unlogged = m.env.unlogged
  thread : m'.thread = { m.thread with state := m'.thread.state }

/-- Outcomes that are the same to a host. An error has the same cause, and with it the same kind
and wording. -/
inductive Exec.SameToHost : (r r' : EStateM.Result (Halt Fault) Machine Value) → Prop
  | ok (v : Value) {m m' : Machine} (henv : m'.env = m.env) (h : m.SameToHost m') :
      SameToHost (.ok v m) (.ok v m')
  | error {f f' : Fault} {m m' : Machine} (hcause : f'.cause = f.cause) (h : m.SameToHost m') :
    SameToHost (.error (.error f) m) (.error (.error f') m')

namespace Machine

open Exec

variable {m : Machine} {g : Handle} {name : String} {receiver : Value} {args : List Value}

/-- A native is run on the memory. The thread is nothing to it. -/
theorem runNative_eq (name : String) (args : Array Value) (env : Environment) (t : Thread) :
    runNative name args ⟨env, t⟩ =
      match env.natives name env.memory args with
      | (.ok v, memory) => .ok v ⟨{ env with memory }, t⟩
      | (.error c, memory) => .error (.error (.ofCause c)) ⟨{ env with memory }, t⟩ := by
  show ofExcept (env.natives name env.memory args).1
    ⟨{ env with memory := (env.natives name env.memory args).2 }, t⟩ = _
  rcases env.natives name env.memory args with ⟨_ | _, memory⟩ <;> rfl

/-- What is called for a receiver is called with the receiver and the arguments on the stack. -/
theorem callForObject_of_native (hg : m.env.heap.native? g = some name)
    (hroom : m.thread.stack.size + (args.length + 1) ≤ Thread.maxStack) :
    (do
      push receiver
      pushAll args
      callForObject (.object g) args.length : Exec Unit) m =
      (Delivery.native name (receiver :: args)).carryOut args.length
        (m.mapStack (· ++ (receiver :: args).toArray)) := by
  have hpush : pushAll (receiver :: args) m = _ := pushAll_of_room hroom
  have hoffers : (m.mapStack (· ++ (receiver :: args).toArray)).Offers (receiver :: args) := by
    have hstack : m.thread.stack ++ (receiver :: args).toArray =
        (m.thread.stack.toList ++ receiver :: args).toArray := by simp
    exact offers_of_stack hstack
  have hget : m.env.heap.get? g = some (.native name) := by
    unfold Heap.native? at hg
    split at hg
    · cases hg
      assumption
    · cases hg
  have hcall : (do
      push receiver
      pushAll args
      callForObject (.object g) args.length : Exec Unit) =
        pushAll (receiver :: args) >>= fun _ => callForObject (.object g) args.length := by
    simp only [pushAll, bind_assoc]
  rw [hcall, bind_of_ok hpush]
  unfold callForObject
  refine (bind_of_ok rfl).trans ?_
  dsimp only [mapStack]
  rw [hget]
  exact callNative_offers hoffers hoffers name

section Native

variable {env : Environment} {t : Thread} {memory : Memory}

/-- The result of a native takes the place of the receiver and the arguments. -/
theorem carryOut_native_of_ok {v : Value}
    (hresult : env.natives name env.memory (receiver :: args).toArray = (.ok v, memory))
    (hroom : t.stack.size + (args.length + 1) ≤ Thread.maxStack) :
    (Delivery.native name (receiver :: args)).carryOut args.length
      ⟨env, { t with stack := t.stack ++ (receiver :: args).toArray }⟩ =
      .ok () ⟨{ env with memory }, { t with stack := t.stack.push v }⟩ := by
  have hnative := runNative_eq name (receiver :: args).toArray env
    { t with stack := t.stack ++ (receiver :: args).toArray }
  rw [hresult] at hnative
  have hheight : (t.stack ++ (receiver :: args).toArray).size - (args.length + 1) =
    t.stack.size := by simp
  unfold Delivery.carryOut
  refine (bind_of_ok rfl).trans ((bind_of_ok hnative).trans ?_)
  dsimp only
  rw [hheight]
  show push v ⟨{ env with memory }, { t with stack := (t.stack ++ _).shrink t.stack.size }⟩ = _
  rw [shrink_append]
  exact if_pos (show t.stack.size < Thread.maxStack by omega)

/-- If a native fails, the receiver and the arguments are left to the run to take off. -/
theorem carryOut_native_of_error {c : Cause}
    (hresult : env.natives name env.memory (receiver :: args).toArray = (.error c, memory)) :
    (Delivery.native name (receiver :: args)).carryOut args.length
      ⟨env, { t with stack := t.stack ++ (receiver :: args).toArray }⟩ =
      .error (.error (.ofCause c))
        ⟨{ env with memory }, { t with stack := t.stack ++ (receiver :: args).toArray }⟩ := by
  have hnative := runNative_eq name (receiver :: args).toArray env
    { t with stack := t.stack ++ (receiver :: args).toArray }
  rw [hresult] at hnative
  unfold Delivery.carryOut
  exact (bind_of_ok rfl).trans (bind_of_error hnative)

end Native

/-- **A native on the thread.** A run that calls a native for a receiver comes to what the native
comes to by itself. -/
theorem sameToHost_invokeForObject (hg : m.env.heap.native? g = some name)
    (hroom : m.thread.stack.size + (args.length + 1) ≤ Thread.maxStack) (fuel : Nat) :
    Exec.SameToHost (runNative name (receiver :: args).toArray m)
      (invokeForObject (execute fuel) (.object g) receiver args m) := by
  obtain ⟨env, t⟩ := m
  let started : Thread := { t with returnFrame := t.frames.size, state := .running }
  have hcall : (do
      push receiver
      pushAll args
      callForObject (.object g) args.length : Exec Unit) (beginRun ⟨env, t⟩) = _ :=
    callForObject_of_native hg hroom
  have hbody : (do
      push receiver
      pushAll args
      callForObject (.object g) args.length
      execute fuel : Exec Unit) (beginRun ⟨env, t⟩) = (do
        (Delivery.native name (receiver :: args)).carryOut args.length
        execute fuel : Exec Unit)
          ⟨env, { started with stack := t.stack ++ (receiver :: args).toArray }⟩ := by
    refine Eq.trans ?_ (bind_of_same (g := fun _ => execute fuel) hcall)
    simp only [bind_assoc]
  rw [runNative_eq]
  cases hresult : env.natives name env.memory (receiver :: args).toArray with
  | mk result memory =>
    cases result with
    | ok v =>
      -- the native has entered nothing, so nothing is executed
      have hcarried := carryOut_native_of_ok (t := started) hresult hroom
      have hrun := Load.runProtected_of_ok (hbody.trans ((bind_of_ok hcarried).trans
        (execute_of_inactive (Nat.lt_irrefl _) fuel)))
      rw [show invokeForObject (execute fuel) (.object g) receiver args ⟨env, t⟩ = _ from hrun]
      exact .ok v rfl ⟨rfl, rfl⟩
    | error c =>
      have hcarried := carryOut_native_of_error (t := started) hresult
      have hrun := Load.runProtected_of_error (hbody.trans (bind_of_error hcarried))
      rw [show invokeForObject (execute fuel) (.object g) receiver args ⟨env, t⟩ = _ from hrun]
      refine .error rfl ⟨Environment.unlogged_report _ _ _, ?_⟩
      -- the run puts the thread back to where it was
      have hstack : (t.stack ++ (receiver :: args).toArray).shrink t.stack.size = t.stack :=
        shrink_append _ _
      have hframes : t.frames.shrink t.frames.size = t.frames := by simp
      show { started with
        stack := (t.stack ++ (receiver :: args).toArray).shrink t.stack.size
        frames := t.frames.shrink t.frames.size
        returnFrame := t.returnFrame
        state := _ } = { t with state := _ }
      rw [hstack, hframes]
      rfl

/-- **Events with a native to fall back on.** The native is run if the event finds nothing, and
comes to the same as the call if it is found and there is room; else the event is run. -/
theorem event_with_default (fuel : Nat) (m : Machine) (h : Handle) (hash : UInt32) (native : String)
    (args : List Value) :
    let found := (m.env.callable h hash).1
    let searched : Machine := { m with env := (m.env.callable h hash).2 }
    let outcome := invokeWithDefault (execute fuel) h hash native args m
    (found = none → outcome = runNative native (.object h :: args).toArray searched) ∧
    ∀ f, found = some f →
      (f.object?.bind searched.env.heap.native? ≠ some native →
        outcome = invokeForObject (execute fuel) f (.object h) args searched) ∧
      (f.object?.bind searched.env.heap.native? = some native →
        m.thread.stack.size + (args.length + 1) ≤ Thread.maxStack →
          Exec.SameToHost outcome
            (invokeForObject (execute fuel) f (.object h) args searched)) := by
  intro found searched outcome
  have hsearch : onEnvironment (·.callable h hash) m = .ok found searched := rfl
  have houtcome : ∀ f, found = some f →
    outcome = (if f.object?.bind searched.env.heap.native? = some native then
      runNative native (.object h :: args).toArray
    else invokeForObject (execute fuel) f (.object h) args : Exec Value) searched := by
    intro f hsome
    refine (bind_of_ok hsearch).trans ?_
    rw [hsome]
    exact bind_of_ok rfl
  refine ⟨fun hnone => ?_, fun f hsome => ?_⟩
  · refine (bind_of_ok hsearch).trans ?_
    rw [hnone]
  rw [houtcome f hsome]
  refine ⟨fun hother => by rw [if_neg hother], fun hsame hroom => ?_⟩
  rw [if_pos hsame]
  obtain ⟨g, rfl, hg⟩ : ∃ g, f = .object g ∧ searched.env.heap.native? g = some native := by
    cases f with
    | object g => exact ⟨g, rfl, hsame⟩
    | _ => cases hsame
  exact sameToHost_invokeForObject hg hroom fuel

/-- The method of the lamp is the native, so the event runs it; in the call it comes to the same. -/
theorem event_with_default_lamp :
    let m : Machine := ⟨lamps, .new 0⟩
    (m.env.callable ⟨2, 0⟩ 7).1 = some (.object ⟨0, 0⟩) ∧
      Exec.SameToHost (invokeWithDefault (execute 0) ⟨2, 0⟩ 7 "klass" [] m)
        (invokeForObject (execute 0) (.object ⟨0, 0⟩) (.object ⟨2, 0⟩) []
          { m with env := (m.env.callable ⟨2, 0⟩ 7).2 }) := by
  intro m
  have hfound : (m.env.callable ⟨2, 0⟩ 7).1 = some (.object ⟨0, 0⟩) := by decide +kernel
  refine ⟨hfound, ((event_with_default 0 m ⟨2, 0⟩ 7 "klass" []).2 _ hfound).2 ?_ ?_⟩
  · decide +kernel
  · decide +kernel

end Machine
end ScriptVm
