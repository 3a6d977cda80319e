import ScriptVm.Native.Catalog
import ScriptVm.Proofs.Machine.FailedSteps
import ScriptVm.Proofs.Machine.SuperCalls

/-!
# Events and calls by name

A host runs an event of an instance, a script calls a member of it by name. Both look for the same
thing, but they are not the same code.

* `Delivery` is what is called in the end, and with which values: a function with its slots, or a
  native with its arguments. `Delivery.carryOut` does it.
* `delivered` says what a value comes to when it is called for a receiver. It is given what a native
  is passed, for that is where the two ways differ.
* `event_and_invoke` is the result: in the same environment both find the same value or none, and
  the same is delivered, but for natives in a field of the instance itself.
-/

namespace ScriptVm
namespace Machine

/-- The topmost values of the operand stack, the last of them on top. -/
def Offers (m : Machine) (values : List Value) : Prop := values <:+ m.thread.stack.toList

end Machine

open Exec Machine

/-- What is called, and with which values. -/
inductive Delivery where
  | script (function : Handle) (slots : List Value)
  | native (name : String) (args : List Value)
  | refused

namespace Delivery

/-- Calls what is delivered in place of a receiver and the `argc` arguments above it. -/
def carryOut (argc : Nat) : Delivery → Exec Unit
  | .script function slots => do
    modify (·.mapStack fun s => s.shrink (s.size - (argc + 1)) ++ slots.toArray)
    call function argc
  | .native name args => do
    let height := (← get).thread.stack.size - (argc + 1)
    let result ← runNative name args.toArray
    truncate height
    push result
  | .refused => fault .notCallable

end Delivery

/-- What a value comes to that is called for a receiver, with what a native is passed. A bound
method brings its own receiver. -/
def Heap.delivered (heap : Heap) (callable receiver : Value) (args passed : List Value) :
    Delivery :=
  match callable with
  | .object h =>
    match heap.get? h with
    | some (.boundMethod bound method) => .script method (bound :: args)
    | some (.function _) => .script h (receiver :: args)
    | some (.native name) => .native name passed
    | _ => .refused
  | _ => .refused

/-- What is passed to natives matters to natives only. -/
theorem Environment.delivered_congr {env : Environment} {callable : Value}
    (hnative : ¬ env.IsNative callable) (receiver : Value) (args passed passed' : List Value) :
    env.heap.delivered callable receiver args passed =
      env.heap.delivered callable receiver args passed' := by
  unfold Heap.delivered
  cases callable with
  | object h =>
    dsimp only
    split
    · rfl
    · rfl
    · rename_i name hget
      exact absurd ⟨h, name, rfl, hget⟩ hnative
    · rfl
  | _ => rfl

namespace Machine

variable {m : Machine} {h : Handle} {hash : UInt32} {callable receiver v : Value}
  {values args passed : List Value} {name : String}

/-! ### Values on top of the stack -/

theorem Offers.stack (hm : m.Offers values) :
    ∃ below : List Value, m.thread.stack = (below ++ values).toArray := by
  obtain ⟨below, hbelow⟩ := hm
  exact ⟨below, by rw [hbelow, Array.toArray_toList]⟩

theorem Offers.le_size (hm : m.Offers values) : values.length ≤ m.thread.stack.size := by
  rw [← Array.length_toList]
  exact hm.length_le

theorem Offers.tail (hm : m.Offers (receiver :: args)) : m.Offers args :=
  (List.suffix_cons receiver args).trans hm

theorem Offers.fromTop? (hm : m.Offers (receiver :: args)) :
    m.fromTop? args.length = some receiver := by
  obtain ⟨below, hstack⟩ := hm.stack
  show m.thread.stack.toList.reverse[args.length]? = some receiver
  simp [hstack]

/-- The offered values, as they are taken for a native. -/
theorem Offers.extract (hm : m.Offers values) :
    m.thread.stack.extract (m.thread.stack.size - values.length) m.thread.stack.size =
      values.toArray := by
  obtain ⟨below, hstack⟩ := hm.stack
  simp [hstack]

/-- The offered values put back in place. -/
theorem Offers.replaced (hm : m.Offers values) :
    m.thread.stack.shrink (m.thread.stack.size - values.length) ++ values.toArray =
      m.thread.stack := by
  obtain ⟨below, hstack⟩ := hm.stack
  simp [hstack]

/-- Another receiver put in place of the offered one. -/
theorem Offers.rebound (hm : m.Offers (receiver :: args)) (bound : Value) :
    m.thread.stack.setIfInBounds (m.thread.stack.size - (args.length + 1)) bound =
      m.thread.stack.shrink (m.thread.stack.size - (args.length + 1)) ++
        (bound :: args).toArray := by
  obtain ⟨below, hstack⟩ := hm.stack
  simp [hstack]

/-! ### Calls -/

theorem heightBelow_of_offers (hm : m.Offers values) :
    heightBelow values.length m = .ok (m.thread.stack.size - values.length) m := by
  unfold heightBelow
  rw [if_pos hm.le_size]

/-- A native that is passed values from the top of the stack. -/
theorem callNative_offers (hm : m.Offers (receiver :: args)) (hpassed : m.Offers passed)
    (name : String) : callNative name passed.length (args.length + 1) m =
      (Delivery.native name passed).carryOut args.length m := by
  have hvalues : valuesFrom (m.thread.stack.size - passed.length) m = .ok passed.toArray m := by
    unfold valuesFrom
    rw [if_pos (Nat.sub_le _ _), hpassed.extract]
  have hbase : heightBelow (args.length + 1) m = .ok (m.thread.stack.size - (args.length + 1)) m :=
    heightBelow_of_offers hm
  unfold callNative
  rw [bind_of_ok (heightBelow_of_offers hpassed), bind_of_ok hbase, bind_of_ok hvalues]
  unfold Delivery.carryOut runNative
  simp only [bind_assoc]
  rfl

/-- Slots that take the place of what is on the stack. -/
theorem place_slots (slots : List Value) (n : Nat) (m : Machine) :
    (modify (·.mapStack fun s => s.shrink (s.size - n) ++ slots.toArray) : Exec PUnit) m =
      .ok PUnit.unit (m.mapStack fun s => s.shrink (s.size - n) ++ slots.toArray) := rfl

/-- A value that is called as it stands passes a native the arguments only. -/
theorem callCallee_delivers (hm : m.Offers (receiver :: args)) (hargs : args.length ≤ 255)
    (callable : Value) : callCallee callable args.length m =
      (m.env.heap.delivered callable receiver args args).carryOut args.length m := by
  have hplaced : m.mapStack (fun s => s.shrink (s.size - (args.length + 1)) ++
      (receiver :: args).toArray) = m := congrArg (fun s => m.mapStack fun _ => s) hm.replaced
  have hrange : args.length + 1 < Heap.sizeRange :=
    Nat.lt_of_le_of_lt (Nat.succ_le_succ hargs) (by decide)
  unfold callCallee Heap.delivered
  refine (bind_of_ok rfl).trans ?_
  cases callable with
  | object h =>
    dsimp only
    cases hget : m.env.heap.get? h with
    | none => rfl
    | some o =>
      cases o with
      | boundMethod bound method =>
        unfold Delivery.carryOut
        dsimp only
        rw [bind_of_ok (setPeek_of_fromTop? hrange hm.fromTop? bound),
          bind_of_ok (place_slots _ _ m)]
        exact congrArg (fun s => call method args.length (m.mapStack fun _ => s)) (hm.rebound bound)
      | function f =>
        unfold Delivery.carryOut
        dsimp only
        rw [bind_of_ok (place_slots _ _ m), hplaced]
      | native name => exact callNative_offers hm hm.tail name
      | _ => rfl
  | _ => rfl

/-- A value that is called for a receiver passes a native the receiver too. -/
theorem callForObject_delivers (hm : m.Offers (receiver :: args)) (hargs : args.length ≤ 255)
    (callable : Value) : callForObject callable args.length m =
      (m.env.heap.delivered callable receiver args (receiver :: args)).carryOut args.length m := by
  have hcallee := callCallee_delivers hm hargs callable
  unfold Heap.delivered at hcallee ⊢
  unfold callForObject
  refine (bind_of_ok rfl).trans ?_
  cases callable with
  | object h =>
    dsimp only at hcallee ⊢
    cases hget : m.env.heap.get? h with
    | none =>
      rw [hget] at hcallee
      exact hcallee
    | some o =>
      rw [hget] at hcallee
      cases o with
      | native name => exact callNative_offers hm hm name
      | _ => exact hcallee
  | _ => rfl

/-! ### Events -/

theorem offers_of_pushAll {m' : Machine} {u : Unit} (hrun : pushAll values m = .ok u m') :
    m'.env = m.env ∧ m'.thread.stack = m.thread.stack ++ values.toArray := by
  induction values generalizing m with
  | nil =>
    cases hrun
    exact ⟨rfl, Array.append_empty.symm⟩
  | cons v rest ih =>
    obtain ⟨u₁, m₁, hpush, hrest⟩ := bind_eq_ok.1 hrun
    have hpushed : m₁ = m.mapStack (·.push v) := by
      unfold push at hpush
      split at hpush <;> cases hpush
      rfl
    obtain ⟨henv, hstack⟩ := ih hrest
    subst hpushed
    refine ⟨henv, hstack.trans ?_⟩
    show m.thread.stack.push v ++ rest.toArray = m.thread.stack ++ (v :: rest).toArray
    simp

theorem runProtected_congr {body body' : Exec Unit} (hbody : body m.beginRun = body' m.beginRun) :
    runProtected body m = runProtected body' m := by
  have hrun : (body *> pop) m.beginRun = (body' *> pop) m.beginRun :=
    bind_of_same (g := fun _ => pop) hbody
  unfold runProtected
  rw [hrun]

/-- A call for a receiver delivers what the value comes to, if there is room for the values. -/
theorem invokeForObject_delivers (hargs : args.length ≤ 255) (executor : Exec Unit)
    (callable receiver : Value) : invokeForObject executor callable receiver args m =
      runProtected (do
        pushAll (receiver :: args)
        (m.env.heap.delivered callable receiver args (receiver :: args)).carryOut args.length
        executor) m := by
  refine runProtected_congr ?_
  have hbody : (do
      push receiver
      pushAll args
      callForObject callable args.length
      executor : Exec Unit) =
        pushAll (receiver :: args) >>= fun _ => callForObject callable args.length >>= fun _ =>
          executor := by
    simp only [pushAll, bind_assoc]
  rw [hbody]
  cases hrun : pushAll (receiver :: args) m.beginRun with
  | error e m₁ => rw [bind_of_error hrun, bind_of_error hrun]
  | ok u m₁ =>
    obtain ⟨henv, hstack⟩ := offers_of_pushAll hrun
    have hoffers : m₁.Offers (receiver :: args) := by
      unfold Offers
      rw [hstack, Array.toList_append]
      exact List.suffix_append _ _
    have hdelivers := callForObject_delivers hoffers hargs callable
    rw [henv] at hdelivers
    rw [bind_of_ok hrun, bind_of_ok hrun]
    exact bind_of_same hdelivers

/-- An event that finds something delivers it. -/
theorem runEvent_delivers (hargs : args.length ≤ 255) (executor : Exec Unit) (m : Machine)
    (h : Handle) (hash : UInt32) :
    let found := (m.env.callable h hash).1
    let env := (m.env.callable h hash).2
    (found = none → runEvent executor h hash args m = .ok false { m with env }) ∧
    ∀ callable, found = some callable → runEvent executor h hash args m =
      (do
        let _ ← runProtected do
          pushAll (.object h :: args)
          (env.heap.delivered callable (.object h) args (.object h :: args)).carryOut args.length
          executor
        return true) { m with env } := by
  intro found env
  have hsearch : onEnvironment (·.callable h hash) m = .ok found { m with env } := rfl
  unfold runEvent
  rw [bind_of_ok hsearch]
  constructor
  · intro hnone
    rw [hnone]
    rfl
  · intro callable hsome
    rw [hsome]
    exact bind_of_same (invokeForObject_delivers (m := { m with env }) hargs executor callable _)

theorem callable_of_field {env : Environment} {i : InstanceObject} {field : Value}
    (hi : env.heap.instance? h = some i) (hfield : i.fields.get? hash = some field) :
    env.callable h hash = (some (field.delink env.memory.cells), env) := by
  unfold Environment.callable
  simp only [hi, hfield]

theorem callable_of_member {env : Environment} {i : InstanceObject}
    (hi : env.heap.instance? h = some i) (hfield : i.fields.get? hash = none) :
    env.callable h hash = ((env.findMember i.classHandle hash).1.map
      (·.delink (env.findMember i.classHandle hash).2.memory.cells),
        (env.findMember i.classHandle hash).2) := by
  unfold Environment.callable
  simp only [hi, hfield]

/-- A call by name that finds something delivers it; a field passes a native the arguments only. -/
theorem invokeOnInstance_delivers {i : InstanceObject} (hi : m.env.heap.instance? h = some i)
    (hargs : args.length ≤ 255) (hm : m.Offers (.object h :: args)) (hash : UInt32) :
    let found := (m.env.callable h hash).1
    let env := (m.env.callable h hash).2
    (found = none → invokeOnInstance i hash args.length false m =
      .error (.error (.ofCause (.notInvocable (env.variableName hash)))) { m with env }) ∧
    ∀ callable, found = some callable → invokeOnInstance i hash args.length false m =
      (env.heap.delivered callable (.object h) args
        (if i.fields.contains hash then args else .object h :: args)).carryOut args.length
          { m with env } := by
  unfold invokeOnInstance Table.contains
  rw [if_neg Bool.false_ne_true]
  cases hfield : i.fields.get? hash with
  | some field =>
    simp only [callable_of_field hi hfield]
    refine ⟨nofun, ?_⟩
    rintro callable ⟨⟩
    exact (bind_of_ok rfl).trans (callCallee_delivers hm hargs _)
  | none =>
    simp only [callable_of_member hi hfield]
    have hsearch : onEnvironment (·.findMember i.classHandle hash) m =
        .ok (m.env.findMember i.classHandle hash).1
          { m with env := (m.env.findMember i.classHandle hash).2 } := rfl
    unfold invokeFromClass
    rw [bind_of_ok hsearch]
    cases (m.env.findMember i.classHandle hash).1 with
    | none => exact ⟨fun _ => rfl, nofun⟩
    | some method =>
      refine ⟨nofun, ?_⟩
      rintro callable ⟨⟩
      refine (bind_of_ok rfl).trans ?_
      exact callForObject_delivers
        (m := { m with env := (m.env.findMember i.classHandle hash).2 }) hm hargs _

/-- **Events and calls by name.** Both find the same value and deliver the same to it, but that a
native in a field of the instance gets the arguments alone from a script. -/
theorem event_and_invoke {m m' : Machine} {i : InstanceObject} (henv : m'.env = m.env)
    (hi : m.env.heap.instance? h = some i) (hargs : args.length ≤ 255)
    (hoffers : m'.Offers (.object h :: args)) (hash : UInt32) (executor : Exec Unit) :
    let found := (m.env.callable h hash).1
    let env := (m.env.callable h hash).2
    let byName := Instruction.invoke args.length.toUInt8 hash false
    (found = none →
      runEvent executor h hash args m = .ok false { m with env } ∧
      perform executor byName m' =
        .error (.error (.ofCause (.notInvocable (env.variableName hash)))) { m' with env }) ∧
    ∀ callable, found = some callable →
      let delivery := env.heap.delivered callable (.object h) args (.object h :: args)
      let alone := env.heap.delivered callable (.object h) args args
      runEvent executor h hash args m =
        (do
          let _ ← runProtected do
            pushAll (.object h :: args)
            delivery.carryOut args.length
            executor
          return true) { m with env } ∧
      (¬ (i.fields.contains hash = true ∧ env.IsNative callable) →
        perform executor byName m' = delivery.carryOut args.length { m' with env }) ∧
      (i.fields.contains hash = true →
        perform executor byName m' = alone.carryOut args.length { m' with env }) := by
  intro found env byName
  obtain ⟨hnothing, hdelivers⟩ := runEvent_delivers hargs executor m h hash
  obtain ⟨hnothing', hdelivers'⟩ :=
    invokeOnInstance_delivers (m := m') (henv ▸ hi) hargs hoffers hash
  rw [henv] at hnothing' hdelivers'
  have hinvoke : perform executor byName m' = invokeOnInstance i hash args.length false m' := by
    have hcount : args.length.toUInt8.toNat = args.length := by
      rw [Nat.toUInt8_eq, UInt8.toNat_ofNat']
      exact Nat.mod_eq_of_lt (Nat.lt_succ_of_le hargs)
    have hpeek : peek args.length m' = .ok (.object h) m' :=
      peek_of_fromTop? (Nat.lt_of_le_of_lt (Nat.succ_le_succ hargs) (by decide)) hoffers.fromTop?
    show invoke hash args.length.toUInt8.toNat false m' = _
    rw [hcount]
    exact invoke_of_inst hpeek (henv ▸ Heap.instance?_eq_some.1 hi) false
  rw [hinvoke]
  refine ⟨fun hnone => ⟨hnothing hnone, hnothing' hnone⟩, fun callable hsome =>
    ⟨hdelivers callable hsome, fun hother => ?_, fun hfield => ?_⟩⟩
  · rw [hdelivers' callable hsome]
    by_cases hfield : i.fields.contains hash = true
    · rw [Environment.delivered_congr fun hnative => hother ⟨hfield, hnative⟩]
    · rw [if_neg hfield]
  · rw [hdelivers' callable hsome, if_pos hfield]

/-- A class with a native as a method, an instance of it, and an instance with the native in a field
of another name. -/
def lamps : Environment :=
  let k := ClassObject.ofHash (hashName "Lamp")
  let i := InstanceObject.ofClass ⟨1, 0⟩
  let heap := (Heap.empty.alloc (.native "klass")).2
  let heap :=
    (heap.alloc (.scriptClass { k with methods := k.methods.insert 7 (.object ⟨0, 0⟩) })).2
  let heap := (heap.alloc (.inst { i with fields := i.fields.insert 8 (.object ⟨0, 0⟩) })).2
  .new heap Native.standard none default

/-- A thread with the instance on its stack. -/
def lampOffered : Machine := ⟨lamps, { Thread.new 0 with stack := #[.object ⟨2, 0⟩] }⟩

/-- The method is passed the instance in both ways. -/
theorem event_and_invoke_method :
    runEvent (execute 0) ⟨2, 0⟩ 7 [] ⟨lamps, .new 0⟩ =
      (do
        let _ ← runProtected do
          pushAll [.object ⟨2, 0⟩]
          (Delivery.native "klass" [.object ⟨2, 0⟩]).carryOut 0
          execute 0
        return true) ⟨lamps, .new 0⟩ ∧
      perform (execute 0) (.invoke 0 7 false) lampOffered =
        (Delivery.native "klass" [.object ⟨2, 0⟩]).carryOut 0 lampOffered := by
  have henv : lampOffered.env = (Machine.mk lamps (.new 0)).env := rfl
  have hi : (Machine.mk lamps (.new 0)).env.heap.instance? ⟨2, 0⟩ = some _ := rfl
  have hoffers : lampOffered.Offers [.object ⟨2, 0⟩] := List.suffix_refl _
  obtain ⟨-, hfound⟩ := event_and_invoke henv hi (by decide) hoffers 7 (execute 0)
  obtain ⟨hevent, hsame, -⟩ := hfound (.object ⟨0, 0⟩) rfl
  exact ⟨hevent, hsame fun hfield => absurd hfield.1 (by decide)⟩

/-- The event runs the native in the field, which finds the instance among its arguments; the call
by name fails, for the native is passed no arguments. -/
theorem event_and_invoke_field :
    (∃ m', runEvent (execute 0) ⟨2, 0⟩ 8 [] ⟨lamps, .new 0⟩ = .ok true m') ∧
      ∃ f m', perform (execute 0) (.invoke 0 8 false) lampOffered = .error (.error f) m' ∧
        f.cause = .argumentMissing 1 0 :=
  ⟨⟨_, rfl⟩, _, _, rfl, rfl⟩

end Machine
end ScriptVm
