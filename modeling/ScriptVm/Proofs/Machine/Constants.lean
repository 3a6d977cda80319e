import ScriptVm.Proofs.Machine.Aliasing
import ScriptVm.Proofs.Machine.InBounds
import ScriptVm.Proofs.Machine.Steadiness

/-!
# Constants

Scripts read constants as they read globals. Of the instructions that write under a name, two look
at the constants first; the third does not.

* `Environment.HasConstant` says that a name is bound to a constant with a value of some kind, and
  `Machine.KeepsConstant` that this is still so.
* `sparesConstant` says that the next instruction defines no constant under a name but with a value
  of that kind. `keeps_constant_watch` is the result for runs that are watched for it.
* `LeavesConstant` says what an action that runs scripts does to a constant, and `constants` puts
  together what the three instructions do to it and what runs do.
* `constant_redefined` is a script that gives a constant another value.
-/

namespace ScriptVm

/-- A name is bound to a constant with a value that passes a test. -/
def Environment.HasConstant (env : Environment) (hash : UInt32) (p : Value → Bool) : Prop :=
  (env.constants.get? hash).any p = true

theorem Environment.hasConstant_beq {env : Environment} {hash : UInt32} {v : Value} :
    env.HasConstant hash (· == v) ↔ env.constants.get? hash = some v := by
  simp [HasConstant, Option.any_eq_true]

theorem Environment.hasConstant_true {env : Environment} {hash : UInt32} :
    env.HasConstant hash (fun _ => true) ↔ env.constants.contains hash = true := by
  simp [HasConstant, Table.contains, Option.isSome_iff_exists]

namespace Machine

open Exec

variable {m m' : Machine} {hash other : UInt32} {p : Value → Bool} {v w : Value}

/-- The next instruction defines no constant under the name but with a value that passes a test. -/
def sparesConstant (hash : UInt32) (p : Value → Bool) (m : Machine) : Bool :=
  match m.next? with
  | some (.defineConstant other) =>
    other != hash || (m.fromTop? 0).all fun w => p (w.delink m.env.memory.cells)
  | _ => true

/-- A name that is bound to a constant with a value that passes a test stays bound so. -/
def KeepsConstant (hash : UInt32) (p : Value → Bool) (m m' : Machine) : Prop :=
  m.env.HasConstant hash p → m'.env.HasConstant hash p

theorem keepsConstant_of_eq (h : m'.env.constants = m.env.constants) :
    KeepsConstant hash p m m' := by
  intro hm
  unfold Environment.HasConstant
  rwa [h]

instance : AdmitsRuns (KeepsConstant hash p) where
  trans _ _ _ h h' hm := h' (h hm)
  refl _ := id
  stack _ _ := id
  register _ _ := id
  enter _ _ := id
  edit _ _ h := keepsConstant_of_eq h.constants
  native _ _ _ := id
  thread _ _ _ := id
  loaded _ _ _ _ := id

/-! ### Writing under a name -/

/-- No global is a constant. -/
theorem keeps_constant_insertGlobal (other : UInt32) (v : Value) :
    Keeps (KeepsConstant hash p) (insertGlobal other v) := fun _ => id

theorem keeps_constant_mapCells (g : Cells → Cells) : Keeps (KeepsConstant hash p) (mapCells g) :=
  fun _ => id

theorem keeps_constant_setGlobal (other : UInt32) (v : Value) :
    Keeps (KeepsConstant hash p) (setGlobal other v) :=
  keeps_setGlobal_of keeps_constant_mapCells (keeps_constant_insertGlobal other v)

theorem keeps_constant_setProperty (object : Value) (other : UInt32) (v : Value) :
    Keeps (KeepsConstant hash p) (setProperty object other v) :=
  keeps_setProperty_of keeps_constant_mapCells (fun _ _ _ => id) object

theorem keepsConstant_define (hv : other = hash → p (v.delink m.env.memory.cells) = true) :
    KeepsConstant hash p m (after (defineConstant other v) m) := by
  intro hm
  show ((m.env.constants.insert other _).get? hash).any p = true
  by_cases hother : other = hash
  · rw [hother, Table.get?_insert_self]
    exact hv hother
  · rwa [Table.get?_insert_of_ne _ (Ne.symm hother)]

/-- A definition that is spared leaves the constant as it should be. -/
theorem keepsConstant_perform (hspares : m.sparesConstant hash p = true)
    (hrun : advance m = .ok (.defineConstant other) m') :
    KeepsConstant hash p m' (after (pop >>= defineConstant other) m') := by
  have htop : m'.fromTop? 0 = m.fromTop? 0 := by
    unfold fromTop?
    rw [stack_of_advance hrun]
  cases hw : m'.fromTop? 0 with
  | none =>
    have hpop : pop m' = .error (.error (.ofCause .stackUnderflow)) m' := pop_of_none hw
    rw [after_of_error (bind_of_error hpop)]
    exact id
  | some w =>
    rw [after_bind_of_ok (pop_of_fromTop? hw)]
    refine keepsConstant_define (m := m'.mapStack (·.pop)) fun hother => ?_
    have hspares : other ≠ hash ∨ p (w.delink m.env.memory.cells) = true := by
      simpa [sparesConstant, next?_of_advance hrun, ← htop, hw] using hspares
    show p (w.delink m'.env.memory.cells) = true
    rw [memory_of_advance hrun]
    exact hspares.resolve_left (not_not.2 hother)

/-! ### Instructions and runs -/

/-- No instruction but the definition of the constant changes it, unless it imports a class. -/
theorem keeps_constant_perform {i : Instruction} (hi : ∀ index, i ≠ .importClass index)
    (hdefine : i ≠ .defineConstant hash) (executor : Exec Unit) :
    Keeps (KeepsConstant hash p) (perform executor i) := by
  refine keeps_perform_moving hi (fun _ => inferInstance) (fun other v _ => ?_)
    (fun other v _ => ?_) (fun other v heq m => ?_) (fun object other v _ => ?_) executor
  · exact keeps_constant_setGlobal other v
  · exact keeps_constant_insertGlobal other v
  · exact keepsConstant_define fun hother => absurd (hother ▸ heq) hdefine
  · exact keeps_constant_setProperty object other v

/-- Runs that spare a constant keep it. -/
theorem keeps_constant_watch {expected : Machine → Bool}
    (hexpected : ∀ m, expected m = true → m.sparesConstant hash p = true) (fuel : Nat) :
    Keeps (KeepsConstant hash p) (watch expected fuel) :=
  keeps_watch keeps_constant_setGlobal (fun _ other _ _ v => keeps_constant_insertGlobal other v)
    (fun m _ _ hm hrun => keepsConstant_perform (hexpected m hm) hrun)
    keeps_constant_setProperty fuel

/-- What a host has a thread do is made of runs. -/
theorem keeps_entry {R : Machine → Machine → Prop} [AdmitsRuns R] {executor : Nat → Exec Unit}
    (he : ∀ fuel, Keeps R (executor fuel)) (e : Entry) : Keeps R (e.run executor) := by
  cases e with
  | push v => exact keeps_push v
  | pop => exact keeps_pop.bind fun _ => keeps_pure ()
  | runValue fuel callee args =>
    exact (keeps_runValue (he fuel) callee args).bind fun _ => keeps_pure ()
  | invokeForObject fuel callable receiver args =>
    exact (keeps_invokeForObject (he fuel) callable receiver args).bind fun _ => keeps_pure ()
  | callInitializer fuel h => exact keeps_callInitializer (he fuel) h

/-- A constant stays bound through an action that runs scripts, and to its value unless watching for
an instruction that gives it another makes a difference. -/
def LeavesConstant {ε α : Type} (x : (Nat → Exec Unit) → EStateM (Halt ε) Machine α) (m : Machine)
    (hash : UInt32) (v : Value) : Prop :=
  (after (x execute) m).env.constants.contains hash = true ∧
    (x (watch (sparesConstant hash (· == v))) m = x execute m →
      (after (x execute) m).env.constants.get? hash = some v)

theorem leavesConstant_of_keeps {ε α : Type} {x : (Nat → Exec Unit) → EStateM (Halt ε) Machine α}
    (hx : ∀ p executor, (∀ fuel, Keeps (KeepsConstant hash p) (executor fuel)) →
      Keeps (KeepsConstant hash p) (x executor))
    (hv : m.env.constants.get? hash = some v) : LeavesConstant x m hash v := by
  constructor
  · -- a definition may give another value, but it gives one
    have hexecute : ∀ fuel, Keeps (KeepsConstant hash fun _ => true) (execute fuel) := by
      intro fuel
      rw [← watch_true]
      refine keeps_constant_watch (fun m _ => ?_) fuel
      unfold sparesConstant
      split
      · simp
      · rfl
    have hcontains : m.env.constants.contains hash = true := by simp [Table.contains, hv]
    exact Environment.hasConstant_true.1
      (hx (fun _ => true) execute hexecute m (Environment.hasConstant_true.2 hcontains))
  · intro hwatched
    have hkept := hx (· == v) (watch (sparesConstant hash (· == v)))
      (fun fuel => keeps_constant_watch (fun _ hm => hm) fuel) m (Environment.hasConstant_beq.2 hv)
    unfold after at hkept ⊢
    rw [hwatched] at hkept
    exact Environment.hasConstant_beq.1 hkept

/-! ### Attempts to write a constant -/

/-- What a refused attempt ends with. -/
def refused (hash : UInt32) (m : Machine) : EStateM.Result (Halt Fault) Machine Unit :=
  .error (.error (.ofCause (.constantRedefined (m.env.variableName hash)))) m

theorem setGlobal_of_constant (hglobal : m.env.globals.get? hash = none)
    (hconstant : m.env.constants.get? hash = some v) (w : Value) :
    setGlobal hash w m = refused hash m := by
  have hcontains : m.env.constants.contains hash = true := by simp [Table.contains, hconstant]
  refine (bind_of_ok rfl).trans ?_
  simp only [hglobal, hcontains, if_true]
  rfl

/-- What comes of the definition of a global under the name of a constant: a class that is given the
name of a class extends it. -/
def definedOver (hash : UInt32) (v w : Value) (m : Machine) :
    EStateM.Result (Halt Fault) Machine Unit :=
  match asClass? m.env.heap w, asClass? m.env.heap v with
  | some extension, some target => .ok () { m with env := m.env.extendClass extension target }
  | _, _ => refused hash m

theorem defineGlobal_of_constant (hglobal : m.env.globals.get? hash = none)
    (hconstant : m.env.constants.get? hash = some v) (w : Value) :
    defineGlobal hash w m = definedOver hash v w m := by
  refine (bind_of_ok rfl).trans ?_
  simp only [hglobal, hconstant]
  unfold definedOver
  cases asClass? m.env.heap w with
  | none => rfl
  | some extension => cases asClass? m.env.heap v <;> rfl

/-- **Constants and the instructions that write under their names.** A constant stays bound in every
run, and to its value unless a DEFINE_CONSTANT gives it another. -/
theorem constants (m : Machine) (hash : UInt32) (v : Value)
    (hv : m.env.constants.get? hash = some v) :
    (∀ w, m.fromTop? 0 = some w →
      (m.env.globals.get? hash = none → ∀ executor,
        perform executor (.setGlobal hash) m = refused hash m ∧
        perform executor (.defineGlobal hash) m =
          match definedOver hash v w m with
          | .ok _ m' => .ok () (m'.mapStack (·.pop))
          | .error e m' => .error e m') ∧
      ∀ executor, ∃ m', perform executor (.defineConstant hash) m = .ok () m' ∧
        m'.env.constants.get? hash = some (w.delink m.env.memory.cells)) ∧
    (∀ executor i, (∀ index, i ≠ .importClass index) → i ≠ .defineConstant hash →
      (after (perform executor i) m).env.constants.get? hash = some v) ∧
    (∀ e : Entry, LeavesConstant (fun executor => e.run executor) m hash v) ∧
    ∀ fuel bytes file,
      LeavesConstant (fun executor => Load.runFile (executor fuel) bytes file) m hash v := by
  refine ⟨fun w hw => ⟨fun hglobal executor => ⟨?_, ?_⟩, fun executor => ?_⟩, ?_,
    fun e => leavesConstant_of_keeps (fun _ _ he => keeps_entry he e) hv,
    fun fuel bytes file =>
      leavesConstant_of_keeps (fun _ _ he => keeps_runFile (he fuel) bytes file) hv⟩
  · rw [perform_setGlobal hw, setGlobal_of_constant hglobal hv]
  · refine (bind_of_ok (peek_of_fromTop? (by decide) hw)).trans ?_
    have hdefine := defineGlobal_of_constant hglobal hv w
    unfold definedOver at hdefine ⊢
    split at hdefine
    · rename_i extension target _ _
      have hpop := pop_of_fromTop? (m := { m with env := m.env.extendClass extension target }) hw
      exact (bind_of_ok hdefine).trans (bind_of_ok hpop)
    · exact bind_of_error hdefine
  · exact ⟨_, bind_of_ok (pop_of_fromTop? hw), Table.get?_insert_self _ _ _⟩
  · intro executor i hi hdefine
    exact Environment.hasConstant_beq.1
      (keeps_constant_perform hi hdefine executor m (Environment.hasConstant_beq.2 hv))

/-- The cause for which an action has failed, if it has. -/
def failure? : EStateM.Result (Halt Fault) Machine Unit → Option Cause
  | .error (.error f) _ => some f.cause
  | _ => none

theorem failure?_eq_some {r : EStateM.Result (Halt Fault) Machine Unit} {c : Cause} :
    failure? r = some c ↔ ∃ f m', r = .error (.error f) m' ∧ f.cause = c := by
  rcases r with _ | ⟨_ | _ | _, _⟩ <;> simp [failure?]

/-- A machine with a function of the given code and with the constant 3 under the hash 7. -/
def withLimit (code : Array UInt8) : Machine :=
  let m := ofCode code
  { m with env := { m.env with constants := m.env.constants.insert 7 (.integer 3) } }

/-- The script fails that sets the constant to 5, and the constant has its value. -/
theorem constants_withLimit :
    let m := withLimit #[Opcode.integer.toByte, 5, 0, 0, 0, Opcode.setGlobal.toByte, 7, 0, 0, 0]
    let e := Entry.runValue 9 (.object ⟨0, 0⟩) []
    (∃ f m', e.run execute m = .error (.error f) m' ∧ f.cause = .constantRedefined "$[00000007]") ∧
      (e.after m).env.constants.get? 7 = some (.integer 3) := by
  intro m e
  have hlimit : m.env.constants.get? 7 = some (.integer 3) := by decide +kernel
  have hfails : failure? (e.run (watch (sparesConstant 7 (· == .integer 3))) m) =
      some (.constantRedefined "$[00000007]") := by decide +kernel
  clear_value m e
  have hspares : e.run (watch (sparesConstant 7 (· == .integer 3))) m = e.run execute m := by
    rcases e.refines (sparesConstant 7 (· == .integer 3)) m with heq | ⟨m', hover⟩
    · exact heq
    · rw [hover] at hfails
      cases hfails
  refine ⟨?_, ((constants m 7 (.integer 3) hlimit).2.2.1 e).2 hspares⟩
  rw [hspares] at hfails
  exact failure?_eq_some.1 hfails

/-- The script returns that defines the constant to be 5, and the constant has another value. -/
theorem constant_redefined :
    let m := withLimit #[Opcode.integer.toByte, 5, 0, 0, 0, Opcode.defineConstant.toByte,
      7, 0, 0, 0, Opcode.null.toByte, Opcode.ret.toByte]
    let e := Entry.runValue 9 (.object ⟨0, 0⟩) []
    m.env.constants.get? 7 = some (.integer 3) ∧ (∃ m', e.run execute m = .ok () m') ∧
      (e.after m).env.constants.get? 7 = some (.integer 5) := by
  intro m e
  have hreturns : (match e.run execute m with
      | .ok _ _ => true
      | .error _ _ => false) = true := by decide +kernel
  refine ⟨by decide +kernel, ?_, by decide +kernel⟩
  split at hreturns
  · rename_i m' hrun
    exact ⟨m', hrun⟩
  · cases hreturns

end Machine
end ScriptVm
