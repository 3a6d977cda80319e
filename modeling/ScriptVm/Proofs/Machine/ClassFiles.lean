import ScriptVm.Proofs.Machine.Aliasing
import ScriptVm.Proofs.Machine.ModuleContents
import ScriptVm.Proofs.Machine.SuperCalls

/-!
# Class files

A class file imports classes, makes a class and defines it, and does nothing else. Its first
function is straight code, so what happens when the file runs can be said instruction by
instruction.

* `EndsIn` says how an action ends with enough fuel, `Machine.Proceeds` that the execution of one
  machine comes to that of another.
* `Code.Spells` says which instructions stand in code, `Prototype.Scripts` that they are those of
  a class file.
* `Machine.Performing` is a machine in the midst of such code. `Performing.next` fetches an
  instruction; `perform_import`, `Performing.newClass`, `Performing.defineGlobal`, `Performing.push`
  and `Performing.ret` are what the instructions do.
* `Source.Gives` says that a source has a file whenever it is asked for it.
* `runFile_begins` is how the run of a file begins and how it ends.
-/

namespace ScriptVm

/-! ### Enough fuel -/

/-- With enough fuel an action ends in one way. -/
def EndsIn {ε σ α : Type} (x : Nat → EStateM ε σ α) (s : σ) (r : EStateM.Result ε σ α) : Prop :=
  ∃ bound, ∀ fuel, bound ≤ fuel → x fuel s = r

/-- With enough fuel, executing one machine comes to executing another. -/
def Machine.Proceeds (m m' : Machine) : Prop :=
  ∃ steps bound, ∀ fuel, bound ≤ fuel → Exec.execute (fuel + steps) m = Exec.execute fuel m'

section EndsIn

variable {ε σ α : Type} {s : σ}

theorem endsIn_of_eq {x : Nat → EStateM ε σ α} {r : EStateM.Result ε σ α}
    (h : ∀ fuel, x fuel s = r) : EndsIn x s r :=
  ⟨0, fun fuel _ => h fuel⟩

end EndsIn

namespace Machine

variable {m m' m'' : Machine}

theorem Proceeds.refl (m : Machine) : m.Proceeds m := ⟨0, 0, fun _ _ => rfl⟩

theorem Proceeds.trans (h : m.Proceeds m') (h' : m'.Proceeds m'') : m.Proceeds m'' := by
  obtain ⟨k, n, h⟩ := h
  obtain ⟨k', n', h'⟩ := h'
  refine ⟨k' + k, max n n', fun fuel hfuel => ?_⟩
  rw [← Nat.add_assoc, h (fuel + k') (by omega), h' fuel (by omega)]

theorem Proceeds.endsIn {r : EStateM.Result (Halt Fault) Machine Unit} (h : m.Proceeds m')
    (hr : EndsIn Exec.execute m' r) : EndsIn Exec.execute m r := by
  obtain ⟨k, n, h⟩ := h
  obtain ⟨n', hr⟩ := hr
  refine ⟨max n n' + k, fun fuel hfuel => ?_⟩
  obtain ⟨fuel, rfl⟩ := Nat.exists_eq_add_of_le' (show k ≤ fuel by omega)
  rw [h fuel (by omega), hr fuel (by omega)]

end Machine

/-- A class was not loaded: the load says so, or it fails. -/
inductive Load.Refused : EStateM.Result (Halt RegistryError) Machine Bool → Prop
  | denied (m : Machine) : Refused (.ok false m)
  | failed (e : RegistryError) (m : Machine) : Refused (.error (.error e) m)

/-! ### The instructions of a class file -/

theorem decode_of_toOption {bytes : List UInt8} {c : Container}
    (h : (Container.decode bytes).toOption = some c) : Container.decode bytes = .ok c := by
  cases hd : Container.decode bytes with
  | error e =>
    rw [hd] at h
    cases h
  | ok c' =>
    rw [hd] at h
    exact congrArg _ (Option.some.inj h)

/-- Instructions stand in code one after the other, from an offset on. -/
inductive Code.Spells (code : Array UInt8) : Nat → List Instruction → Prop
  | nil (offset : Nat) : Spells code offset []
  | cons {offset next : Nat} {i : Instruction} {rest : List Instruction} :
      Code.instruction? code offset = some (i, next) → Spells code next rest →
        Spells code offset (i :: rest)

theorem Code.spells_cons {code : Array UInt8} {offset : Nat} {i : Instruction}
    {rest : List Instruction} : Code.Spells code offset (i :: rest) ↔
      ∃ next, Code.instruction? code offset = some (i, next) ∧ Code.Spells code next rest := by
  constructor
  · rintro ⟨⟩
    exact ⟨_, ‹_›, ‹_›⟩
  · rintro ⟨next, hi, hrest⟩
    exact .cons hi hrest

instance Code.decidableSpells (code : Array UInt8) :
    (offset : Nat) → (is : List Instruction) → Decidable (Code.Spells code offset is)
  | offset, [] => .isTrue (.nil offset)
  | offset, i :: rest =>
    match hfound : Code.instruction? code offset with
    | none => .isFalse fun h => by
      obtain ⟨next, hi, -⟩ := Code.spells_cons.1 h
      cases hfound.symm.trans hi
    | some (j, next) =>
      have := Code.decidableSpells code next rest
      decidable_of_iff (j = i ∧ Code.Spells code next rest) (by
        rw [Code.spells_cons, hfound]
        exact ⟨fun h => ⟨next, h.1 ▸ rfl, h.2⟩,
          fun ⟨_, hi, hrest⟩ => by cases hi; exact ⟨rfl, hrest⟩⟩)

/-- What a class file does: the names of the classes that it imports before it makes its class,
before it defines the class, and after that; and the kind of the class. -/
structure ClassScript where
  before : List String
  between : List String
  after : List String
  kind : UInt8

/-- The kind of class that an operand stands for. -/
def ClassKind.ofOperand (kind : UInt8) : ClassKind := if kind = 1 then .extended else .normal

/-- An instruction of a function imports the class of a name. -/
def Prototype.Imports (p : Prototype) (i : Instruction) (name : String) : Prop :=
  ∃ index : UInt32, i = .importClass index ∧
    p.chunk.constants[index.toNat]? = some (.string name)

/-- How a class file may end: it returns a value that it pushes, or whatever it finds. -/
inductive Instruction.Returns : List Instruction → Prop
  | plain : Returns [.ret]
  | value (v : Value) : Returns [.push v, .ret]

/-- A function without parameters does what a class file does for the class of a hash. -/
def Prototype.Scripts (p : Prototype) (hash : UInt32) (s : ClassScript) : Prop :=
  p.arity = 0 ∧ ∃ before between after ending,
    List.Forall₂ p.Imports before s.before ∧ List.Forall₂ p.Imports between s.between ∧
    List.Forall₂ p.Imports after s.after ∧ Instruction.Returns ending ∧
    Code.Spells p.chunk.code 0 (before ++ .newClass hash s.kind ::
      (between ++ .defineGlobal hash :: (after ++ ending)))

/-- A function makes one class only. -/
theorem Code.Spells.newClass_unique {p : Prototype} {code : Array UInt8} {offset : Nat}
    {is is' rest rest' : List Instruction} {names names' : List String} {hash hash' : UInt32}
    {kind kind' : UInt8} (himports : List.Forall₂ p.Imports is names)
    (himports' : List.Forall₂ p.Imports is' names')
    (hs : Code.Spells code offset (is ++ .newClass hash kind :: rest))
    (hs' : Code.Spells code offset (is' ++ .newClass hash' kind' :: rest')) : hash = hash' := by
  induction himports generalizing offset is' names' with
  | nil =>
    cases himports' with
    | nil =>
      cases hs with
      | cons hi _ =>
        cases hs' with
        | cons hi' _ =>
          cases hi.symm.trans hi'
          rfl
    | cons hfirst _ =>
      obtain ⟨index, rfl, -⟩ := hfirst
      cases hs with
      | cons hi _ =>
        cases hs' with
        | cons hi' _ => cases hi.symm.trans hi'
  | cons hfirst _ ih =>
    obtain ⟨index, rfl, -⟩ := hfirst
    cases hs with
    | cons hi hrest =>
      cases himports' with
      | nil =>
        cases hs' with
        | cons hi' _ => cases hi.symm.trans hi'
      | cons _ himports' =>
        cases hs' with
        | cons hi' hrest' =>
          cases hi.symm.trans hi'
          exact ih himports' hrest hrest'

/-! ### Machines that perform a class file -/

/-- A thread in a run of its own, with one call active and some values above those it had. -/
def Thread.within (t : Thread) (f : Frame) (values : Array Value) (state : ThreadState) : Thread :=
  { t with
    stack := t.stack ++ values, frames := t.frames.push f, returnFrame := t.frames.size, state }

/-- A machine is in a run above a thread and performs a function, with some values on its stack and
some instructions left. -/
def Machine.Performing (m : Machine) (t : Thread) (p : Prototype) (values : Array Value)
    (left : List Instruction) : Prop :=
  ∃ f state, m.thread = t.within f values state ∧ m.env.heap.Realizes f.function p ∧
    f.code = p.chunk.code ∧ f.slots = t.stack.size ∧ Code.Spells f.code f.ip left

namespace Machine

open Exec

variable {m m' : Machine} {t : Thread} {p : Prototype} {values : Array Value} {i : Instruction}
  {left : List Instruction}

theorem modify_push {α : Type} (xs : Array α) (a : α) (u : α → α) :
    (xs.push a).modify ((xs.push a).size - 1) u = xs.push (u a) := by
  refine Array.ext_getElem? fun i => ?_
  rw [Array.getElem?_modify, Array.getElem?_push, Array.getElem?_push, Array.size_push,
    Nat.add_sub_cancel]
  by_cases hi : i = xs.size
  · rw [if_pos hi.symm, if_pos hi, if_pos hi]
    rfl
  · rw [if_neg (Ne.symm hi), if_neg hi, if_neg hi]

theorem shrink_append {α : Type} (xs ys : Array α) : (xs ++ ys).shrink xs.size = xs := by
  rw [← Array.toList_inj, Array.toList_shrink, Array.toList_append, ← Array.length_toList,
    List.take_left]

theorem thread_advanced {f : Frame} {state : ThreadState} (hm : m.thread = t.within f values state)
    (op : Opcode) (next : Nat) :
    (m.advanced f op next).thread =
      t.within { f with ip := next, ipLast := f.ip } values state := by
  have hframes : (m.advanced f op next).thread.frames =
      t.frames.push { f with ip := next, ipLast := f.ip } := by
    unfold advanced traced noted mapFrame mapFrames
    dsimp only
    rw [hm]
    unfold Thread.within
    dsimp only
    rw [modify_push, modify_push]
  have hrest : (m.advanced f op next).thread =
      { m.thread with frames := (m.advanced f op next).thread.frames } := rfl
  rw [hrest, hframes, hm]
  rfl

/-- What is performed stays so while the heap keeps what it has. -/
theorem Performing.mono (hm : m.Performing t p values left) {state : ThreadState}
    (hthread : m'.thread = { m.thread with state }) (hs : m.env.heap.Slotted)
    (hr : m.env.heap.Retains m'.env.heap) : m'.Performing t p values left := by
  obtain ⟨f, _, hf, hrealizes, hcode, hslots, hspells⟩ := hm
  refine ⟨f, state, ?_, hrealizes.mono hr hs, hcode, hslots, hspells⟩
  rw [hthread, hf]
  rfl

/-- Other values on the stack. -/
theorem Performing.restack (hm : m.Performing t p values left) {values' : Array Value}
    (hthread : m'.thread = { m.thread with stack := t.stack ++ values' }) (hs : m.env.heap.Slotted)
    (hr : m.env.heap.Retains m'.env.heap) : m'.Performing t p values' left := by
  obtain ⟨f, state, hf, hrealizes, hcode, hslots, hspells⟩ := hm
  refine ⟨f, state, ?_, hrealizes.mono hr hs, hcode, hslots, hspells⟩
  rw [hthread, hf]
  rfl

theorem Performing.stack (hm : m.Performing t p values left) :
    m.thread.stack = t.stack ++ values := by
  obtain ⟨f, state, hf, -⟩ := hm
  rw [hf]
  rfl

/-- The next instruction is fetched. -/
theorem Performing.next (hm : m.Performing t p values (i :: left))
    (hcode : p.chunk.code.size ≤ Code.maxSize) (hdebug : t.debug.debugger = none) :
    ∃ m₁, m₁.Performing t p values left ∧ m.env.Retains m₁.env ∧
      ∀ fuel, execute (fuel + 1) m = (perform (execute fuel) i >>= fun _ => execute fuel) m₁ := by
  obtain ⟨f, state, hf, hrealizes, hfcode, hslots, hspells⟩ := hm
  cases hspells with
  | @cons _ next _ _ hi hrest =>
    have hback : m.thread.frames.back? = some f := by
      rw [hf]
      exact Array.back?_push
    have hactive : m.thread.returnFrame < m.thread.frames.size := by
      rw [hf]
      show t.frames.size < (t.frames.push f).size
      rw [Array.size_push]
      omega
    have hdebug : m.thread.debug.debugger = none := by
      rw [hf]
      exact hdebug
    obtain ⟨op, hstep⟩ := step_of_instruction? hback (by rwa [hfcode]) hi
    refine ⟨m.advanced f op next, ?_, m.env.retains_report _ _, fun fuel => ?_⟩
    · exact ⟨{ f with ip := next, ipLast := f.ip }, state, thread_advanced hf op next, hrealizes,
        hfcode, hslots, hrest⟩
    · rw [execute_of_active hactive hdebug, bind_of_same (hstep _)]

theorem execute_of_inactive (hm : ¬ m.thread.returnFrame < m.thread.frames.size) (fuel : Nat) :
    execute fuel m = .ok () m := by
  have hrun : ¬ m.thread.isActive = true := fun h => hm (of_decide_eq_true h)
  cases fuel with
  | zero => exact if_neg hrun
  | succ fuel => exact if_neg hrun

/-- An instruction that is carried out is done with. -/
theorem proceeds_of_perform {m₁ : Machine}
    (hstep : ∀ fuel, execute (fuel + 1) m = (perform (execute fuel) i >>= fun _ => execute fuel) m₁)
    (hi : EndsIn (fun fuel => perform (execute fuel) i) m₁ (.ok () m')) : m.Proceeds m' := by
  obtain ⟨n, hi⟩ := hi
  refine ⟨1, n, fun fuel hfuel => ?_⟩
  rw [hstep, bind_of_ok (hi fuel hfuel)]

/-- An instruction that fails ends the execution. -/
theorem endsIn_of_perform {m₁ : Machine} {e : Halt Fault}
    (hstep : ∀ fuel, execute (fuel + 1) m = (perform (execute fuel) i >>= fun _ => execute fuel) m₁)
    (hi : EndsIn (fun fuel => perform (execute fuel) i) m₁ (.error e m')) :
    EndsIn execute m (.error e m') := by
  obtain ⟨n, hi⟩ := hi
  refine ⟨n + 1, fun fuel hfuel => ?_⟩
  obtain ⟨fuel, rfl⟩ := Nat.exists_eq_add_of_le' (show 1 ≤ fuel by omega)
  rw [hstep, bind_of_error (hi fuel (by omega))]

/-! ### Imports -/

/-- What an import comes to is up to the loading of the class. -/
theorem perform_importClass {name : String} {index : UInt32} {v : Value}
    (hconstant : constantAt index.toNat m = .ok v m) (htext : m.env.heap.text? v = some name)
    (executor : Exec Unit) :
    perform executor (.importClass index) m = (do
      if ← (Load.loadClass executor name).toExec then pure ()
      else fault (.notImported name) : Exec Unit) m := by
  show importClass executor index.toNat m = _
  unfold importClass
  rw [bind_of_ok hconstant]
  refine (bind_of_ok rfl).trans ?_
  rw [htext]

theorem perform_import {name : String} (hm : m.Performing t p values left) (hi : p.Imports i name)
    (executor : Exec Unit) :
    perform executor i m = (do
      if ← (Load.loadClass executor name).toExec then pure ()
      else fault (.notImported name) : Exec Unit) m := by
  obtain ⟨index, rfl, hconstant⟩ := hi
  obtain ⟨f, state, hf, ⟨g, hg, -, -, htexts⟩, -⟩ := hm
  rw [← Array.getElem?_toList] at hconstant
  obtain ⟨v, hv, htext⟩ := Option.bind_eq_some_iff.1 (htexts index.toNat name hconstant)
  have hback : m.thread.frames.back? = some f := by
    rw [hf]
    exact Array.back?_push
  have hconstant : constantAt index.toNat m = .ok v m := by
    unfold constantAt
    rw [bind_of_ok (frame_of_back? hback)]
    refine (bind_of_ok rfl).trans ?_
    rw [hg, Option.bind_some, hv]
    rfl
  exact perform_importClass hconstant htext executor

theorem endsIn_import {name : String} (hm : m.Performing t p values left) (hi : p.Imports i name)
    (hload : EndsIn (fun fuel => Load.loadClass (execute fuel) name) m (.ok true m')) :
    EndsIn (fun fuel => perform (execute fuel) i) m (.ok () m') := by
  obtain ⟨n, hload⟩ := hload
  refine ⟨n, fun fuel hfuel => (perform_import hm hi _).trans ?_⟩
  have htrue : (Load.loadClass (execute fuel) name).toExec m = .ok true m' :=
    adaptExcept_of_ok (hload fuel hfuel) _
  rw [bind_of_ok htrue]
  rfl

/-- An import fails where the loading of the class does. -/
theorem endsIn_import_of_refused {name : String} (hm : m.Performing t p values left)
    (hi : p.Imports i name) {r : EStateM.Result (Halt RegistryError) Machine Bool}
    (hload : EndsIn (fun fuel => Load.loadClass (execute fuel) name) m r) (hr : Load.Refused r) :
    ∃ f m', EndsIn (fun fuel => perform (execute fuel) i) m (.error (.error f) m') := by
  obtain ⟨n, hload⟩ := hload
  cases hr with
  | denied m' =>
    refine ⟨.ofCause (.notImported name), m', n, fun fuel hfuel =>
      (perform_import hm hi _).trans ?_⟩
    have hfalse : (Load.loadClass (execute fuel) name).toExec m = .ok false m' :=
      adaptExcept_of_ok (hload fuel hfuel) _
    rw [bind_of_ok hfalse]
    rfl
  | failed e m' =>
    refine ⟨e.toFault, m', n, fun fuel hfuel => (perform_import hm hi _).trans ?_⟩
    have herror : (Load.loadClass (execute fuel) name).toExec m = .error (.error e.toFault) m' :=
      adaptExcept_of_error (hload fuel hfuel) _
    rw [bind_of_error herror]

/-! ### The other instructions -/

/-- A class is made. -/
theorem Performing.newClass (hm : m.Performing t p values left) (hs : m.env.heap.Slotted)
    (hroom : t.stack.size + values.size < Thread.maxStack) (hash : UInt32) (kind : UInt8) :
    ∃ m' c k, (∀ executor, perform executor (.newClass hash kind) m = .ok () m') ∧
      m'.Performing t p (values.push (.object c)) left ∧ m.env.Retains m'.env ∧
      m'.env.heap.class? c = some k ∧ k.kind = .ofOperand kind := by
  let name := (m.env.token? hash).getD (Text.padLeft ' ' 8 (Text.hex hash.toNat))
  have hname := m.env.retains_newString name
  let named := m.env.newString name
  let k : ClassObject := { ClassObject.ofHash hash with
    name := some named.1, kind := .ofOperand kind }
  have hclass := named.2.retains_alloc (.scriptClass k)
  let made := named.2.alloc (.scriptClass k)
  have hs₁ : named.2.heap.Slotted := hname.heap.slotted hs
  have hpush : push (.object made.1) ⟨made.2, m.thread⟩ =
      .ok () ⟨made.2, { m.thread with stack := m.thread.stack.push (.object made.1) }⟩ := by
    unfold push
    rw [if_pos (by rw [hm.stack, Array.size_append]; exact hroom)]
    rfl
  refine ⟨_, made.1, k, fun _ => hpush, hm.restack ?_ hs (hname.trans hclass).heap,
    hname.trans hclass, Heap.class?_eq_some.2 (Heap.get?_alloc_self hs₁ _), rfl⟩
  rw [hm.stack, Array.append_push]

theorem Performing.fromTop? {v : Value} (hm : m.Performing t p (values.push v) left) :
    m.fromTop? 0 = some v := by
  refine fromTop?_eq_some.2 ⟨?_, ?_⟩
  · rw [hm.stack, Array.append_push, Array.size_push]
    omega
  · rw [hm.stack, Array.append_push, Array.size_push]
    exact Array.getElem?_push_size

/-- A class becomes a global that there was not. -/
theorem Performing.defineGlobal {c : Handle} {hash : UInt32}
    (hm : m.Performing t p (values.push (.object c)) left) (hs : m.env.heap.Slotted)
    (hglobal : m.env.globals.get? hash = none) (hconstant : m.env.constants.get? hash = none) :
    ∃ m', (∀ executor, perform executor (.defineGlobal hash) m = .ok () m') ∧
      m'.Performing t p values left ∧
      m'.env = { m.env with globals := m.env.globals.insert hash (.object c) } := by
  let env := { m.env with globals := m.env.globals.insert hash (.object c) }
  have hdefine : Exec.defineGlobal hash (.object c) m = .ok () ⟨env, m.thread⟩ := by
    unfold Exec.defineGlobal
    refine (bind_of_ok rfl).trans ?_
    rw [hglobal, hconstant]
    rfl
  have hpop := pop_of_fromTop? (m := ⟨env, m.thread⟩) hm.fromTop?
  refine ⟨⟨env, { m.thread with stack := m.thread.stack.pop }⟩, fun executor => ?_,
    hm.restack ?_ hs (.refl _), rfl⟩
  · show (peek 0 >>= _) m = _
    rw [bind_of_ok (peek_of_fromTop? (by decide) hm.fromTop?), bind_of_ok hdefine, bind_of_ok hpop]
    rfl
  · show { m.thread with stack := m.thread.stack.pop } = _
    rw [hm.stack, Array.append_push, Array.pop_push]

theorem Performing.push (hm : m.Performing t p values left) (hs : m.env.heap.Slotted)
    (hroom : t.stack.size + values.size < Thread.maxStack) (v : Value) :
    ∃ m', (∀ executor, perform executor (.push v) m = .ok () m') ∧
      m'.Performing t p (values.push v) left ∧ m'.env = m.env := by
  refine ⟨m.mapStack (·.push v), fun executor => ?_, hm.restack ?_ hs (.refl _), rfl⟩
  · show Exec.push v m = _
    unfold Exec.push
    rw [if_pos (by rw [hm.stack, Array.size_append]; exact hroom)]
  · show { m.thread with stack := m.thread.stack.push v } = _
    rw [hm.stack, Array.append_push]

/-- The run is over and its result is on top. -/
theorem Performing.ret {v : Value} (hm : m.Performing t p (values.push v) left)
    (hroom : t.stack.size < Thread.maxStack) :
    ∃ state, ∀ executor, perform executor .ret m = .ok () ⟨m.env, { t with
      stack := t.stack.push v, returnFrame := t.frames.size, state }⟩ := by
  obtain ⟨f, state, hf, -, -, hslots, -⟩ := id hm
  have hback : (m.mapStack (·.pop)).thread.frames.back? = some f := by
    show m.thread.frames.back? = _
    rw [hf]
    exact Array.back?_push
  have hcut : m.thread.stack.pop.shrink f.slots = t.stack := by
    rw [hm.stack, hslots, Array.append_push, Array.pop_push, shrink_append]
  have hpush : Exec.push v ⟨m.env, { m.thread with
      stack := m.thread.stack.pop.shrink f.slots, frames := m.thread.frames.pop }⟩ =
        .ok () ⟨m.env, { m.thread with
          stack := (m.thread.stack.pop.shrink f.slots).push v,
              frames := m.thread.frames.pop }⟩ := by
    unfold Exec.push
    rw [if_pos (by rw [hcut]; exact hroom)]
    rfl
  refine ⟨state, fun executor => ?_⟩
  show (pop >>= _) m = _
  rw [bind_of_ok (pop_of_fromTop? hm.fromTop?), bind_of_ok (frame_of_back? hback)]
  refine (bind_of_ok rfl).trans ((bind_of_ok rfl).trans (hpush.trans ?_))
  rw [hcut, hf]
  unfold Thread.within
  rw [Array.pop_push]

/-- Code that ends as class files do ends the run. -/
theorem Performing.ends {callee : Value} (hm : m.Performing t p #[callee] left)
    (hleft : Instruction.Returns left) (hs : m.env.heap.Slotted)
    (hcode : p.chunk.code.size ≤ Code.maxSize) (hdebug : t.debug.debugger = none)
    (hroom : t.stack.size + 1 < Thread.maxStack) :
    ∃ env v state, m.env.Retains env ∧ EndsIn execute m (.ok () ⟨env, { t with
      stack := t.stack.push v, returnFrame := t.frames.size, state }⟩) := by
  have hlast : ∀ {m : Machine} (values : Array Value) {v : Value},
      m.Performing t p (values.push v) [.ret] →
      ∃ env state, m.env.Retains env ∧ EndsIn execute m (.ok () ⟨env, { t with
        stack := t.stack.push v, returnFrame := t.frames.size, state }⟩) := by
    intro m values v hm
    obtain ⟨m₁, hm₁, hr, hstep⟩ := hm.next hcode hdebug
    obtain ⟨state, hret⟩ := hm₁.ret (by omega)
    refine ⟨m₁.env, state, hr, (proceeds_of_perform hstep (endsIn_of_eq fun _ => hret _)).endsIn ?_⟩
    exact endsIn_of_eq fun fuel => execute_of_inactive (Nat.lt_irrefl _) fuel
  cases hleft with
  | plain =>
    obtain ⟨env, state, hr, hend⟩ := hlast #[] hm
    exact ⟨env, callee, state, hr, hend⟩
  | value v =>
    obtain ⟨m₁, hm₁, hr₁, hstep⟩ := hm.next hcode hdebug
    obtain ⟨m₂, hpush, hm₂, henv⟩ := hm₁.push (hr₁.heap.slotted hs) hroom v
    obtain ⟨env, state, hr₂, hend⟩ := hlast _ hm₂
    rw [henv] at hr₂
    exact ⟨env, v, state, hr₁.trans hr₂,
      (proceeds_of_perform hstep (endsIn_of_eq fun _ => hpush _)).endsIn hend⟩

end Machine

/-! ### Files of a source -/

namespace Source

/-- A source gives a file whenever it is asked for it, with the same bytes. -/
def Gives (source : Source) (file : UInt32) (bytes : List UInt8) : Prop :=
  ∀ n, source.answer n file = .bytes bytes

variable {source : Source} {file : UInt32} {bytes : List UInt8}

theorem Gives.later (h : source.Gives file bytes) : source.later.Gives file bytes :=
  fun n => h (n + 1)

theorem Gives.unique {bytes' : List UInt8} (h : source.Gives file bytes)
    (h' : source.Gives file bytes') : bytes = bytes' :=
  FileAnswer.bytes.inj ((h 0).symm.trans (h' 0))

/-- Files that are listed stay. -/
theorem answer_ofLists (files : List (UInt32 × List UInt8)) (classes : List (String × UInt32))
    (n : Nat) : (ofLists files classes).answer n = (ofLists files classes).answer 0 := by
  have hfiles : ∀ s : Source, s.answer n = s.answer 0 →
      (files.foldl (fun s f => s.insert f.1 f.2) s).answer n =
        (files.foldl (fun s f => s.insert f.1 f.2) s).answer 0 := by
    induction files with
    | nil => exact fun _ h => h
    | cons f rest ih =>
      refine fun s h => ih _ (funext fun file => ?_)
      show (if file = f.1 then _ else s.answer n file) = if file = f.1 then _ else s.answer 0 file
      rw [h]
  have hclasses : ∀ s : Source,
      (classes.foldl (fun s c => s.mapClass c.1 c.2) s).answer = s.answer := by
    induction classes with
    | nil => exact fun _ => rfl
    | cons c rest ih => exact fun s => ih _
  unfold ofLists
  dsimp only
  rw [hclasses]
  exact hfiles _ rfl

theorem gives_ofLists {files : List (UInt32 × List UInt8)} {classes : List (String × UInt32)}
    (h : (ofLists files classes).answer 0 file = .bytes bytes) :
    (ofLists files classes).Gives file bytes := by
  intro n
  rw [answer_ofLists]
  exact h

end Source

/-! ### The run of a file -/

namespace Load

open Exec Machine

variable {env env' : Environment} {t : Thread} {p : Prototype} {is : List Instruction} {h : Handle}
  {f : FunctionObject}

/-- Calling a function without arguments in a run of its own. -/
theorem enter_function (hf : env.heap.function? h = some f) (harity : f.arity = 0)
    (hframes : t.frames.size < Thread.maxFrames) (hroom : t.stack.size < Thread.maxStack)
    (executor : Exec Unit) :
    (do push (.object h)
        pushAll []
        callValue 0
        executor : Exec Unit) (beginRun ⟨env, t⟩) =
      executor ⟨env, t.within (.enter h f.code t.stack.size f.module) #[.object h] .running⟩ := by
  let m : Machine := ⟨env, { t with
    stack := t.stack.push (.object h), returnFrame := t.frames.size, state := .running }⟩
  have hpush : push (.object h) (beginRun ⟨env, t⟩) = .ok () m := if_pos hroom
  have hsize : (t.stack.push (.object h)).size = t.stack.size + 1 := Array.size_push _
  have hpeek : peek 0 m = .ok (.object h) m := by
    refine peek_of_getElem? (by decide) ?_ ?_
    · show 0 < (t.stack.push (.object h)).size
      omega
    · show (t.stack.push (.object h))[(t.stack.push (.object h)).size - 1]? = _
      rw [hsize]
      exact Array.getElem?_push_size
  have hcall := call_of_lt (m := m) hf 0 (by rw [harity]; rfl) hframes
    (by show 0 < (t.stack.push (.object h)).size; omega) (by decide)
  have hcallee : callValue 0 m = .ok () ⟨env,
      t.within (.enter h f.code t.stack.size f.module) #[.object h] .running⟩ := by
    unfold callValue
    rw [bind_of_ok hpeek]
    unfold callCallee
    refine (bind_of_ok rfl).trans ?_
    rw [Heap.function?_eq_some.1 hf]
    refine hcall.trans ?_
    show EStateM.Result.ok () (m.mapFrames (·.push (.enter h f.code
      ((t.stack.push (.object h)).size - 1) f.module))) = _
    rw [hsize]
    rfl
  rw [bind_of_ok hpush]
  refine (bind_of_ok rfl).trans ?_
  rw [bind_of_ok hcallee]

/-- A run that leaves its result ends with the thread as it was. -/
theorem runProtected_of_ok {body : Exec Unit} {v : Value} {state : ThreadState}
    (hbody : body (beginRun ⟨env, t⟩) = .ok () ⟨env', { t with
      stack := t.stack.push v, returnFrame := t.frames.size, state }⟩) :
    runProtected body ⟨env, t⟩ =
      .ok v ⟨env', { t with state := if 0 < t.frames.size then .running else .returned }⟩ := by
  have hpop : (body *> pop) (beginRun ⟨env, t⟩) = .ok v ⟨env', { t with
      returnFrame := t.frames.size, state }⟩ := by
    refine (bind_of_ok hbody).trans ?_
    unfold pop
    dsimp only
    rw [Array.back?_push]
    show EStateM.Result.ok v (Machine.mk env' { t with
      stack := (t.stack.push v).pop, returnFrame := t.frames.size, state }) = _
    rw [Array.pop_push]
  have hwhole : ∀ {α : Type} (xs : Array α), xs.shrink xs.size = xs := fun xs => by
    have h := shrink_append xs #[]
    rwa [Array.append_empty] at h
  unfold runProtected
  rw [hpop]
  unfold endRun mapThread
  dsimp only
  rw [hwhole, hwhole]

theorem runProtected_of_error {body : Exec Unit} {fault : Fault} {m m' : Machine}
    (hbody : body m.beginRun = .error (.error fault) m') :
    runProtected body m = .error (.error (m'.attachTrace fault).1)
      ((m'.attachTrace fault).2.endRun m.thread.stack.size m.thread.frames.size m.thread.returnFrame
        .errored) := by
  have hpop : (body *> pop) m.beginRun = .error (.error fault) m' := bind_of_error hbody
  unfold runProtected
  rw [hpop]

/-- A file that is read into a module is run by calling the first function of the module. -/
theorem runFile_of_entry {bytes : List UInt8} {c : Container} {file : UInt32} {module : Handle}
    (hd : Container.decode bytes = .ok c) (hload : env.loadModule c file = (module, env'))
    (hentry : env'.entryFunction? module = some h) (hf : env'.heap.function? h = some f)
    (harity : f.arity = 0) (hframes : t.frames.size < Thread.maxFrames)
    (hroom : t.stack.size < Thread.maxStack) :
    let m₁ : Machine :=
      ⟨env', t.within (.enter h f.code t.stack.size f.module) #[.object h] .running⟩
    (∀ env'' v state, EndsIn execute m₁ (.ok () ⟨env'', { t with
        stack := t.stack.push v, returnFrame := t.frames.size, state }⟩) →
      ∃ state', EndsIn (fun fuel => runFile (execute fuel) bytes file) ⟨env, t⟩
        (.ok () ⟨env'', { t with state := state' }⟩)) ∧
    ∀ fault m', EndsIn execute m₁ (.error (.error fault) m') →
      ∃ e m'', EndsIn (fun fuel => runFile (execute fuel) bytes file) ⟨env, t⟩
        (.error (.error e) m'') := by
  intro m₁
  have hread : readModule bytes file ⟨env, t⟩ = .ok module ⟨env', t⟩ := by
    simp only [readModule, Environment.readModule, hd, Except.map, hload]
  have henter := enter_function (t := t) hf harity hframes hroom
  have hrun : ∀ executor, runFile executor bytes file ⟨env, t⟩ =
      (do let _ ← ofExec (runValue executor (.object h) []) : Load Unit) ⟨env', t⟩ := by
    intro executor
    unfold runFile
    rw [bind_of_ok hread]
    refine (bind_of_ok rfl).trans ?_
    dsimp only
    rw [hentry]
  refine ⟨?_, ?_⟩
  · rintro env'' v state ⟨n, hend⟩
    refine ⟨if 0 < t.frames.size then .running else .returned, n, fun fuel hfuel => ?_⟩
    have hbody := runProtected_of_ok ((henter _).trans (hend fuel hfuel))
    exact (hrun _).trans (bind_of_ok (adaptExcept_of_ok hbody _))
  · rintro fault m' ⟨n, hend⟩
    refine ⟨.vm (m'.attachTrace fault).1, (m'.attachTrace fault).2.endRun t.stack.size t.frames.size
      t.returnFrame .errored, n, fun fuel hfuel => ?_⟩
    have hbody := runProtected_of_error ((henter _).trans (hend fuel hfuel))
    exact (hrun _).trans (bind_of_error (adaptExcept_of_error hbody _))

/-- The run of a file begins with the first function of its container, and ends as that does. -/
theorem runFile_begins {bytes : List UInt8} {c : Container} {rest : List Prototype}
    (hd : Container.decode bytes = .ok c) (hc : c.functions = p :: rest) (harity : p.arity = 0)
    (hspells : Code.Spells p.chunk.code 0 is) (hs : env.heap.Slotted)
    (hframes : t.frames.size < Thread.maxFrames) (hroom : t.stack.size < Thread.maxStack)
    (file : UInt32) :
    ∃ m₁ callee, m₁.Performing t p #[callee] is ∧ env.Retains m₁.env ∧
      (∀ env' v state, EndsIn execute m₁ (.ok () ⟨env', { t with
          stack := t.stack.push v, returnFrame := t.frames.size, state }⟩) →
        ∃ state', EndsIn (fun fuel => runFile (execute fuel) bytes file) ⟨env, t⟩
          (.ok () ⟨env', { t with state := state' }⟩)) ∧
      ∀ fault m', EndsIn execute m₁ (.error (.error fault) m') →
        ∃ e m'', EndsIn (fun fuel => runFile (execute fuel) bytes file) ⟨env, t⟩
          (.error (.error e) m'') := by
  have hr := (env.fills_loadModule c file).retains
  obtain ⟨h, hentry, f, hf, hcode, hfarity, htexts⟩ :=
    Environment.entryFunction?_loadModule hs hc file
  refine ⟨⟨(env.loadModule c file).2, t.within (.enter h f.code t.stack.size f.module) #[.object h]
    .running⟩, .object h, ?_, hr, ?_⟩
  · exact ⟨_, _, rfl, ⟨f, hf, hcode, hfarity, htexts⟩, hcode, rfl, by rwa [hcode]⟩
  · exact runFile_of_entry hd rfl hentry hf (hfarity.trans harity) hframes hroom

/-! ### The loading of a class -/

variable {m : Machine} {l : Loader} {name : String} {file : UInt32}

/-- Where a class has files, its load comes down to running them. -/
theorem loadClass_of_mapped {files : List UInt32} (hname : name ≠ "") (hl : m.env.loader = some l)
    (hfiles : l.source.classMap.files? (hashName name) = some files) (executor : Exec Unit) :
    loadClass executor name m = (do
      if ← loadFiles executor name files.length true files then bindClass name (hashName name)
      else return false : Load Bool) m := by
  have hempty : ¬ name.isEmpty = true := fun h => hname (String.isEmpty_iff.1 h)
  unfold loadClass
  rw [if_neg hempty]
  refine (bind_of_ok rfl).trans ?_
  rw [hl]
  dsimp only
  rw [hfiles]

theorem fetch_of_mem (hl : m.env.loader = some l) (hfile : file ∈ l.fetched) :
    fetch file m = .ok .cached m := by
  have hfetch : l.fetch file = (.ok .cached, l) := if_pos (List.contains_iff_mem.2 hfile)
  unfold fetch
  rw [hl]
  dsimp only
  rw [hfetch, ← hl]

theorem fetch_of_not_mem {bytes : List UInt8} (hl : m.env.loader = some l)
    (hfile : file ∉ l.fetched) (hbytes : l.source.Gives file bytes) :
    fetch file m = .ok (.fresh bytes) { m with
      env := { m.env with loader := some { l.asked with fetched := file :: l.fetched } } } := by
  have hfetch :
      l.fetch file = (.ok (.fresh bytes), { l.asked with fetched := file :: l.fetched }) := by
    refine (if_neg fun h => hfile (List.contains_iff_mem.1 h)).trans ?_
    rw [hbytes 0]
  unfold fetch
  rw [hl]
  dsimp only
  rw [hfetch]

/-- A file that was fetched is not run again. -/
theorem loadClass_of_fetched (hname : name ≠ "") (hl : m.env.loader = some l)
    (hfiles : l.source.classMap.files? (hashName name) = some [file]) (hfile : file ∈ l.fetched)
    (executor : Exec Unit) : loadClass executor name m = bindClass name (hashName name) m := by
  have hload : loadFiles executor name [file].length true [file] m = .ok true m :=
    bind_of_ok (fetch_of_mem hl hfile)
  rw [loadClass_of_mapped hname hl hfiles, bind_of_ok hload, if_pos rfl]

/-- Another file is fetched and run. -/
theorem loadClass_of_new {bytes : List UInt8} (hname : name ≠ "") (hl : m.env.loader = some l)
    (hfiles : l.source.classMap.files? (hashName name) = some [file]) (hfile : file ∉ l.fetched)
    (hbytes : l.source.Gives file bytes) :
    ∃ log, ∀ executor, loadClass executor name m =
      (runFile executor bytes file >>= fun _ => bindClass name (hashName name))
        ⟨{ m.env with loader := some { l.asked with fetched := file :: l.fetched }, log },
          m.thread⟩ := by
  refine ⟨m.env.log.add .debug fun _ => s!"Loading the object {name} class, {1} filenames...",
    fun executor => ?_⟩
  have hload : loadFiles executor name [file].length true [file] m =
      (runFile executor bytes file >>= fun _ => pure true) ⟨_, m.thread⟩ :=
    (bind_of_ok (fetch_of_not_mem hl hfile hbytes)).trans (bind_of_ok rfl)
  rw [loadClass_of_mapped hname hl hfiles, bind_of_same hload, bind_assoc]
  rfl

/-- A class that is on record is not bound again. -/
theorem bindClass_of_mem {hash : UInt32} (hl : m.env.loader = some l)
    (hbound : hash ∈ l.boundClasses) : bindClass name hash m = .ok true m := by
  refine (bind_of_ok rfl).trans ?_
  rw [hl]
  dsimp only
  rw [if_pos (List.contains_iff_mem.2 hbound)]
  rfl

/-- A class that is not there is not bound. -/
theorem bindClass_of_none {hash : UInt32} (hl : m.env.loader = some l)
    (hnew : hash ∉ l.boundClasses) (hc : m.env.classByHash? hash = none) :
    bindClass name hash m =
      .ok false
        { m with env := m.env.report .error fun _ => s!"Could not find class of {name}" } := by
  refine (bind_of_ok rfl).trans ?_
  rw [hl]
  dsimp only
  rw [if_neg fun h => hnew (List.contains_iff_mem.1 h), hc]
  rfl

/-- A class that its file has defined is bound. -/
theorem bindClass_of_class {hash : UInt32} {c : Handle} {k : ClassObject}
    (hl : m.env.loader = some l) (hnew : hash ∉ l.boundClasses)
    (hc : m.env.classByHash? hash = some c) (hk : m.env.heap.class? c = some k)
    (hstandard : m.env.isStandardClass name = false) :
    ∃ env, bindClass name hash m = .ok true ⟨env, m.thread⟩ ∧ m.env.heap.Retains env.heap ∧
      env.globals = m.env.globals ∧ env.constants = m.env.constants ∧
      env.classes = m.env.classes.push c ∧
      env.loader = some { l with
        boundClasses := hash :: l.boundClasses
        binder := if k.kind = .extended then l.binder
          else l.binder.map fun b => { b with bound := b.bound.push name } } := by
  have hstart : bindClass name hash m = _ := Exec.bind_of_ok rfl
  rw [hl] at hstart
  dsimp only at hstart
  rw [if_neg fun h => hnew (List.contains_iff_mem.1 h), hc] at hstart
  dsimp only at hstart
  have hkind : ((m.env.heap.class? c).map (·.kind) == some ClassKind.extended) =
      decide (k.kind = .extended) := by
    rw [hk]
    exact decide_eq_decide.2 (by simp)
  rw [hkind, hstandard] at hstart
  have hmapped : m.env.loader.map (fun l => { l with boundClasses := hash :: l.boundClasses }) =
      some { l with boundClasses := hash :: l.boundClasses } :=
    congrArg (Option.map _) hl
  cases hbinder : l.binder with
  | none =>
    rw [hbinder] at hstart
    refine ⟨_, hstart, .refl _, rfl, rfl, rfl, hmapped.trans ?_⟩
    rw [hbinder]
    split <;> rfl
  | some b =>
    rw [hbinder] at hstart
    dsimp only at hstart
    by_cases hextended : k.kind = .extended
    · rw [if_neg (by simp [hextended])] at hstart
      refine ⟨_, hstart, .refl _, rfl, rfl, rfl, hmapped.trans ?_⟩
      rw [if_pos hextended, hbinder]
    · rw [if_pos (by simp [hextended])] at hstart
      obtain ⟨env, hr, hbinds⟩ := Environment.retains_bindMembers _ b c name
      refine ⟨_, hstart, ?_, (congrArg Environment.globals hbinds).trans hr.globals,
        (congrArg Environment.constants hbinds).trans hr.constants,
        (congrArg Environment.classes hbinds).trans hr.loads.classes, ?_⟩
      · have hheap := hr.heap
        rwa [← congrArg Environment.heap hbinds] at hheap
      · refine (congrArg Environment.loader hbinds).trans
          ((congrArg (Option.map _) hmapped).trans ?_)
        rw [if_neg hextended, hbinder]
        rfl

end Load
end ScriptVm
