import ScriptVm.Proofs.Environment.Stripping
import ScriptVm.Proofs.Machine.ClassMembers
import ScriptVm.Proofs.Machine.Properties

/-!
# Actions that leave the cells of the host alone

Numbers of the host are read and written through linked values. An action that comes across none of
them does the same whatever the numbers are, and leaves them as they are.

* `withCells` is an environment or a machine with other numbers in the cells.
* `Disregards` says of an action and a machine that the outcome is the same whatever is in
  the cells, but for what is in the cells. `Disregards.bind` follows the actions that are
  made of others.
* `findMember_withCells` and `property?_withCells` say that members and properties are found without
  a look at the cells.
* `disregards_getProperty`, `disregards_setProperty`, `disregards_hasProperty` and
  `disregards_invokeOnInstance` are the accesses to what is not linked.
-/

namespace ScriptVm

/-- The environment with other numbers in the cells. -/
def Environment.withCells (env : Environment) (cells : Cells) : Environment :=
  { env with memory := { env.memory with cells } }

/-- The machine with other numbers in the cells. -/
def Machine.withCells (m : Machine) (cells : Cells) : Machine :=
  { m with env := m.env.withCells cells }

/-- Natives that neither look at the cells nor write them. -/
def Natives.DisregardCells (natives : Natives) : Prop :=
  ∀ name (mem : Memory) args cells, natives name { mem with cells } args =
    ((natives name mem args).1, { (natives name mem args).2 with cells })

theorem Value.Plain.link?_eq_none {v : Value} (hv : v.Plain) : v.link? = none :=
  Option.eq_none_iff_forall_ne_some.2 fun l hl => hv l (Link.link?_eq_some.1 hl)

/-! ### Searches -/

namespace Environment

variable {env : Environment} {cells : Cells}

theorem heap_withCells (env : Environment) (cells : Cells) :
    (env.withCells cells).heap = env.heap := rfl

theorem classByHash?_withCells (env : Environment) (cells : Cells) :
    (env.withCells cells).classByHash? = env.classByHash? := rfl

theorem resolveParent_withCells (env : Environment) (cells : Cells) (c : Handle) :
    (env.withCells cells).resolveParent c =
      ((env.resolveParent c).1, (env.resolveParent c).2.withCells cells) := by
  unfold resolveParent
  rw [heap_withCells, classByHash?_withCells]
  cases env.heap.class? c with
  | none => rfl
  | some k =>
    dsimp only
    cases k.parent with
    | some p => rfl
    | none =>
      dsimp only
      cases k.parentHash.bind env.classByHash? <;> rfl

theorem walk_withCells (env : Environment) (cells : Cells) (first : Handle) (hash : UInt32)
    (left : Nat) (current : Option Handle) (bound : Bool) :
    walk first hash left current bound (env.withCells cells) =
      ((walk first hash left current bound env).1,
        (walk first hash left current bound env).2.withCells cells) := by
  induction left generalizing env current bound with
  | zero => cases current <;> rfl
  | succ left ih =>
    cases current with
    | none => rfl
    | some c =>
      unfold walk
      rw [heap_withCells]
      cases env.heap.class? c with
      | none => rfl
      | some k =>
        dsimp only
        cases ownMember? k hash with
        | some v => rfl
        | none =>
          -- resolving the parent may have changed the environment that the search goes on in
          dsimp only
          rw [resolveParent_withCells]
          exact ih _ _ _

theorem findMember_withCells (env : Environment) (cells : Cells) (c : Handle) (hash : UInt32) :
    (env.withCells cells).findMember c hash =
      ((env.findMember c hash).1, (env.findMember c hash).2.withCells cells) :=
  env.walk_withCells cells c hash maxChain (some c) false

theorem property?_withCells (env : Environment) (cells : Cells) (v : Value) (hash : UInt32) :
    (env.withCells cells).property? v hash =
      ((env.property? v hash).1, (env.property? v hash).2.withCells cells) := by
  unfold property?
  rw [show (env.withCells cells).origin? v = env.origin? v from rfl]
  cases env.origin? v with
  | none => rfl
  | some origin =>
    dsimp only
    cases origin.1.get? hash with
    | some field => rfl
    | none => exact env.findMember_withCells cells origin.2 hash

/-- What is made of a property that is not linked. -/
theorem settle_withCells (env : Environment) (cells : Cells) (object : Value) (hash : UInt32)
    {found : Value} (hfound : found.Plain) : (env.withCells cells).settle object hash found =
      ((env.settle object hash found).1, (env.settle object hash found).2.withCells cells) := by
  unfold settle
  rw [show (env.withCells cells).bindable? object hash found =
    env.bindable? object hash found from rfl]
  cases env.bindable? object hash found with
  | some f => rfl
  | none =>
    refine congrArg (Prod.mk · _) ?_
    rw [Value.delink_of_plain hfound, Value.delink_of_plain hfound]

end Environment

namespace Exec

open Machine

variable {α β : Type} {m m' : Machine} {h c : Handle} {i : InstanceObject} {v : Value}
  {hash : UInt32} {argc : Nat} {cells : Cells}

/-! ### Actions -/

/-- An outcome with other numbers in the cells. -/
def withCells (cells : Cells) :
    EStateM.Result (Halt Fault) Machine α → EStateM.Result (Halt Fault) Machine α
  | .ok a m => .ok a (m.withCells cells)
  | .error e m => .error e (m.withCells cells)

/-- The outcome of an action is the same whatever is in the cells, and what is in them stays. -/
def Disregards (x : Exec α) (m : Machine) : Prop :=
  ∀ cells, x (m.withCells cells) = withCells cells (x m)

/-- What does not depend on the cells does not write them. -/
theorem Disregards.cells_eq {x : Exec α} (hx : Disregards x m) :
    (after x m).env.memory.cells = m.env.memory.cells := by
  have hrun : x m = withCells m.env.memory.cells (x m) := hx m.env.memory.cells
  unfold after
  rw [hrun]
  cases x m <;> rfl

theorem Disregards.bind {x : Exec α} {f : α → Exec β} (hx : Disregards x m)
    (hf : ∀ a m', x m = .ok a m' → Disregards (f a) m') : Disregards (x >>= f) m := by
  intro cells
  have hfirst := hx cells
  cases hrun : x m with
  | ok a m' =>
    rw [hrun] at hfirst
    rw [bind_of_ok hfirst, bind_of_ok hrun]
    exact hf a m' hrun cells
  | error e m' =>
    rw [hrun] at hfirst
    rw [bind_of_error hfirst, bind_of_error hrun]
    rfl

/-- After an action that changes nothing. -/
theorem Disregards.look {x : Exec α} {f : α → Exec β} (hx : Disregards x m) (hsame : after x m = m)
    (hf : ∀ a, Disregards (f a) m) : Disregards (x >>= f) m := by
  refine hx.bind fun a m' hrun => ?_
  rw [after_of_ok hrun] at hsame
  exact hsame ▸ hf a

theorem disregards_pure (a : α) : Disregards (pure a) m := fun _ => rfl

theorem disregards_fault (cause : Cause) : Disregards (fault cause : Exec α) m := fun _ => rfl

theorem disregards_ofOption (cause : Cause) (o : Option α) : Disregards (ofOption cause o) m := by
  cases o with
  | some a => exact disregards_pure a
  | none => exact disregards_fault cause

theorem disregards_ofExcept (r : Except Cause α) : Disregards (ofExcept r) m := by
  cases r with
  | ok a => exact disregards_pure a
  | error cause => exact disregards_fault cause

theorem disregards_size (n : Nat) : Disregards (size n) m := by
  intro cells
  unfold size
  split <;> rfl

theorem disregards_heightBelow (count : Nat) : Disregards (heightBelow count) m := by
  intro cells
  unfold heightBelow
  show (if count ≤ m.thread.stack.size then _ else _) = _
  split <;> rfl

theorem disregards_valueAt (index : Nat) : Disregards (valueAt index) m := by
  intro cells
  unfold valueAt
  rw [show (m.withCells cells).thread = m.thread from rfl]
  cases m.thread.stack[index]? <;> rfl

theorem disregards_setValueAt (index : Nat) (v : Value) : Disregards (setValueAt index v) m := by
  intro cells
  unfold setValueAt
  show (if index < m.thread.stack.size then _ else _) = _
  split <;> rfl

theorem disregards_valuesFrom (start : Nat) : Disregards (valuesFrom start) m := by
  intro cells
  unfold valuesFrom
  show (if start ≤ m.thread.stack.size then _ else _) = _
  split <;> rfl

theorem disregards_enter (f : Frame) : Disregards (enter f) m := by
  intro cells
  unfold enter
  show (if m.thread.frames.size < Thread.maxFrames then _ else _) = _
  split <;> rfl

theorem disregards_push (v : Value) : Disregards (push v) m := by
  intro cells
  unfold push
  show (if m.thread.stack.size < Thread.maxStack then _ else _) = _
  split <;> rfl

theorem disregards_pop : Disregards pop m := by
  intro cells
  unfold pop
  rw [show (m.withCells cells).thread = m.thread from rfl]
  cases m.thread.stack.back? <;> rfl

theorem disregards_peek (depth : Nat) : Disregards (peek depth) m :=
  (disregards_size _).bind fun _ _ _ => (disregards_heightBelow _).bind fun _ _ _ =>
    disregards_valueAt _

theorem disregards_setPeek (depth : Nat) (v : Value) : Disregards (setPeek depth v) m :=
  (disregards_size _).bind fun _ _ _ => (disregards_heightBelow _).bind fun _ _ _ =>
    disregards_setValueAt _ v

theorem disregards_onEnvironment {f : Environment → α × Environment}
    (hf : ∀ cells, f (m.env.withCells cells) = ((f m.env).1, (f m.env).2.withCells cells)) :
    Disregards (onEnvironment f) m := by
  intro cells
  have hrun : onEnvironment f (m.withCells cells) =
      .ok (f (m.env.withCells cells)).1 ⟨(f (m.env.withCells cells)).2, m.thread⟩ := rfl
  rw [hrun, hf]
  rfl

/-- A look at the environment is the same if what follows does not look at the cells in it. -/
theorem disregards_environment {k : Environment → Exec β}
    (hk : ∀ cells, k (m.env.withCells cells) = k m.env)
    (hm : Disregards (k m.env) m) : Disregards (environment >>= k) m := by
  intro cells
  show k (m.env.withCells cells) (m.withCells cells) = _
  rw [hk]
  exact hm cells

/-! ### Properties -/

theorem disregards_hasProperty (v : Value) (hash : UInt32) : Disregards (hasProperty v hash) m := by
  intro cells
  rw [hasProperty_eq, hasProperty_eq]
  have hfound := m.env.property?_withCells cells v hash
  change (m.withCells cells).env.property? v hash = _ at hfound
  rw [hfound]
  rfl

theorem disregards_getProperty (hplain : ∀ w, (m.env.property? v hash).1 = some w → w.Plain) :
    Disregards (getProperty v hash) m := by
  intro cells
  have hfound : (m.withCells cells).env.property? v hash = _ :=
    m.env.property?_withCells cells v hash
  cases hw : (m.env.property? v hash).1 with
  | none =>
    rw [getProperty_of_none hw, getProperty_of_none (by rw [hfound]; exact hw), hfound]
    rfl
  | some w =>
    rw [getProperty_of_some hw, getProperty_of_some (by rw [hfound]; exact hw), hfound]
    dsimp only
    rw [Environment.settle_withCells _ _ _ _ (hplain w hw)]
    rfl

/-- Reading a property writes no cell. -/
theorem cells_getProperty (v : Value) (hash : UInt32) (m : Machine) :
    (after (getProperty v hash) m).env.memory.cells = m.env.memory.cells := by
  have hcells : (m.env.property? v hash).2.memory.cells = m.env.memory.cells := by
    have hfound := m.env.property?_withCells m.env.memory.cells v hash
    rw [show m.env.property? v hash = _ from hfound]
    rfl
  cases hw : (m.env.property? v hash).1 with
  | none =>
    rw [after_of_error (getProperty_of_none hw)]
    exact hcells
  | some w =>
    rw [after_of_ok (getProperty_of_some hw)]
    obtain hsame | ⟨f, halloc⟩ := (m.env.property? v hash).2.settle_cases v hash w
    · rw [hsame]
      exact hcells
    · rw [halloc]
      exact hcells

/-- Writing a plain value to what is not linked. -/
theorem disregards_setProperty {fields : Table Value}
    (hfields : (m.env.heap.get? h).bind fieldsOf? = some fields)
    (hslot : ∀ slot, fields.get? hash = some slot → slot.Plain) (hv : v.Plain) :
    Disregards (setProperty (.object h) hash v) m := by
  intro cells
  replace hslot : ∀ slot, fields.get? hash = some slot → slot.link? = none := fun slot hget =>
    (hslot slot hget).link?_eq_none
  rw [setProperty_of_plain hfields hslot,
    setProperty_of_plain (m := m.withCells cells) hfields hslot,
    Value.delink_of_plain hv, Value.delink_of_plain hv]
  rfl

/-! ### Calls -/

theorem disregards_call (function : Handle) (argc : Nat) : Disregards (call function argc) m := by
  intro cells
  have hcall : Disregards (do
      let f ← ofOption .notCallable (m.env.heap.function? function)
      if f.arity.toInt ≠ argc then fault (.wrongArity f.arity.toInt argc)
      else if Thread.maxFrames ≤ m.thread.frames.size then
        fault (.frameOverflow m.thread.frames.size Thread.maxFrames)
      else
        let slots ← heightBelow (← size (argc + 1))
        enter (.enter function f.code slots f.module)) m := by
    refine (disregards_ofOption _ _).bind fun f m' _ => ?_
    split
    · exact disregards_fault _
    · split
      · exact disregards_fault _
      · refine (disregards_size _).bind fun n m' _ => ?_
        exact (disregards_heightBelow n).bind fun slots _ _ => disregards_enter _
  exact hcall cells

theorem after_heightBelow (count : Nat) (m : Machine) : after (heightBelow count) m = m := by
  unfold after heightBelow
  by_cases hc : count ≤ m.thread.stack.size <;> simp [hc]

theorem after_valuesFrom (start : Nat) (m : Machine) : after (valuesFrom start) m = m := by
  unfold after valuesFrom
  by_cases hs : start ≤ m.thread.stack.size <;> simp [hs]

theorem disregards_callNative (hn : m.env.natives.DisregardCells) (name : String)
    (passed consumed : Nat) : Disregards (callNative name passed consumed) m := by
  refine (disregards_heightBelow passed).look (after_heightBelow passed m) fun start => ?_
  refine (disregards_heightBelow consumed).look (after_heightBelow consumed m) fun base => ?_
  refine (disregards_valuesFrom start).look (after_valuesFrom start m) fun args => ?_
  refine disregards_environment (fun _ => rfl) ?_
  refine Disregards.bind (disregards_onEnvironment fun cells => ?_) fun r m' _ => ?_
  · show ((m.env.natives name { m.env.memory with cells } args).1,
      { m.env.withCells cells with
        memory := (m.env.natives name { m.env.memory with cells } args).2 }) = _
    rw [hn]
    rfl
  · refine (disregards_ofExcept r).bind fun v _ _ => ?_
    exact Disregards.bind (x := truncate base) (fun _ => rfl) fun _ _ _ => disregards_push v

theorem disregards_callCallee (hn : m.env.natives.DisregardCells) (callee : Value) (argc : Nat) :
    Disregards (callCallee callee argc) m := by
  refine disregards_environment (fun _ => rfl) ?_
  dsimp only
  split
  · split
    · exact (disregards_setPeek _ _).bind fun _ _ _ => disregards_call _ argc
    · exact disregards_call _ argc
    · exact disregards_callNative hn _ _ _
    · exact disregards_fault _
  · exact disregards_fault _

theorem disregards_callForObject (hn : m.env.natives.DisregardCells) (callee : Value) (argc : Nat) :
    Disregards (callForObject callee argc) m := by
  refine disregards_environment (fun _ => rfl) ?_
  dsimp only
  split
  · split
    · exact disregards_callNative hn _ _ _
    · exact disregards_callCallee hn _ argc
  · exact disregards_fault _

/-- A number cannot be called, whichever it is. -/
theorem callForObject_delink (callee : Value) (cells cells' : Cells) (argc : Nat) :
    callForObject (callee.delink cells) argc = callForObject (callee.delink cells') argc := by
  cases callee <;> rfl

theorem disregards_invokeFromClass (hn : m.env.natives.DisregardCells) (c : Handle) (hash : UInt32)
    (argc : Nat) : Disregards (invokeFromClass c hash argc) m := by
  refine Disregards.bind
    (disregards_onEnvironment fun cells => m.env.findMember_withCells cells c hash)
    fun found m' hrun => ?_
  have hn' : m'.env.natives.DisregardCells := by
    cases hrun
    exact (m.env.natives_findMember c hash).symm ▸ hn
  cases found with
  | none => exact disregards_environment (fun _ => rfl) (disregards_fault _)
  | some method =>
    intro cells
    show callForObject (method.delink cells) argc (m'.withCells cells) = _
    rw [callForObject_delink method cells m'.env.memory.cells]
    exact disregards_callForObject hn' _ argc cells

/-- A call of a member of an instance, by name, comes to the same call whatever is in the cells. -/
theorem disregards_invokeOnInstance (hn : m.env.natives.DisregardCells)
    (hfield : ∀ field, i.fields.get? hash = some field → field.Plain) (argc : Nat)
    (isSuper : Bool) : Disregards (invokeOnInstance i hash argc isSuper) m := by
  unfold invokeOnInstance
  cases isSuper with
  | true =>
    refine Disregards.bind
      (disregards_onEnvironment fun cells => m.env.resolveParent_withCells cells i.classHandle)
      fun parent m' hrun => ?_
    have hn' : m'.env.natives.DisregardCells := by
      cases hrun
      exact (m.env.natives_resolveParent i.classHandle).symm ▸ hn
    cases parent with
    | none => exact disregards_fault _
    | some c => exact disregards_invokeFromClass hn' c hash argc
  | false =>
    rw [if_neg Bool.false_ne_true]
    cases hf : i.fields.get? hash with
    | none => exact disregards_invokeFromClass hn _ hash argc
    | some field =>
      intro cells
      show callCallee (field.delink cells) argc (m.withCells cells) =
        withCells cells (callCallee (field.delink m.env.memory.cells) argc m)
      rw [Value.delink_of_plain (hfield field hf), Value.delink_of_plain (hfield field hf)]
      exact disregards_callCallee hn field argc cells

end Exec
end ScriptVm
