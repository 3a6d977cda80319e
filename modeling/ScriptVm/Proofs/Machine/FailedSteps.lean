import ScriptVm.Proofs.Environment.MethodTables
import ScriptVm.Proofs.Environment.Retention
import ScriptVm.Proofs.Machine.Aliasing

/-!
# Failed steps

An instruction that fails has done nothing that lasts, unless it has run a native or the loader.

* `Transient` says what may differ then: the operand stack, the position of the current call, new
  objects, and the parents that classes remember.
* `RunsHost` are the instructions that run code of the host.
* `Fails R x m` says that an action that fails on a machine leaves one that is related to it. What
  an instruction reads comes before what it writes, and nothing fails after that: `fails_perform`
  says so of every instruction.
* `failed_step` is the result.
-/

namespace ScriptVm

/-! ### What does not last -/

namespace Environment

variable {env env' env'' : Environment} {o o' : Obj}

/-- An object is as it was, or it is a class and remembers the parent that it names by now. -/
inductive Recalls (env : Environment) : Obj → Obj → Prop
  | same (o : Obj) : env.Recalls o o
  | parent {k : ClassObject} {p : Handle} : k.parent = none →
      k.parentHash.bind env.classByHash? = some p →
        env.Recalls (.scriptClass k) (.scriptClass { k with parent := some p })

/-- Nothing differs but the log, new objects, and what classes remember. -/
structure Transient (env env' : Environment) : Prop where
  same : env' = { env with memory := env'.memory, log := env'.log }
  cells : env'.memory.cells = env.memory.cells
  entities : env'.memory.entities = env.memory.entities
  slotted : env.heap.Slotted → env'.heap.Slotted
  objects : env.heap.Slotted → ∀ h o, env.heap.get? h = some o →
    ∃ o', env'.heap.get? h = some o' ∧ env'.Recalls o o'

theorem Transient.globals (h : env.Transient env') : env'.globals = env.globals := by
  rw [h.same]

theorem Transient.isClass (h : env.Transient env') (hs : env.heap.Slotted) {c : Handle}
    (hc : env.heap.isClass c = true) : env'.heap.isClass c = true := by
  rw [Heap.isClass, Option.isSome_iff_exists] at hc ⊢
  obtain ⟨k, hk⟩ := hc
  obtain ⟨o', ho', hrecalls⟩ := h.objects hs c _ (Heap.class?_eq_some.1 hk)
  cases hrecalls with
  | same => exact ⟨k, Heap.class?_eq_some.2 ho'⟩
  | parent => exact ⟨_, Heap.class?_eq_some.2 ho'⟩

theorem Transient.classByHash? (h : env.Transient env') (hs : env.heap.Slotted) {hash : UInt32}
    {c : Handle} (hc : env.classByHash? hash = some c) : env'.classByHash? hash = some c := by
  unfold Environment.classByHash? at hc ⊢
  obtain ⟨hfound, hclass⟩ := Option.filter_eq_some_iff.1 hc
  rw [h.globals]
  exact Option.filter_eq_some_iff.2 ⟨hfound, h.isClass hs hclass⟩

theorem Transient.refl (env : Environment) : env.Transient env :=
  ⟨rfl, rfl, rfl, id, fun _ _ o ho => ⟨o, ho, .same o⟩⟩

theorem Transient.trans (h : env.Transient env') (h' : env'.Transient env'') :
    env.Transient env'' := by
  refine ⟨?_, h'.cells.trans h.cells, h'.entities.trans h.entities,
    fun hs => h'.slotted (h.slotted hs), fun hs k o ho => ?_⟩
  · rw [h'.same, h.same]
  · obtain ⟨o', ho', hrecalls⟩ := h.objects hs k o ho
    obtain ⟨o'', ho'', hrecalls'⟩ := h'.objects (h.slotted hs) k o' ho'
    refine ⟨o'', ho'', ?_⟩
    cases hrecalls with
    | same => exact hrecalls'
    | parent hnone hp =>
      -- a class that remembers its parent has nothing more to remember
      cases hrecalls' with
      | parent hpending => cases hpending
      | same =>
        obtain ⟨hash, hhash, hclass⟩ := Option.bind_eq_some_iff.1 hp
        exact .parent hnone
          (Option.bind_eq_some_iff.2 ⟨hash, hhash, h'.classByHash? (h.slotted hs) hclass⟩)

/-- A class that remembers its parent is a class as before. -/
theorem isClass_modifyClass {heap : Heap} {c q : Handle} {f : ClassObject → ClassObject}
    (hq : heap.isClass q = true) : (heap.modifyClass c f).isClass q = true := by
  rw [Heap.isClass, Heap.class?_modifyClass]
  split
  · rename_i hc
    rw [Option.isSome_map, ← hc]
    exact hq
  · exact hq

theorem Search.transient (h : env.Search env') : env.Transient env' := by
  cases h with
  | report level text => exact ⟨rfl, rfl, rfl, id, fun _ _ o ho => ⟨o, ho, .same o⟩⟩
  | @alloc o _ =>
    exact ⟨rfl, rfl, rfl, fun hs => Heap.slotted_alloc hs o,
      fun hs _ p hp => ⟨p, Heap.get?_alloc_of_get? hs o hp, .same p⟩⟩
  | @remember c p k hk hpending hp =>
    refine ⟨rfl, rfl, rfl, fun hs => Heap.slotted_modify hs c _, fun _ h o ho => ?_⟩
    have hget : (env.heap.modifyClass c fun k => { k with parent := some p }).get? h = _ :=
      Heap.get?_modify env.heap c h _
    by_cases hc : h = c
    · rw [if_pos hc, Heap.class?_eq_some.1 hk] at hget
      rw [hc, Heap.class?_eq_some.1 hk] at ho
      cases ho
      refine ⟨_, hget, .parent hpending ?_⟩
      obtain ⟨hash, hhash, hclass⟩ := Option.bind_eq_some_iff.1 hp
      obtain ⟨hfound, hclass⟩ := Option.filter_eq_some_iff.1 hclass
      exact Option.bind_eq_some_iff.2
        ⟨hash, hhash, Option.filter_eq_some_iff.2 ⟨hfound, isClass_modifyClass hclass⟩⟩
    · rw [if_neg hc] at hget
      exact ⟨o, hget.trans ho, .same o⟩

end Environment

namespace Machine

variable {m m' m'' : Machine}

/-- Nothing differs but what does not last: the operand stack, the position of the current call, and
in the environment the log, new objects, and what classes remember. -/
structure Transient (m m' : Machine) : Prop where
  env : m.env.Transient m'.env
  thread : m'.thread = { m.thread with stack := m'.thread.stack, frames := m'.thread.frames }
  size : m'.thread.frames.size = m.thread.frames.size
  below : ∀ i, i + 1 < m.thread.frames.size → m'.thread.frames[i]? = m.thread.frames[i]?
  current : ∀ f, m.thread.frames.back? = some f →
    ∃ f', m'.thread.frames.back? = some f' ∧ f.Moved f'

theorem Transient.trans (h : m.Transient m') (h' : m'.Transient m'') : m.Transient m'' := by
  refine ⟨h.env.trans h'.env, ?_, h'.size.trans h.size, fun i hi => ?_, fun f hf => ?_⟩
  · rw [h'.thread, h.thread]
  · rw [h'.below i (by rwa [h.size]), h.below i hi]
  · obtain ⟨f', hf', hmoved⟩ := h.current f hf
    obtain ⟨f'', hf'', hmoved'⟩ := h'.current f' hf'
    exact ⟨f'', hf'', hmoved'.function.trans hmoved.function, hmoved'.code.trans hmoved.code,
      hmoved'.slots.trans hmoved.slots, hmoved'.module.trans hmoved.module⟩

instance : AdmitsCurrent Transient where
  trans _ _ _ := Transient.trans
  refl m := ⟨.refl _, rfl, rfl, fun _ _ => rfl, fun f hf => ⟨f, hf, rfl, rfl, rfl, rfl⟩⟩
  stack m g := ⟨.refl _, rfl, rfl, fun _ _ => rfl, fun f hf => ⟨f, hf, rfl, rfl, rfl, rfl⟩⟩
  search m env h :=
    ⟨h.transient, rfl, rfl, fun _ _ => rfl, fun f hf => ⟨f, hf, rfl, rfl, rfl, rfl⟩⟩
  current m g hg := by
    refine ⟨.refl _, rfl, Array.size_modify, fun i hi => ?_, fun f hf => ?_⟩
    · show (m.thread.frames.modify _ g)[i]? = _
      rw [Array.getElem?_modify, if_neg (by omega)]
    · refine ⟨g f, ?_, hg f hf⟩
      show (m.thread.frames.modify _ g).back? = _
      rw [Array.back?_eq_getElem?] at hf ⊢
      rw [Array.size_modify, Array.getElem?_modify, if_pos rfl, hf]
      rfl

end Machine

/-- The thread is as it was. -/
def Machine.SameThread (m m' : Machine) : Prop := m'.thread = m.thread

instance : IsTrans Machine Machine.SameThread := ⟨fun _ _ _ h h' => h'.trans h⟩

/-! ### Code of the host -/

namespace Environment

/-- What an instance or a class does under a name: its field, or a member of its class. -/
def invoked? (env : Environment) (h : Handle) (hash : UInt32) (isSuper : Bool) : Option Value :=
  match env.heap.get? h with
  | some (.inst i) =>
    if isSuper then
      let (parent, env) := env.resolveParent i.classHandle
      parent.bind fun p => (env.findMember p hash).1
    else (i.fields.get? hash).or (env.findMember i.classHandle hash).1
  | some (.scriptClass _) => (env.findMember h hash).1
  | _ => none

/-- A value that is a native. -/
def IsNative (env : Environment) (v : Value) : Prop :=
  ∃ h name, v = .object h ∧ env.heap.get? h = some (.native name)

variable {env : Environment} {v : Value} {c : Handle} {hash : UInt32}

/-- What a class remembers makes no natives. -/
theorem isNative_resolveParent (hn : (env.resolveParent c).2.IsNative v) : env.IsNative v := by
  unfold resolveParent at hn
  split at hn
  · exact hn
  · split at hn
    · exact hn
    · split at hn
      · exact hn
      · obtain ⟨h, name, rfl, hget⟩ := hn
        refine ⟨h, name, rfl, ?_⟩
        change (env.heap.modify c _).get? h = _ at hget
        rw [Heap.get?_modify] at hget
        split at hget
        · rename_i hc
          obtain ⟨o, ho, hnative⟩ := Option.map_eq_some_iff.1 hget
          cases o <;> cases hnative
          rw [hc, ho]
        · exact hget

theorem isNative_walk {first : Handle} {left : Nat} {current : Option Handle} {bound : Bool}
    (hn : (walk first hash left current bound env).2.IsNative v) :
    env.IsNative v := by
  induction left generalizing current bound env with
  | zero => cases current <;> exact hn
  | succ left ih =>
    cases current with
    | none => exact hn
    | some c =>
      unfold walk at hn
      split at hn
      · exact hn
      · split at hn
        · exact hn
        · exact isNative_resolveParent (ih hn)

theorem isNative_findMember (hn : (env.findMember c hash).2.IsNative v) : env.IsNative v :=
  isNative_walk hn

theorem isNative_delink {cells : Cells} (hn : env.IsNative (v.delink cells)) : env.IsNative v := by
  obtain ⟨h, name, hv, hget⟩ := hn
  cases v <;> cases hv
  exact ⟨h, name, rfl, hget⟩

end Environment

/-- The instructions that run code of the host: they call a native, or a member that is one, or a
class whose initializer is one, or they import a class where there is a loader. -/
inductive Machine.RunsHost (m : Machine) : Instruction → Prop
  | call {argc : UInt8} {v : Value} : m.fromTop? argc.toNat = some v → m.env.IsNative v →
      m.RunsHost (.call argc)
  | invoke {argc : UInt8} {hash : UInt32} {isSuper : Bool} {h : Handle} {v : Value} :
      m.fromTop? argc.toNat = some (.object h) → m.env.invoked? h hash isSuper = some v →
        m.env.IsNative v → m.RunsHost (.invoke argc hash isSuper)
  | newInstance {argc : UInt8} {c : Handle} {k : ClassObject} {v : Value} :
      m.fromTop? argc.toNat = some (.object c) → m.env.heap.class? c = some k →
        k.initializer = some v → m.env.IsNative v → m.RunsHost (.newInstance argc)
  | import {index : UInt32} {v : Value} {name : String} :
      Exec.constantAt index.toNat m = .ok v m → m.env.heap.text? v = some name →
        m.env.loader ≠ none → m.RunsHost (.importClass index)

/-! ### Failures -/

namespace Exec

variable {ε α β : Type} {R : Machine → Machine → Prop} {x : EStateM (Halt ε) Machine α}
  {g : α → EStateM (Halt ε) Machine β} {m : Machine}

/-- If an action fails, the machine it leaves is related to the one before. -/
def Fails (R : Machine → Machine → Prop) (x : EStateM (Halt ε) Machine α) (m : Machine) : Prop :=
  ∀ e m', x m = .error e m' → R m m'

theorem fails_of_ok {a : α} {m' : Machine} (hx : x m = .ok a m') : Fails R x m := by
  intro e m₁ hrun
  rw [hx] at hrun
  cases hrun

theorem Keeps.fails (hx : Keeps R x) (m : Machine) : Fails R x m := by
  intro e m' hrun
  have hkept := hx m
  rwa [after_of_error hrun] at hkept

/-- What is kept, and then fails. -/
theorem Keeps.fails_bind [IsTrans Machine R] (hx : Keeps R x)
    (hg : ∀ a m', x m = .ok a m' → Fails R (g a) m') : Fails R (x >>= g) m := by
  intro e m' hrun
  have hkept := hx m
  cases hfirst : x m with
  | error e₁ m₁ =>
    rw [bind_of_error hfirst] at hrun
    cases hrun
    rwa [after_of_error hfirst] at hkept
  | ok a m₁ =>
    rw [bind_of_ok hfirst] at hrun
    rw [after_of_ok hfirst] at hkept
    exact IsTrans.trans _ _ _ hkept (hg a m₁ hfirst e m' hrun)

/-- What fails or not, and then does not fail any more. -/
theorem Fails.bind (hx : Fails R x m)
    (hg : ∀ a m', x m = .ok a m' → ∃ b m'', g a m' = .ok b m'') : Fails R (x >>= g) m := by
  intro e m' hrun
  cases hfirst : x m with
  | error e₁ m₁ =>
    rw [bind_of_error hfirst] at hrun
    cases hrun
    exact hx _ _ hfirst
  | ok a m₁ =>
    obtain ⟨b, m₂, hok⟩ := hg a m₁ hfirst
    rw [bind_of_ok hfirst, hok] at hrun
    cases hrun

/-! ### Writes -/

section Writes

variable [Machine.AdmitsReads R] {v : Value} {hash : UInt32}

/-- A number is converted before it is stored. -/
theorem fails_writeThrough (slot : Value) : Fails R (writeThrough slot v) m := by
  refine keeps_memory.fails_bind fun mem m₁ _ => ?_
  split
  · exact (keeps_ofOption _ _).fails_bind fun n m₂ _ => fails_of_ok rfl
  · exact (keeps_ofOption _ _).fails_bind fun d m₂ _ => fails_of_ok rfl
  · exact fails_of_ok rfl

theorem fails_setGlobal : Fails R (setGlobal hash v) m := by
  refine keeps_environment.fails_bind fun env m₁ _ => ?_
  split
  · refine (fails_writeThrough _).bind fun linked m₂ _ => ?_
    cases linked with
    | true => exact ⟨_, _, rfl⟩
    | false => exact ⟨_, _, rfl⟩
  · split <;> exact (keeps_fault _).fails m₁

theorem fails_defineGlobal : Fails R (defineGlobal hash v) m := by
  refine keeps_environment.fails_bind fun env m₁ _ => ?_
  dsimp only
  split
  · split <;> exact fails_of_ok rfl
  · split
    · split
      · exact fails_of_ok rfl
      · exact (keeps_fault _).fails m₁
    · exact fails_of_ok rfl

theorem fails_setProperty (object : Value) : Fails R (setProperty object hash v) m := by
  have hstore : ∀ (h : Handle) (m : Machine), ∃ b m', (do
      let plain := v.delink (← cells)
      mapHeap (·.modify h (insertField hash plain)) : Exec Unit) m = .ok b m' :=
    fun h m => ⟨_, _, rfl⟩
  unfold setProperty
  cases object with
  | object h =>
    refine keeps_environment.fails_bind fun env m₁ _ => ?_
    split
    · exact (keeps_fault _).fails m₁
    · split
      · refine (fails_writeThrough _).bind fun linked m₂ _ => ?_
        cases linked with
        | true => exact ⟨_, _, rfl⟩
        | false => exact hstore h m₂
      · obtain ⟨b, m₂, hok⟩ := hstore h m₁
        exact fails_of_ok hok
  | _ => exact (keeps_fault _).fails m

theorem fails_setElement (object position : Value) : Fails R (setElement object position v) m := by
  refine keeps_memory.fails_bind fun mem m₁ _ => (keeps_ofExcept _).fails_bind fun store m₂ _ => ?_
  cases object <;> exact fails_of_ok rfl

end Writes

/-! ### The thread of a write -/

theorem thread_fault (c : Cause) : Keeps Machine.SameThread (fault c : Exec α) := fun _ => rfl

theorem thread_ofOption (c : Cause) (o : Option α) : Keeps Machine.SameThread (ofOption c o) := by
  cases o <;> exact fun _ => rfl

theorem thread_ofExcept (r : Except Cause α) : Keeps Machine.SameThread (ofExcept r) := by
  cases r <;> exact fun _ => rfl

theorem thread_writeThrough (slot v : Value) : Keeps Machine.SameThread (writeThrough slot v) := by
  refine Keeps.bind (x := memory) (fun _ => rfl) fun mem => ?_
  split
  · exact (thread_ofOption _ _).bind fun n _ => rfl
  · exact (thread_ofOption _ _).bind fun d _ => rfl
  · exact fun _ => rfl

theorem thread_setProperty (object : Value) (hash : UInt32) (v : Value) :
    Keeps Machine.SameThread (setProperty object hash v) := by
  unfold setProperty
  cases object with
  | object h =>
    refine Keeps.bind (x := environment) (fun _ => rfl) fun env => ?_
    split
    · exact thread_fault _
    · split
      · refine (thread_writeThrough _ v).bind fun linked => ?_
        cases linked <;> exact fun _ => rfl
      · exact fun _ => rfl
  | _ => exact thread_fault _

theorem thread_defineGlobal (hash : UInt32) (v : Value) :
    Keeps Machine.SameThread (defineGlobal hash v) := by
  refine Keeps.bind (x := environment) (fun _ => rfl) fun env => ?_
  dsimp only
  split
  · split <;> exact fun _ => rfl
  · split
    · split
      · exact fun _ => rfl
      · exact thread_fault _
    · exact fun _ => rfl

theorem thread_setElement (object position v : Value) :
    Keeps Machine.SameThread (setElement object position v) := by
  refine Keeps.bind (x := memory) (fun _ => rfl) fun mem => (thread_ofExcept _).bind fun store => ?_
  cases object <;> exact fun _ => rfl

/-! ### Calls -/

section Calls

variable [Machine.AdmitsReads R]

/-- A call is entered last. -/
theorem fails_call (function : Handle) (argc : Nat) : Fails R (call function argc) m := by
  refine keeps_get.fails_bind fun m₁ m₂ _ => (keeps_ofOption _ _).fails_bind fun f m₃ _ => ?_
  split
  · exact (keeps_fault _).fails m₃
  · split
    · exact (keeps_fault _).fails m₃
    · refine (keeps_size _).fails_bind fun count m₄ _ => ?_
      refine (keeps_heightBelow count).fails_bind fun slots m₅ _ => ?_
      intro e m' hrun
      unfold enter at hrun
      split at hrun <;> cases hrun
      exact Machine.AdmitsReads.refl m₅

theorem fails_callCallee {callee : Value} (argc : Nat) (hn : ¬ m.env.IsNative callee) :
    Fails R (callCallee callee argc) m := by
  intro e m' hrun
  refine keeps_environment.fails_bind (x := environment) (fun env m₁ henv => ?_) e m' hrun
  cases henv
  cases callee with
  | object h =>
    dsimp only
    split
    · exact (keeps_setPeek argc _).fails_bind fun _ m₂ _ => fails_call _ argc
    · exact fails_call h argc
    · rename_i name hget
      exact absurd ⟨h, name, rfl, hget⟩ hn
    · exact (keeps_fault _).fails m
  | _ => exact (keeps_fault _).fails m

theorem fails_callForObject {callable : Value} (argc : Nat) (hn : ¬ m.env.IsNative callable) :
    Fails R (callForObject callable argc) m := by
  refine keeps_environment.fails_bind fun env m₁ henv => ?_
  cases henv
  cases callable with
  | object h =>
    dsimp only
    split
    · rename_i name hget
      exact absurd ⟨h, name, rfl, hget⟩ hn
    · exact fails_callCallee argc hn
  | _ => exact (keeps_fault _).fails m

/-- A member is looked for, and then called unless it is a native. -/
theorem fails_member {c : Handle} {hash : UInt32} {use : Value → Exec Unit} {rest : Exec Unit}
    (huse : ∀ v m', ¬ m'.env.IsNative v → Fails R (use v) m') (hrest : Keeps R rest)
    (hn : ∀ v, (m.env.findMember c hash).1 = some v → ¬ m.env.IsNative v) :
    Fails R (do
      match ← onEnvironment (·.findMember c hash) with
      | some method => use (method.delink (← cells))
      | none => rest) m := by
  refine (keeps_findMember c hash).fails_bind fun found m₁ hrun => ?_
  obtain ⟨rfl, rfl⟩ : (m.env.findMember c hash).1 = found ∧
      (⟨(m.env.findMember c hash).2, m.thread⟩ : Machine) = m₁ := by
    cases hrun
    exact ⟨rfl, rfl⟩
  split
  · rename_i method hmethod
    refine keeps_cells.fails_bind fun cells m₂ hcells => ?_
    cases hcells
    refine huse _ _ fun hnative => hn method hmethod ?_
    exact Environment.isNative_findMember (Environment.isNative_delink hnative)
  · exact hrest.fails _

theorem fails_invokeFromClass {c : Handle} {hash : UInt32} (argc : Nat)
    (hn : ∀ v, (m.env.findMember c hash).1 = some v → ¬ m.env.IsNative v) :
    Fails R (invokeFromClass c hash argc) m :=
  fails_member (fun _ _ h => fails_callForObject argc h)
    (keeps_environment.bind fun _ => keeps_fault _) hn

theorem fails_invokeOnClass {c : Handle} {hash : UInt32} (argc : Nat)
    (hn : ∀ v, (m.env.findMember c hash).1 = some v → ¬ m.env.IsNative v) :
    Fails R (invokeOnClass c hash argc) m :=
  fails_member (fun _ _ h => fails_callCallee argc h)
    (keeps_environment.bind fun _ => keeps_fault _) hn

theorem fails_invokeOnInstance {h : Handle} {i : InstanceObject} {hash : UInt32} (argc : Nat)
    {isSuper : Bool} (hi : m.env.heap.get? h = some (.inst i))
    (hn : ∀ v, m.env.invoked? h hash isSuper = some v → ¬ m.env.IsNative v) :
    Fails R (invokeOnInstance i hash argc isSuper) m := by
  unfold Environment.invoked? at hn
  rw [hi] at hn
  cases isSuper with
  | true =>
    refine (keeps_resolveParent i.classHandle).fails_bind fun parent m₁ hrun => ?_
    obtain ⟨rfl, rfl⟩ : (m.env.resolveParent i.classHandle).1 = parent ∧
        (⟨(m.env.resolveParent i.classHandle).2, m.thread⟩ : Machine) = m₁ := by
      cases hrun
      exact ⟨rfl, rfl⟩
    split
    · rename_i p hp
      refine fails_invokeFromClass argc fun v hv hnative => hn v ?_ ?_
      · simp only [if_true, hp, Option.bind_some]
        exact hv
      · exact Environment.isNative_resolveParent hnative
    · exact (keeps_fault _).fails _
  | false =>
    simp only [Bool.false_eq_true, if_false] at hn
    show Fails R (match i.fields.get? hash with
      | some field => do callCallee (field.delink (← cells)) argc
      | none => invokeFromClass i.classHandle hash argc) m
    cases hfield : i.fields.get? hash with
    | some field =>
      refine keeps_cells.fails_bind fun cells m₁ hcells => ?_
      cases hcells
      refine fails_callCallee argc fun hnative => hn field ?_ (Environment.isNative_delink hnative)
      rw [hfield, Option.some_or]
    | none =>
      refine fails_invokeFromClass argc fun v hv => hn v ?_
      rw [hfield, Option.none_or]
      exact hv

end Calls

theorem fromTop?_of_peek {depth : Nat} {v : Value} {m' : Machine} (hrun : peek depth m = .ok v m') :
    m.fromTop? depth = some v ∧ m' = m := by
  obtain ⟨hlt, hv, rfl⟩ := peek_eq_ok hrun
  exact ⟨fromTop?_eq_some.2 ⟨hlt, hv⟩, rfl⟩

/-- What leaves the thread alone leaves the operand stack alone. -/
theorem fromTop?_of_thread {x : Exec Unit} {m' : Machine} {depth : Nat}
    (hx : Keeps Machine.SameThread x) (hrun : x m = .ok () m') :
    m'.fromTop? depth = m.fromTop? depth := by
  have hthread : m'.thread = m.thread := after_of_ok hrun ▸ hx m
  rw [Machine.fromTop?, hthread]
  rfl

theorem fails_invoke [Machine.AdmitsReads R] {argc : UInt8} {hash : UInt32} {isSuper : Bool}
    (hn : ¬ m.RunsHost (.invoke argc hash isSuper)) :
    Fails R (invoke hash argc.toNat isSuper) m := by
  refine (keeps_peek _).fails_bind fun receiver m₁ hrun => ?_
  obtain ⟨hreceiver, rfl⟩ := fromTop?_of_peek hrun
  cases receiver with
  | object h =>
    have hmember : ∀ v, m₁.env.invoked? h hash isSuper = some v → ¬ m₁.env.IsNative v :=
      fun v hv hnative => hn (.invoke hreceiver hv hnative)
    refine keeps_environment.fails_bind fun env m₂ henv => ?_
    cases henv
    split
    · rename_i i hi
      exact fails_invokeOnInstance _ hi hmember
    · rename_i k hk
      unfold Environment.invoked? at hmember
      rw [hk] at hmember
      exact fails_invokeOnClass _ hmember
    · exact (keeps_fault _).fails _
  | _ => exact (keeps_fault _).fails _

theorem ofOption_eq_ok {c : Cause} {o : Option α} {a : α} {m' : Machine}
    (hrun : ofOption c o m = .ok a m') : o = some a ∧ m' = m := by
  cases o with
  | none => cases hrun
  | some b =>
    cases hrun
    exact ⟨rfl, rfl⟩

theorem env_of_setPeek {depth : Nat} {v : Value} {m' : Machine}
    (hrun : setPeek depth v m = .ok () m') : m'.env = m.env := by
  obtain ⟨count, m₁, hsize, hnext⟩ := bind_eq_ok.1 hrun
  obtain ⟨-, -, rfl⟩ := size_eq_ok hsize
  obtain ⟨height, m₂, hheight, hput⟩ := bind_eq_ok.1 hnext
  unfold heightBelow at hheight
  split at hheight <;> cases hheight
  unfold setValueAt at hput
  split at hput <;> cases hput
  rfl

theorem fails_instantiate [Machine.AdmitsReads R] {argc : UInt8}
    (hn : ¬ m.RunsHost (.newInstance argc)) : Fails R (instantiate argc.toNat) m := by
  refine (keeps_peek _).fails_bind fun callee m₁ hrun => ?_
  obtain ⟨hcallee, rfl⟩ := fromTop?_of_peek hrun
  refine keeps_environment.fails_bind fun env m₂ henv => ?_
  cases henv
  refine (keeps_ofOption _ _).fails_bind fun c m₂ hclass => ?_
  obtain ⟨hfound, rfl⟩ := ofOption_eq_ok hclass
  obtain rfl : callee = .object c := by
    obtain ⟨hobject, -⟩ := Option.filter_eq_some_iff.1 hfound
    cases callee <;> cases hobject
    rfl
  refine (keeps_alloc ((Obj.plain_instance c).fresh nofun rfl)).fails_bind fun h m₃ halloc => ?_
  refine (keeps_setPeek _ _).fails_bind fun _ m₄ hput => ?_
  -- the new instance is neither the class nor a native
  have hold : ∀ k o, m₄.env.heap.get? k = some o → (∀ i, o ≠ .inst i) →
      m₂.env.heap.get? k = some o := by
    intro k o ho hinst
    rw [env_of_setPeek hput] at ho
    cases halloc
    rcases Heap.get?_alloc_cases ho with rfl | hk
    · exact absurd rfl (hinst _)
    · exact hk
  refine keeps_environment.fails_bind fun env m₅ henv => ?_
  cases henv
  split
  · rename_i init hinit
    obtain ⟨k, hk, hinit⟩ := Option.bind_eq_some_iff.1 hinit
    have hk' := Heap.class?_eq_some.2 (hold c _ (Heap.class?_eq_some.1 hk) nofun)
    refine fails_callForObject _ fun hnative => hn (.newInstance hcallee hk' hinit ?_)
    obtain ⟨g, name, rfl, hget⟩ := hnative
    exact ⟨g, name, rfl, hold g _ hget nofun⟩
  · split
    · exact (keeps_pure _).fails _
    · exact (keeps_fault _).fails _

/-! ### Instructions -/

/-- A return has room for its result. -/
theorem fails_ret [Machine.AdmitsReads R] (hle : m.thread.stack.size ≤ Thread.maxStack) :
    Fails R ret m := by
  refine keeps_pop.fails_bind fun result m₁ hpop => ?_
  obtain ⟨hresult, rfl⟩ := pop_eq_ok hpop
  refine keeps_frame.fails_bind fun f m₂ hframe => ?_
  obtain ⟨-, rfl⟩ := frame_eq_ok hframe
  have hsize : 0 < m.thread.stack.size := by
    rw [Array.back?_eq_getElem?] at hresult
    have hlt := (Array.getElem?_eq_some_iff.1 hresult).1
    omega
  have hroom : (m.thread.stack.pop.shrink f.slots).size < Thread.maxStack := by
    rw [Array.size_shrink, Array.size_pop]
    omega
  exact fails_of_ok (if_pos hroom)

theorem fails_method [Machine.AdmitsReads R] (index : UInt8) (hash : UInt32) :
    Fails R (method index hash) m := by
  refine keeps_frame.fails_bind fun f m₁ _ => keeps_environment.fails_bind fun env m₂ _ => ?_
  refine (keeps_ofOption _ _).fails_bind fun function m₃ _ => ?_
  refine (keeps_peek 0).fails_bind fun v m₄ hpeek => ?_
  obtain ⟨hv, rfl⟩ := fromTop?_of_peek hpeek
  refine (keeps_ofOption _ _).fails_bind fun c m₅ hclass => ?_
  obtain ⟨-, rfl⟩ := ofOption_eq_ok hclass
  -- the class was on top of the stack, so it can be taken off
  have hpop := pop_of_fromTop? (m := { m₅ with env := m₅.env.defineMethod c function hash }) hv
  exact fails_of_ok ((bind_of_ok rfl).trans ((bind_of_ok hpop).trans rfl))

theorem fails_import [Machine.AdmitsReads R] {index : UInt32} (executor : Exec Unit)
    (hn : ¬ m.RunsHost (.importClass index)) : Fails R (importClass executor index.toNat) m := by
  refine (keeps_constantAt _).fails_bind fun v m₁ hconstant => ?_
  obtain rfl : m₁ = m := by
    have hsame := after_constantAt index.toNat m
    rwa [after_of_ok hconstant] at hsame
  refine keeps_memory.fails_bind fun mem m₂ hmemory => ?_
  cases hmemory
  split
  · exact (keeps_fault _).fails _
  · rename_i name hname
    have hloader : m₁.env.loader = none := by
      by_contra hsome
      exact hn (.import hconstant hname hsome)
    -- without a loader nothing is imported
    have hload : Load.loadClass executor name m₁ = .ok false m₁ := by
      unfold Load.loadClass
      split
      · rfl
      · refine (bind_of_ok rfl).trans ?_
        rw [hloader]
        rfl
    have hfails : (Load.loadClass executor name).toExec m₁ = .ok false m₁ := by
      unfold Load.toExec EStateM.adaptExcept
      rw [hload]
    intro e m' hrun
    rw [bind_of_ok hfails] at hrun
    cases hrun
    exact Machine.AdmitsReads.refl m₁

/-- An instruction that fails has done nothing that lasts. -/
theorem fails_perform [Machine.AdmitsCurrent R] {i : Instruction} (executor : Exec Unit)
    (hle : m.thread.stack.size ≤ Thread.maxStack) (hn : ¬ m.RunsHost i) :
    Fails R (perform executor i) m := by
  cases i with
  | setGlobal hash => exact (keeps_peek 0).fails_bind fun v m₁ _ => fails_setGlobal
  | defineGlobal hash =>
    refine (keeps_peek 0).fails_bind fun v m₁ hpeek => ?_
    obtain ⟨hv, rfl⟩ := fromTop?_of_peek hpeek
    refine fails_defineGlobal.bind fun _ m₂ hdefine => ?_
    rw [← fromTop?_of_thread (thread_defineGlobal hash v) hdefine] at hv
    exact ⟨_, _, (bind_of_ok (pop_of_fromTop? hv)).trans rfl⟩
  | defineConstant hash => exact keeps_pop.fails_bind fun v m₁ _ => fails_of_ok rfl
  | defineModuleLocal =>
    refine keeps_pop.fails_bind fun v m₁ _ => keeps_currentModule.fails_bind fun p m₂ _ => ?_
    exact keeps_cells.fails_bind fun cells m₃ _ => fails_of_ok rfl
  | setModuleLocal slot =>
    refine (keeps_peek 0).fails_bind fun v m₁ _ => keeps_cells.fails_bind fun cells m₂ _ => ?_
    refine keeps_currentModule.fails_bind fun p m₃ _ => ?_
    dsimp only
    split
    · exact fails_of_ok rfl
    · exact (keeps_fault _).fails _
  | setProperty hash =>
    refine (keeps_peek 0).fails_bind fun v m₁ hpeek => ?_
    obtain ⟨hv, rfl⟩ := fromTop?_of_peek hpeek
    refine (keeps_peek 1).fails_bind fun object m₂ hpeek => ?_
    obtain ⟨ho, rfl⟩ := fromTop?_of_peek hpeek
    refine (fails_setProperty object).bind fun _ m₃ hset => ?_
    rw [← fromTop?_of_thread (thread_setProperty object hash v) hset] at hv ho
    exact ⟨_, _, pop_setPeek hv ho⟩
  | setElement =>
    refine (keeps_peek 0).fails_bind fun v m₁ hpeek => ?_
    obtain ⟨hv, rfl⟩ := fromTop?_of_peek hpeek
    refine (keeps_peek 1).fails_bind fun position m₂ hpeek => ?_
    obtain ⟨hp, rfl⟩ := fromTop?_of_peek hpeek
    refine (keeps_peek 2).fails_bind fun object m₃ hpeek => ?_
    obtain ⟨ho, rfl⟩ := fromTop?_of_peek hpeek
    refine keeps_cells.fails_bind fun cells m₄ hcells => ?_
    cases hcells
    refine (fails_setElement object position).bind fun _ m₅ hset => ?_
    rw [← fromTop?_of_thread (thread_setElement object position _) hset] at hv hp ho
    have hp₁ := (fromTop?_pop m₅ 0).trans hp
    have ho₂ := (fromTop?_pop (m₅.mapStack (·.pop)) 0).trans ((fromTop?_pop m₅ 1).trans ho)
    refine ⟨_, _, (bind_of_ok (?_ : popMany 2 m₅ = .ok () _)).trans
      (setPeek_of_fromTop? (by decide) ho₂ v)⟩
    exact (bind_of_ok (pop_of_fromTop? hv)).trans ((bind_of_ok (pop_of_fromTop? hp₁)).trans rfl)
  | saveValue => exact keeps_pop.fails_bind fun v m₁ _ => fails_of_ok rfl
  | inherit hash =>
    refine (keeps_peek 0).fails_bind fun v m₁ _ => keeps_environment.fails_bind fun env m₂ _ => ?_
    split
    · exact fails_of_ok rfl
    · exact (keeps_fault _).fails _
  | method index hash => exact fails_method index hash
  | ret => exact fails_ret hle
  | call argc =>
    refine (keeps_peek _).fails_bind fun callee m₁ hpeek => ?_
    obtain ⟨hcallee, rfl⟩ := fromTop?_of_peek hpeek
    exact fails_callCallee _ fun hnative => hn (.call hcallee hnative)
  | invoke argc hash isSuper => exact fails_invoke hn
  | newInstance argc => exact fails_instantiate hn
  | importClass index => exact fails_import executor hn
  | _ =>
    refine (keeps_perform_reading ?_ executor).fails m
    exact trivial

end Exec

/-! ### Steps -/

namespace Machine

open Exec

variable {m m' : Machine}

/-- The next step runs code of the host. -/
def StepsToHost (m : Machine) : Prop := ∃ i m₁, advance m = .ok i m₁ ∧ m₁.RunsHost i

/-- The handles that keep objects alive, but for those on the operand stack. -/
def lastingRoots (m : Machine) : List Handle := m.env.roots [{ m.thread with stack := #[] }]

theorem fails_step {R : Machine → Machine → Prop} [AdmitsCurrent R] (executor : Exec Unit)
    (hle : m.thread.stack.size ≤ Thread.maxStack) (hn : ¬ m.StepsToHost) :
    Fails R (step executor) m := by
  rw [step_eq]
  refine keeps_advance.fails_bind fun i m₁ hadvance => ?_
  refine fails_perform executor ?_ fun hhost => hn ⟨i, m₁, hadvance, hhost⟩
  rwa [stack_of_advance hadvance]

/-! ### New objects -/

/-- The functions of the calls are those before. -/
theorem Transient.functions (h : m.Transient m') :
    m'.thread.frames.toList.map (·.function) = m.thread.frames.toList.map (·.function) := by
  refine List.ext_getElem? fun i => ?_
  simp only [List.getElem?_map, Array.getElem?_toList]
  rcases Nat.lt_trichotomy (i + 1) m.thread.frames.size with hlt | heq | hgt
  · rw [h.below i hlt]
  · have hf : m.thread.frames.back? = m.thread.frames[i]? := by
      rw [Array.back?_eq_getElem?, ← heq, Nat.add_sub_cancel]
    have hf' : m'.thread.frames.back? = m'.thread.frames[i]? := by
      rw [Array.back?_eq_getElem?, h.size, ← heq, Nat.add_sub_cancel]
    have hlt : i < m.thread.frames.size := by omega
    rw [Array.getElem?_eq_getElem hlt] at hf ⊢
    obtain ⟨f', hback, hmoved⟩ := h.current _ hf
    rw [← hf', hback, Option.map_some, Option.map_some, hmoved.function]
  · rw [Array.getElem?_eq_none (by have := h.size; omega), Array.getElem?_eq_none (by omega)]

theorem Transient.lastingRoots (h : m.Transient m') : m'.lastingRoots = m.lastingRoots := by
  have henv := h.env.same
  have hregister : m'.thread.register = m.thread.register := by rw [h.thread]
  unfold Machine.lastingRoots Environment.roots
  rw [henv]
  simp only [List.flatMap_cons, List.flatMap_nil, Thread.roots, h.functions, hregister]

/-- A parent that a class remembers by now is a global. -/
theorem mem_lastingRoots_of_classByHash? {hash : UInt32} {p : Handle}
    (hp : m.env.classByHash? hash = some p) : p ∈ m.lastingRoots := by
  obtain ⟨hfound, -⟩ := Option.filter_eq_some_iff.1 hp
  obtain ⟨v, hv, hobject⟩ := Option.bind_eq_some_iff.1 hfound
  have hglobal : p ∈ Obj.handlesOf m.env.globals.values :=
    List.mem_filterMap.2 ⟨v, Table.mem_values_of_get? hv, hobject⟩
  simp [Machine.lastingRoots, Environment.roots, hglobal]

/-- Only the operand stack leads to new objects. -/
theorem Transient.contains_of_reaches (h : m.Transient m') (hs : m.env.heap.Slotted)
    (hclosed : m.env.heap.Closed) (hheld : ∀ k ∈ m.lastingRoots, m.env.heap.contains k = true)
    {k : Handle} (hk : m'.env.heap.Reaches m'.lastingRoots k) : m.env.heap.contains k = true := by
  induction hk with
  | root hroot _ => exact hheld _ (h.lastingRoots ▸ hroot)
  | @child j k o _ ho hchild _ ih =>
    obtain ⟨old, hold⟩ := Heap.contains_iff.1 ih
    obtain ⟨o', ho', hrecalls⟩ := h.env.objects hs j old hold
    cases ho.symm.trans ho'
    cases hrecalls with
    | same => exact hclosed j _ hold k hchild
    | @parent c p _ hp =>
      obtain ⟨hash, -, hclass⟩ := Option.bind_eq_some_iff.1 hp
      have hmem : k ∈ (Obj.scriptClass c).children ∨ k = p := by
        simp only [Obj.children, List.mem_append, Option.mem_toList] at hchild ⊢
        rcases hchild with hchild | hparent
        · exact .inl (.inl hchild)
        · exact .inr (Option.some.inj hparent).symm
      rcases hmem with hold' | rfl
      · exact hclosed j _ hold k hold'
      · exact hheld _ (h.lastingRoots ▸ mem_lastingRoots_of_classByHash? hclass)

/-- **Failed steps.** An instruction that fails, and runs neither a native nor the loader, has done
nothing that lasts, and what is new is in reach of the operand stack only. -/
theorem failed_step (executor : Exec Unit) {e : Halt Fault} (hs : m.env.heap.Slotted)
    (hle : m.thread.stack.size ≤ Thread.maxStack) (hhost : ¬ m.StepsToHost)
    (hstep : step executor m = .error e m') :
    m.Transient m' ∧
      (∀ h o, m.env.heap.get? h = some o →
        ∃ o', m'.env.heap.get? h = some o' ∧ m'.env.Recalls o o') ∧
      (m.env.heap.Closed → (∀ h ∈ m.lastingRoots, m.env.heap.contains h = true) →
        ∀ h, m'.env.heap.Reaches m'.lastingRoots h → m.env.heap.contains h = true) := by
  have htransient : m.Transient m' := fails_step executor hle hhost e m' hstep
  exact ⟨htransient, htransient.env.objects hs,
    fun hclosed hheld h hh => htransient.contains_of_reaches hs hclosed hheld hh⟩

/-- A call that is about to make an instance with an argument, of a class that takes none. -/
def misusedClass : Machine :=
  let m := inCode #[61, 1]
  ⟨(m.env.alloc (.scriptClass (.ofHash 5))).2,
    { m.thread with stack := #[.object ⟨1, 0⟩, .integer 7] }⟩

theorem not_stepsToHost_misusedClass : ¬ misusedClass.StepsToHost := by
  rintro ⟨i, m₁, hadvance, hhost⟩
  obtain ⟨op, next, hop, hdecode, rfl⟩ :=
    advance_eq_ok (f := .enter ⟨0, 0⟩ #[61, 1] 0 none) rfl hadvance
  obtain rfl : Opcode.newInstance = op := Option.some.inj hop
  obtain ⟨rfl, rfl⟩ : Instruction.newInstance 1 = i ∧ 2 = next := by
    have hpair := Option.some.inj hdecode
    exact ⟨congrArg Prod.fst hpair, congrArg Prod.snd hpair⟩
  cases hhost with
  | newInstance hcallee hk hinit _ =>
    cases hcallee
    cases hk
    cases hinit

/-- The instance is made before the argument is refused; only the operand stack knows it then. -/
theorem failed_step_misusedClass :
    ∃ m', step (execute 0) misusedClass =
        .error (.error (.ofCause (.initializerArguments 1))) m' ∧
      m'.fromTop? 1 = some (.object ⟨2, 0⟩) ∧ ¬ m'.env.heap.Reaches m'.lastingRoots ⟨2, 0⟩ := by
  have hfirst : Contract.alive.GoodHeap (inCode #[61, 1]).env.heap :=
    ((Contract.goodHeap_withThreshold _ _).alloc
      ⟨fun _ hk => absurd hk List.not_mem_nil, False.elim⟩).1
  have hgood : Contract.alive.GoodHeap misusedClass.env.heap :=
    (hfirst.alloc ⟨fun _ hk => absurd hk List.not_mem_nil, False.elim⟩).1
  obtain ⟨hslotted, hclosed⟩ := Contract.goodHeap_alive.1 hgood
  refine ⟨_, rfl, rfl, fun hreaches => ?_⟩
  have hold := (failed_step (execute 0) hslotted (by decide) not_stepsToHost_misusedClass rfl).2.2
    hclosed (by decide +kernel) ⟨2, 0⟩ hreaches
  revert hold
  decide +kernel

end Machine
end ScriptVm
