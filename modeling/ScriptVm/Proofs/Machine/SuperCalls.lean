import ScriptVm.Proofs.Environment.Resolution
import ScriptVm.Proofs.Machine.CleanLoads
import ScriptVm.Proofs.Machine.Landing

/-!
# Super calls

A super call looks for its method from the parent of the receiver's class on. The function that
makes the call has no say in it: a method that an instance inherits does not go up from the class
that defined it.

* `SuperResolves` is what a super call finds, `invoke_super` what it does.
* `superResolves_of_passes` and `le_of_superResolves` compare this with going up from another class
  of the chain.
* `Recurring` is a machine about to perform an override that begins with a super call of itself;
  `Recurring.enters` is one such call and `Recurring.overflows` the run.
* `super_calls` is the result, `super_call_in_inherited_method` a method that does not go up from
  the class that has it.
-/

namespace ScriptVm

namespace Environment

variable {env : Environment} {c p x : Handle} {hash : UInt32} {n j : Nat} {r : Option Value}

/-- What a super call of a name finds for an instance of a class. -/
def SuperResolves (env : Environment) (c : Handle) (hash : UInt32) (n : Nat) (r : Option Value) :
    Prop :=
  ∃ p, env.parent? c = some p ∧ env.Resolves p hash n r

/-! ### Remembered parents change no answer -/

theorem ancestor?_remembering (env : Environment) (passed : List Handle) (c : Handle) (n : Nat) :
    (env.remembering passed).ancestor? c n = env.ancestor? c n := by
  induction n with
  | zero => rfl
  | succ n ih => rw [ancestor?_succ, ancestor?_succ, ih, funext (env.parent?_remembering passed)]

/-- What does not depend on the parent that a class remembers is the same. -/
theorem map_classAbove?_remembering {α : Type} (env : Environment) (passed : List Handle)
    (c : Handle) (n : Nat) {f : ClassObject → α} (hf : ∀ k p, f { k with parent := p } = f k) :
    ((env.remembering passed).classAbove? c n).map f = (env.classAbove? c n).map f := by
  unfold classAbove?
  rw [ancestor?_remembering]
  cases env.ancestor? c n with
  | none => rfl
  | some h =>
    simp only [Option.bind_some]
    rw [class?_remembering, Option.map_map]
    congr 1
    funext k
    by_cases hmem : h ∈ passed <;> simp [hmem, hf]

theorem passes_iff : env.Passes c hash n ↔
    ∀ i < n, (env.classAbove? c i).map (ownMember? · hash) = some none := by
  refine forall₂_congr fun i _ => ?_
  rw [Option.map_eq_some_iff]
  exact exists_congr fun k => and_congr_right fun _ => ownMember?_eq_none.symm

theorem entityBound_iff : env.EntityBound c n ↔
    ∃ i < n, (env.classAbove? c i).map (·.entityBound) = some true := by
  refine exists_congr fun i => and_congr_right fun _ => ?_
  rw [Option.map_eq_some_iff]

theorem passes_remembering (env : Environment) (passed : List Handle) :
    (env.remembering passed).Passes c hash n ↔ env.Passes c hash n := by
  rw [passes_iff, passes_iff]
  refine forall₂_congr fun i _ => ?_
  rw [map_classAbove?_remembering]
  intro k p
  rfl

theorem entityBound_remembering (env : Environment) (passed : List Handle) :
    (env.remembering passed).EntityBound c n ↔ env.EntityBound c n := by
  rw [entityBound_iff, entityBound_iff]
  refine exists_congr fun i => and_congr_right fun _ => ?_
  rw [map_classAbove?_remembering]
  intro k p
  rfl

theorem baseHas_remembering (env : Environment) (passed : List Handle) (v : Value) :
    (env.remembering passed).BaseHas hash v ↔ env.BaseHas hash v := by
  rw [← baseMember?_eq_some, ← baseMember?_eq_some, baseMember?_remembering]

/-- A search finds the same after parents were remembered. -/
theorem Resolves.remembering (hr : env.Resolves c hash n r) (passed : List Handle) :
    (env.remembering passed).Resolves c hash n r := by
  cases hr with
  | @found _ k v hlt hpass hk hv =>
    have hown : ((env.remembering passed).classAbove? c n).map (ownMember? · hash) =
        some (some v) := by
      rw [map_classAbove?_remembering, hk, Option.map_some, ownMember?_eq_some.2 hv]
      intro k p
      rfl
    obtain ⟨k', hk', hv'⟩ := Option.map_eq_some_iff.1 hown
    exact .found hlt ((env.passes_remembering passed).2 hpass) hk' (ownMember?_eq_some.1 hv')
  | lost hlt hpass hh hlost =>
    refine .lost hlt ((env.passes_remembering passed).2 hpass)
      ((env.ancestor?_remembering passed c n).trans hh) ?_
    rw [class?_remembering, hlost]
    rfl
  | tooDeep hpass hh =>
    exact .tooDeep ((env.passes_remembering passed).2 hpass)
      ((env.ancestor?_remembering passed c 256).trans hh)
  | base hle hpass hend hbound hv =>
    exact .base hle ((env.passes_remembering passed).2 hpass)
      ((env.ancestor?_remembering passed c n).trans hend)
      ((env.entityBound_remembering passed).2 hbound) ((env.baseHas_remembering passed _).2 hv)
  | nothing hle hpass hend hno =>
    refine .nothing hle ((env.passes_remembering passed).2 hpass)
      ((env.ancestor?_remembering passed c n).trans hend) fun hbound v hv => ?_
    exact hno ((env.entityBound_remembering passed).1 hbound) v
      ((env.baseHas_remembering passed v).1 hv)

/-! ### Going up from another class -/

theorem ancestor?_of_parent (hp : env.parent? c = some p) (i : Nat) :
    env.ancestor? p i = env.ancestor? c (i + 1) := by
  have hone : env.ancestor? c 1 = some p := hp
  rw [Nat.add_comm, ancestor?_add, hone]
  rfl

theorem classAbove?_of_parent (hp : env.parent? c = some p) (i : Nat) :
    env.classAbove? p i = env.classAbove? c (i + 1) := by
  unfold classAbove?
  rw [ancestor?_of_parent hp]

theorem classAbove?_of_ancestor (hx : env.ancestor? c j = some x) (i : Nat) :
    env.classAbove? x i = env.classAbove? c (j + i) := by
  unfold classAbove?
  rw [ancestor?_add, hx]
  rfl

theorem exists_parent_of_ancestor {q : Handle} (hx : env.ancestor? c j = some x)
    (hq : env.parent? x = some q) :
    ∃ p, env.parent? c = some p ∧ env.ancestor? p j = some q := by
  have hq' : env.ancestor? c (j + 1) = some q := by
    rw [ancestor?_succ, hx]
    exact hq
  cases hp : env.parent? c with
  | none =>
    have hone : env.ancestor? c 1 = none := hp
    rw [Nat.add_comm, ancestor?_add, hone] at hq'
    cases hq'
  | some p =>
    refine ⟨p, rfl, ?_⟩
    rw [ancestor?_of_parent hp, hq']

/-- A search goes on past classes that lack the name. -/
theorem Resolves.shift {q : Handle} {v : Value} (hr : env.Resolves q hash n (some v))
    (hq : env.ancestor? p j = some q) (hpass : env.Passes p hash j) (hn : j + n < 256) :
    env.Resolves p hash (j + n) (some v) := by
  have hboth (hrest : env.Passes q hash n) : env.Passes p hash (j + n) := by
    intro i hi
    by_cases hlt : i < j
    · exact hpass i hlt
    · obtain ⟨k, hk, hlacks⟩ := hrest (i - j) (by omega)
      rw [classAbove?_of_ancestor hq, Nat.add_sub_cancel' (by omega)] at hk
      exact ⟨k, hk, hlacks⟩
  cases hr with
  | found hlt hrest hk hv =>
    rw [classAbove?_of_ancestor hq] at hk
    exact .found hn (hboth hrest) hk hv
  | base hle hrest hend hbound hv =>
    refine .base (Nat.le_of_lt hn) (hboth hrest) ?_ ?_ hv
    · rw [ancestor?_add, hq]
      exact hend
    · obtain ⟨i, hi, k, hk, hentity⟩ := hbound
      rw [classAbove?_of_ancestor hq] at hk
      exact ⟨j + i, by omega, k, hk, hentity⟩

/-- What is found above `x` is found above `c` if no class in between has it. -/
theorem superResolves_of_passes {v : Value} (hx : env.ancestor? c j = some x)
    (hpass : ∀ i < j, ∃ k, env.classAbove? c (i + 1) = some k ∧ k.Lacks hash) (hn : j + n < 256)
    (hr : env.SuperResolves x hash n (some v)) : env.SuperResolves c hash (j + n) (some v) := by
  obtain ⟨q, hq, hr⟩ := hr
  obtain ⟨p, hp, hq⟩ := exists_parent_of_ancestor hx hq
  refine ⟨p, hp, hr.shift hq (fun i hi => ?_) hn⟩
  rw [classAbove?_of_parent hp]
  exact hpass i hi

/-- What `x`, above `c`, has itself, is not looked for beyond `x`. -/
theorem le_of_superResolves {k : ClassObject} (hx : env.classAbove? c (j + 1) = some k)
    (hk : ¬ k.Lacks hash) (hr : env.SuperResolves c hash n r) : n ≤ j := by
  obtain ⟨p, hp, hr⟩ := hr
  obtain ⟨hpass, -, -⟩ := hr.stops
  by_contra hlt
  obtain ⟨k', hk', hlacks⟩ := hpass j (by omega)
  rw [classAbove?_of_parent hp, hx] at hk'
  cases hk'
  exact hk hlacks

end Environment

namespace Exec

open Environment

variable {m : Machine} {h p : Handle} {i : InstanceObject} {hash : UInt32} {argc n : Nat}

/-! ### One call -/

/-- Calls what a search for a name has found, for the receiver below the arguments. -/
def callFound (env : Environment) (hash : UInt32) (argc : Nat) : Option Value → Exec Unit
  | some v => callForObject (v.delink env.memory.cells) argc
  | none => fault (.notInvocable (env.variableName hash))

theorem onEnvironment_eq {α : Type} (f : Environment → α × Environment) (m : Machine) :
    onEnvironment f m = .ok (f m.env).1 { m with env := (f m.env).2 } := rfl

theorem invoke_of_inst (hpeek : peek argc m = .ok (.object h) m)
    (hi : m.env.heap.get? h = some (.inst i)) (isSuper : Bool) :
    invoke hash argc isSuper m = invokeOnInstance i hash argc isSuper m := by
  unfold invoke
  rw [bind_of_ok hpeek]
  refine (bind_of_ok rfl).trans ?_
  rw [hi]

/-- The member that a search finds is called. -/
theorem invokeFromClass_of_resolves {r : Option Value} (hr : m.env.Resolves p hash n r) :
    invokeFromClass p hash argc m =
      callFound m.env hash argc r { m with env := m.env.searched p n } := by
  have hfind : m.env.findMember p hash = (r, m.env.searched p n) := findMember_eq_iff.2 ⟨n, hr, rfl⟩
  have hcells : (m.env.searched p n).memory.cells = m.env.memory.cells := by
    unfold searched
    split <;> rfl
  have htokens : (m.env.searched p n).variableName hash = m.env.variableName hash := by
    unfold searched
    split <;> rfl
  have hsearch : onEnvironment (·.findMember p hash) m =
      .ok r { m with env := m.env.searched p n } := by
    rw [onEnvironment_eq, hfind]
  unfold invokeFromClass
  rw [bind_of_ok hsearch]
  cases r with
  | some v =>
    refine (bind_of_ok rfl).trans ?_
    rw [hcells]
    rfl
  | none =>
    refine (bind_of_ok rfl).trans ?_
    rw [htokens]
    rfl

/-- A super call for an instance whose class has a parent. -/
theorem invoke_super {r : Option Value} (hpeek : peek argc m = .ok (.object h) m)
    (hi : m.env.heap.get? h = some (.inst i)) (hp : m.env.parent? i.classHandle = some p)
    (hr : m.env.Resolves p hash n r) :
    invoke hash argc true m = callFound m.env hash argc r
      { m with env := (m.env.remembering [i.classHandle]).searched p n } := by
  have hparent : onEnvironment (·.resolveParent i.classHandle) m =
      .ok (some p) { m with env := m.env.remembering [i.classHandle] } := by
    rw [onEnvironment_eq, resolveParent_eq, hp]
  rw [invoke_of_inst hpeek hi]
  unfold invokeOnInstance
  rw [if_pos rfl, bind_of_ok hparent]
  exact invokeFromClass_of_resolves (m := { m with env := m.env.remembering [i.classHandle] })
    (hr.remembering [i.classHandle])

/-- A super call for an instance whose class has no parent. -/
theorem invoke_super_of_none (hpeek : peek argc m = .ok (.object h) m)
    (hi : m.env.heap.get? h = some (.inst i)) (hp : m.env.parent? i.classHandle = none) :
    invoke hash argc true m = fault .noParentMethod m := by
  have hsame : m.env.remembering [i.classHandle] = m.env := by
    refine remembering_of_eq fun k hk => ?_
    have hnone : m.env.parentFor? k = none := by
      rw [← hp]
      unfold Environment.parent?
      rw [hk]
      rfl
    rw [hnone]
    exact (Option.or_eq_none_iff.1 hnone).1.symm
  have hparent : onEnvironment (·.resolveParent i.classHandle) m = .ok none m := by
    rw [onEnvironment_eq, resolveParent_eq, hp, hsame]
  rw [invoke_of_inst hpeek hi]
  unfold invokeOnInstance
  rw [if_pos rfl, bind_of_ok hparent]

end Exec

/-! ### An override that calls itself -/

/-- The instruction at an offset, and the offset after it. -/
def Code.instruction? (code : Array UInt8) (offset : Nat) : Option (Instruction × Nat) :=
  (opcode? code offset).bind (Instruction.decode? code (offset + 1))

/-- Code that begins with a super call of a name, without arguments, on the receiver. -/
structure Code.SuperInvokes (code : Array UInt8) (hash : UInt32) : Prop where
  size_le : code.size ≤ Code.maxSize
  receiver : Code.instruction? code 0 = some (.getLocal 0, 2)
  call : Code.instruction? code 2 = some (.invoke 0 hash true, 9)

/-- A class has under a hash a function that begins with a super call of the same name. -/
structure Heap.Overrides (heap : Heap) (c : Handle) (hash : UInt32) (f : Handle) : Prop where
  has : ∃ k, heap.class? c = some k ∧ k.Has hash (.object f)
  code : ∃ g, heap.function? f = some g ∧ g.arity = 0 ∧ Code.SuperInvokes g.code hash

/-- What a super call of a name finds for an instance begins with such a call itself. -/
def Environment.Repeats (env : Environment) (hash : UInt32) (h f : Handle) : Prop :=
  ∃ i p, env.heap.get? h = some (.inst i) ∧ env.parent? i.classHandle = some p ∧
    env.heap.Overrides p hash f

namespace Machine

/-- The functions whose calls are active, the outermost first. -/
def calls (m : Machine) : List Handle := m.thread.frames.toList.map (·.function)

/-- The current call is about to begin with a super call on an instance, and what that call finds
begins so too. -/
structure Recurring (m : Machine) (hash : UInt32) (h f : Handle) : Prop where
  top : ∃ g, m.thread.frames.back? = some g ∧ g.ip = 0 ∧ Code.SuperInvokes g.code hash ∧
    m.thread.stack[g.slots]? = some (.object h)
  repeats : m.env.Repeats hash h f
  debugger : m.thread.debug.debugger = none
  active : m.thread.returnFrame < m.thread.frames.size

variable {m : Machine} {u : Frame → Frame}

theorem calls_mapFrame (m : Machine) (hu : ∀ g, (u g).function = g.function) :
    (m.mapFrame u).calls = m.calls := by
  unfold calls mapFrame mapFrames
  apply List.ext_getElem?
  intro i
  simp only [List.getElem?_map, Array.getElem?_toList, Array.getElem?_modify]
  split
  · cases m.thread.frames[i]? <;> simp [hu]
  · rfl

theorem calls_advanced (m : Machine) (f : Frame) (op : Opcode) (next : Nat) :
    (m.advanced f op next).calls = m.calls := by
  have hnoted : m.noted.calls = m.calls := m.calls_mapFrame fun _ => rfl
  have hmoved := calls_mapFrame (m.traced f op) (u := fun f => { f with ip := next }) fun _ => rfl
  exact hmoved.trans hnoted

end Machine

namespace Environment

variable {env : Environment} {c f : Handle} {hash : UInt32}

theorem function?_remembering (env : Environment) (passed : List Handle) (h : Handle) :
    (env.remembering passed).heap.function? h = env.heap.function? h := by
  unfold Heap.function?
  rw [get?_remembering]
  cases env.heap.get? h with
  | none => rfl
  | some o => cases o <;> by_cases hmem : h ∈ passed <;> simp [hmem, withParent]

theorem overrides_remembering (ho : env.heap.Overrides c hash f) (passed : List Handle) :
    (env.remembering passed).heap.Overrides c hash f := by
  obtain ⟨⟨k, hk, hv⟩, hcode⟩ := ho
  refine ⟨?_, ?_⟩
  · obtain ⟨k', hk', hown, -⟩ := class?_remembering_of_some hk passed hash
    exact ⟨k', hk', ownMember?_eq_some.1 (hown.trans (ownMember?_eq_some.2 hv))⟩
  · rwa [function?_remembering]

theorem Repeats.remembering {h : Handle} (hf : env.Repeats hash h f) (passed : List Handle) :
    (env.remembering passed).Repeats hash h f := by
  obtain ⟨i, p, hi, hp, ho⟩ := hf
  refine ⟨i, p, ?_, (env.parent?_remembering passed _).trans hp, overrides_remembering ho passed⟩
  rw [get?_remembering, hi]
  by_cases hmem : h ∈ passed <;> simp [hmem, withParent]

/-- What a class itself has is found without passing a class. -/
theorem resolves_of_overrides (ho : env.heap.Overrides c hash f) :
    env.Resolves c hash 0 (some (.object f)) := by
  obtain ⟨⟨k, hk, hv⟩, -⟩ := ho
  exact .found (by decide) (fun i hi => absurd hi (Nat.not_lt_zero i)) hk hv

theorem searched_zero (env : Environment) (c : Handle) : env.searched c 0 = env := by
  rw [searched_of_end (.inl (by decide))]
  exact env.remembering_nil

end Environment

namespace Exec

open Environment

variable {m : Machine} {f h : Handle} {g : FunctionObject} {hash : UInt32}

theorem callForObject_of_function (hg : m.env.heap.function? f = some g) (argc : Nat) :
    callForObject (.object f) argc m = call f argc m := by
  have hget := Heap.function?_eq_some.1 hg
  unfold callForObject
  refine (bind_of_ok rfl).trans ?_
  rw [hget]
  unfold callCallee
  refine (bind_of_ok rfl).trans ?_
  rw [hget]

theorem call_of_full (hg : m.env.heap.function? f = some g) (argc : Nat)
    (harity : g.arity.toInt = argc) (hfull : Thread.maxFrames ≤ m.thread.frames.size) :
    call f argc m = fault (.frameOverflow m.thread.frames.size Thread.maxFrames) m := by
  unfold call
  refine (bind_of_ok rfl).trans ?_
  rw [hg]
  refine (bind_of_ok rfl).trans ?_
  rw [if_neg (not_not.2 harity), if_pos hfull]

theorem call_of_lt (hg : m.env.heap.function? f = some g) (argc : Nat)
    (harity : g.arity.toInt = argc) (hlt : m.thread.frames.size < Thread.maxFrames)
    (hargs : argc < m.thread.stack.size) (hsize : argc + 1 < Heap.sizeRange) :
    call f argc m = .ok () (m.mapFrames
      (·.push (.enter f g.code (m.thread.stack.size - (argc + 1)) g.module))) := by
  have hbelow : heightBelow (argc + 1) m = .ok (m.thread.stack.size - (argc + 1)) m := by
    unfold heightBelow
    rw [if_pos (Nat.succ_le_of_lt hargs)]
  unfold call
  refine (bind_of_ok rfl).trans ?_
  rw [hg]
  refine (bind_of_ok rfl).trans ?_
  rw [if_neg (not_not.2 harity), if_neg (by omega), bind_of_ok (size_of_lt hsize),
    bind_of_ok hbelow]
  unfold enter
  rw [if_pos hlt]

/-- Performing the instruction at the position of the current call. -/
theorem step_of_instruction? {g : Frame} {i : Instruction} {next : Nat}
    (hg : m.thread.frames.back? = some g) (hcode : g.code.size ≤ Code.maxSize)
    (hi : Code.instruction? g.code g.ip = some (i, next)) :
    ∃ op, ∀ executor, step executor m = perform executor i (m.advanced g op next) := by
  obtain ⟨op, hop, hi⟩ := Option.bind_eq_some_iff.1 hi
  have hfetch := advance_eq hg hcode hop
  rw [hi] at hfetch
  refine ⟨op, fun executor => ?_⟩
  rw [step_eq, bind_of_ok hfetch]

/-- Without a debugger a run goes on step by step. -/
theorem execute_of_active (hactive : m.thread.returnFrame < m.thread.frames.size)
    (hdebug : m.thread.debug.debugger = none) (fuel : Nat) :
    execute (fuel + 1) m = (step (execute fuel) >>= fun _ => execute fuel) m := by
  have hrun : m.thread.isActive = true := decide_eq_true hactive
  rw [execute_succ]
  refine (bind_of_ok rfl).trans ?_
  rw [if_pos hrun, bind_of_ok (Traced.checkBreakpoint_of_none hdebug)]

theorem getLocal_of_getElem? {g : Frame} {v : Value} {slot : UInt8}
    (hg : m.thread.frames.back? = some g) (hv : m.thread.stack[g.slots + slot.toNat]? = some v)
    (hroom : m.thread.stack.size < Thread.maxStack) :
    getLocal slot m = .ok () (m.mapStack (·.push v)) := by
  obtain ⟨hlt, -⟩ := Array.getElem?_eq_some_iff.1 hv
  have hsize : g.slots + slot.toNat < Heap.sizeRange := by
    unfold Thread.maxStack at hroom
    unfold Heap.sizeRange
    omega
  have hindex : localIndex slot m = .ok (g.slots + slot.toNat) m := by
    unfold localIndex
    rw [bind_of_ok (frame_of_back? hg), bind_of_ok (size_of_lt hsize)]
    refine (bind_of_ok rfl).trans ?_
    rw [if_pos hlt]
    rfl
  have hvalue : valueAt (g.slots + slot.toNat) m = .ok v m := by
    unfold valueAt
    rw [hv]
  unfold getLocal
  rw [bind_of_ok hindex, bind_of_ok hvalue]
  unfold push
  rw [if_pos hroom]

end Exec

namespace Machine

open Environment Exec

variable {m : Machine} {hash : UInt32} {h f : Handle}

/-! ### The run -/

/-- The override pushes its receiver and then calls what is found above the receiver's class. -/
theorem Recurring.round (hm : m.Recurring hash h f)
    (hroom : m.thread.stack.size < Thread.maxStack) :
    ∃ m', (∀ fuel, execute (fuel + 2) m = (call f 0 >>= fun _ => execute fuel) m') ∧
      m'.calls = m.calls ∧ m'.thread.stack = m.thread.stack.push (.object h) ∧
      m'.env.Repeats hash h f ∧ m'.thread.debug = m.thread.debug ∧
      m'.thread.returnFrame = m.thread.returnFrame := by
  obtain ⟨⟨g, hg, hip, hcode, hslot⟩, hrepeats, hdebug, hactive⟩ := hm
  -- the first instruction
  obtain ⟨op₁, hstep₁⟩ := step_of_instruction? hg hcode.size_le (by rw [hip]; exact hcode.receiver)
  have hg₁ := back?_advanced hg op₁ 2
  have hpush : getLocal 0 (m.advanced g op₁ 2) =
      .ok () ((m.advanced g op₁ 2).mapStack (·.push (.object h))) :=
    getLocal_of_getElem? hg₁ hslot hroom
  let m₁ := (m.advanced g op₁ 2).mapStack (·.push (.object h))
  have hactive₁ : m₁.thread.returnFrame < m₁.thread.frames.size := by
    show m.thread.returnFrame < (m.advanced g op₁ 2).thread.frames.size
    rwa [size_advanced]
  -- the second
  obtain ⟨op₂, hstep₂⟩ := step_of_instruction? (m := m₁) hg₁ hcode.size_le hcode.call
  let m₂ := m₁.advanced { g with ip := 2, ipLast := g.ip } op₂ 9
  have hpeek : peek 0 m₂ = .ok (.object h) m₂ := by
    refine peek_of_getElem? (by decide) ?_ ?_
    · show 0 < (m.thread.stack.push (.object h)).size
      simp
    · show (m.thread.stack.push (.object h))[(m.thread.stack.push (.object h)).size - 1]? = _
      simp
  obtain ⟨i, p, hi, hp, ho⟩ := hrepeats
  obtain ⟨function, hfunction, -, -⟩ := ho.code
  have hinvoke : invoke hash 0 true m₂ =
      call f 0 { m₂ with env := m₂.env.remembering [i.classHandle] } := by
    rw [invoke_super (m := m₂) hpeek hi hp (resolves_of_overrides ho), searched_zero]
    refine callForObject_of_function (g := function) ?_ 0
    rw [function?_remembering]
    exact hfunction
  refine ⟨{ m₂ with env := m₂.env.remembering [i.classHandle] }, fun fuel => ?_, ?_, rfl,
    Repeats.remembering ⟨i, p, hi, hp, ho⟩ _, rfl, rfl⟩
  · have hfirst : step (execute (fuel + 1)) m = .ok () m₁ := (hstep₁ _).trans hpush
    have hsecond : step (execute fuel) m₁ =
        call f 0 { m₂ with env := m₂.env.remembering [i.classHandle] } := (hstep₂ _).trans hinvoke
    rw [execute_of_active hactive hdebug, bind_of_ok hfirst, execute_of_active hactive₁ hdebug,
      bind_of_same hsecond]
  · exact (calls_advanced m₁ _ op₂ 9).trans (calls_advanced m g op₁ 2)

theorem length_calls (m : Machine) : m.calls.length = m.thread.frames.size := by simp [calls]

theorem calls_push (m : Machine) (g : Frame) :
    (m.mapFrames (·.push g)).calls = m.calls ++ [g.function] := by simp [calls, mapFrames]

/-- Entering a function that begins with a super call on the value on top. -/
theorem recurring_of_call {c : Handle} {g : Handle} (hrepeats : m.env.Repeats hash h f)
    (ho : m.env.heap.Overrides c hash g) (htop : m.thread.stack.back? = some (.object h))
    (hdebug : m.thread.debug.debugger = none)
    (hreturn : m.thread.returnFrame ≤ m.thread.frames.size)
    (hlt : m.thread.frames.size < Thread.maxFrames) :
    ∃ m', call g 0 m = .ok () m' ∧ m'.Recurring hash h f ∧ m'.calls = m.calls ++ [g] ∧
      m'.thread.stack = m.thread.stack := by
  obtain ⟨function, hfunction, harity, hcode⟩ := ho.code
  have hargs : 0 < m.thread.stack.size := by
    by_contra hempty
    simp [Array.eq_empty_of_size_eq_zero (Nat.eq_zero_of_not_pos hempty)] at htop
  have hcall := call_of_lt hfunction 0 (by rw [harity]; rfl) hlt hargs (by decide)
  refine ⟨_, hcall, ⟨⟨.enter g function.code (m.thread.stack.size - 1) function.module, ?_, rfl,
    hcode, ?_⟩, hrepeats, hdebug, ?_⟩, calls_push m _, rfl⟩
  · show (m.thread.frames.push _).back? = _
    rw [Array.back?_push]
  · rwa [Array.back?_eq_getElem?] at htop
  · show m.thread.returnFrame < (m.thread.frames.push _).size
    rw [Array.size_push]
    omega

/-- With room for a call the override is entered anew. -/
theorem Recurring.enters (hm : m.Recurring hash h f) (hroom : m.thread.stack.size < Thread.maxStack)
    (hlt : m.thread.frames.size < Thread.maxFrames) :
    ∃ m', (∀ fuel, execute (fuel + 2) m = execute fuel m') ∧ m'.Recurring hash h f ∧
      m'.calls = m.calls ++ [f] ∧ m'.thread.stack.size = m.thread.stack.size + 1 := by
  obtain ⟨m₁, hrun, hcalls, hstack, hrepeats, hdebug, hreturn⟩ := hm.round hroom
  have hsize : m₁.thread.frames.size = m.thread.frames.size := by
    rw [← length_calls, hcalls, length_calls]
  obtain ⟨i, p, hi, hp, ho⟩ := hrepeats
  obtain ⟨m₂, hcall, hm₂, hcalls₂, hstack₂⟩ := recurring_of_call ⟨i, p, hi, hp, ho⟩ ho
    (by rw [hstack, Array.back?_push]) (by rw [hdebug, hm.debugger])
    (by rw [hreturn, hsize]; exact Nat.le_of_lt hm.active) (by omega)
  refine ⟨m₂, fun fuel => ?_, hm₂, ?_, ?_⟩
  · rw [hrun, bind_of_ok hcall]
  · rw [hcalls₂, hcalls]
  · rw [hstack₂, hstack, Array.size_push]

/-- The override is entered until no call fits any more. -/
theorem Recurring.overflows (hm : m.Recurring hash h f) (free : Nat)
    (hfree : m.thread.frames.size + free = Thread.maxFrames)
    (hroom : m.thread.stack.size + free < Thread.maxStack) (fuel : Nat)
    (hfuel : 2 * free + 2 ≤ fuel) :
    ∃ m', execute fuel m = .error (.error (.ofCause (.frameOverflow 64 64))) m' ∧
      m'.calls = m.calls ++ List.replicate free f := by
  induction free generalizing m fuel with
  | zero =>
    obtain ⟨m₁, hrun, hcalls, -, ⟨i, p, -, -, ho⟩, -, -⟩ := hm.round (by omega)
    obtain ⟨function, hfunction, harity, -⟩ := ho.code
    have hsize : m₁.thread.frames.size = Thread.maxFrames := by
      rw [← length_calls, hcalls, length_calls]
      exact hfree
    have hfull := call_of_full hfunction 0 (by rw [harity]; rfl) (Nat.le_of_eq hsize.symm)
    rw [hsize] at hfull
    obtain ⟨fuel, rfl⟩ := Nat.exists_eq_add_of_le' (show 2 ≤ fuel by omega)
    refine ⟨m₁, ?_, by simp [hcalls]⟩
    rw [hrun]
    exact bind_of_error hfull
  | succ free ih =>
    obtain ⟨m₁, hrun, hm₁, hcalls, hstack⟩ := hm.enters (by omega) (by omega)
    have hsize : m₁.thread.frames.size = m.thread.frames.size + 1 := by
      rw [← length_calls, hcalls, List.length_append, length_calls]
      rfl
    obtain ⟨fuel, rfl⟩ := Nat.exists_eq_add_of_le' (show 2 ≤ fuel by omega)
    obtain ⟨m₂, hover, hcalls₂⟩ := ih hm₁ (by omega) (by omega) fuel (by omega)
    refine ⟨m₂, (hrun fuel).trans hover, ?_⟩
    rw [hcalls₂, hcalls, List.append_assoc, List.replicate_succ]
    rfl

/-- A call of an override on an instance whose class and its parent both have one. -/
theorem recurring_of_invoke {i : InstanceObject} {g p : Handle}
    (hi : m.env.heap.get? h = some (.inst i)) (hfield : i.fields.get? hash = none)
    (hg : m.env.heap.Overrides i.classHandle hash g) (hp : m.env.parent? i.classHandle = some p)
    (hf : m.env.heap.Overrides p hash f) (htop : m.thread.stack.back? = some (.object h))
    (hdebug : m.thread.debug.debugger = none)
    (hreturn : m.thread.returnFrame ≤ m.thread.frames.size)
    (hlt : m.thread.frames.size < Thread.maxFrames) :
    ∃ m', (∀ executor, perform executor (.invoke 0 hash false) m = .ok () m') ∧
      m'.Recurring hash h f ∧ m'.calls = m.calls ++ [g] ∧ m'.thread.stack = m.thread.stack := by
  have hpeek : peek 0 m = .ok (.object h) m := by
    rw [Array.back?_eq_getElem?] at htop
    obtain ⟨hlt, -⟩ := Array.getElem?_eq_some_iff.1 htop
    exact peek_of_getElem? (by decide) (by omega) htop
  obtain ⟨m', hcall, hrest⟩ := recurring_of_call ⟨i, p, hi, hp, hf⟩ hg htop hdebug hreturn hlt
  obtain ⟨function, hfunction, -, -⟩ := hg.code
  refine ⟨m', fun executor => ?_, hrest⟩
  show invoke hash 0 false m = _
  rw [invoke_of_inst hpeek hi]
  unfold invokeOnInstance
  rw [if_neg Bool.false_ne_true, hfield]
  dsimp only
  rw [invokeFromClass_of_resolves (resolves_of_overrides hg), searched_zero]
  exact (callForObject_of_function hfunction 0).trans hcall

/-- **Super calls.** A super call calls the nearest definition above the class of the instance,
whichever function makes it, so that inherited overrides are entered anew. -/
theorem super_calls {m : Machine} {h : Handle} {i : InstanceObject}
    (hi : m.env.heap.get? h = some (.inst i)) :
    (∀ (argc : UInt8) hash executor, peek argc.toNat m = .ok (.object h) m →
      (m.env.parent? i.classHandle = none →
        perform executor (.invoke argc hash true) m = fault .noParentMethod m) ∧
      ∀ p n r, m.env.parent? i.classHandle = some p → m.env.Resolves p hash n r →
        perform executor (.invoke argc hash true) m = callFound m.env hash argc.toNat r
          { m with env := (m.env.remembering [i.classHandle]).searched p n }) ∧
    (∀ hash x j, m.env.ancestor? i.classHandle j = some x →
      (∀ n v, j + n < 256 →
        (∀ l < j, ∃ k, m.env.classAbove? i.classHandle (l + 1) = some k ∧ k.Lacks hash) →
        m.env.SuperResolves x hash n (some v) →
          m.env.SuperResolves i.classHandle hash (j + n) (some v)) ∧
      ∀ n r k, 0 < j → m.env.heap.class? x = some k → ¬ k.Lacks hash →
        m.env.SuperResolves i.classHandle hash n r → n < j) ∧
    ∀ hash p f g fuel, m.thread.stack.back? = some (.object h) → i.fields.get? hash = none →
      m.env.heap.Overrides i.classHandle hash g → m.env.parent? i.classHandle = some p →
      m.env.heap.Overrides p hash f → m.thread.debug.debugger = none →
      m.thread.returnFrame ≤ m.thread.frames.size → m.thread.frames.size < 64 →
      m.thread.stack.size + 64 ≤ 16384 → 128 ≤ fuel →
        ∃ m', (perform (execute fuel) (.invoke 0 hash false) >>= fun _ => execute fuel) m =
            .error (.error (.ofCause (.frameOverflow 64 64))) m' ∧
          m'.calls = m.calls ++ g :: List.replicate (63 - m.thread.frames.size) f := by
  refine ⟨fun argc hash executor hpeek => ⟨?_, ?_⟩, fun hash x j hx => ⟨?_, ?_⟩, ?_⟩
  · exact invoke_super_of_none hpeek hi
  · intro p n r hp hr
    exact invoke_super hpeek hi hp hr
  · intro n v hn hpass hr
    exact superResolves_of_passes hx hpass hn hr
  · intro n r k hj hk hhas hr
    obtain ⟨j, rfl⟩ := Nat.exists_eq_add_of_le' hj
    rw [← classAbove?_of_some hx] at hk
    exact Nat.lt_succ_of_le (le_of_superResolves hk hhas hr)
  · intro hash p f g fuel htop hfield hg hp hf hdebug hreturn hlt hroom hfuel
    obtain ⟨m₁, hinvoke, hm₁, hcalls, hstack⟩ :=
      recurring_of_invoke hi hfield hg hp hf htop hdebug hreturn hlt
    have hsize : m₁.thread.frames.size = m.thread.frames.size + 1 := by
      rw [← length_calls, hcalls, List.length_append, length_calls]
      rfl
    obtain ⟨m₂, hover, hcalls₂⟩ := hm₁.overflows (63 - m.thread.frames.size)
      (by unfold Thread.maxFrames; omega) (by unfold Thread.maxStack; rw [hstack]; omega) fuel
      (by omega)
    refine ⟨m₂, ?_, ?_⟩
    · rw [bind_of_ok (hinvoke _), hover]
    · rw [hcalls₂, hcalls, List.append_assoc]
      rfl

/-- Code that begins with a super call of the name 7. -/
def callingSuper : Array UInt8 :=
  #[Opcode.getLocal.toByte, 0, Opcode.invoke.toByte, 0, 7, 0, 0, 0, 1, Opcode.ret.toByte]

/-- Three classes, each the parent of the next, that all have a method 7; the last two begin with a
super call of it. There is an instance of the last. -/
def threeLevels : Environment :=
  let below (c : Nat) := { ClassObject.ofHash 0 with parent := some ⟨c, 0⟩ }
  let heap := [
    Obj.function (.ofCode 0 7 #[Opcode.null.toByte, Opcode.ret.toByte]),
    .function (.ofCode 0 7 callingSuper), .function (.ofCode 0 7 callingSuper),
    .scriptClass (.ofHash 0), .scriptClass (below 3), .scriptClass (below 4),
    .inst (.ofClass ⟨5, 0⟩)].foldl (fun heap o => (heap.alloc o).2) Heap.empty
  let env := Environment.new heap (fun _ => Native.first) none default
  let env := env.defineMethod ⟨3, 0⟩ ⟨0, 0⟩ 7
  let env := env.defineMethod ⟨4, 0⟩ ⟨1, 0⟩ 7
  env.defineMethod ⟨5, 0⟩ ⟨2, 0⟩ 7

/-- A call of the given functions for the instance of the last class, which is on top. -/
def performing (fs : List Handle) : Machine :=
  ⟨threeLevels, { Thread.new 0 with
    stack := #[.object ⟨6, 0⟩]
    frames := (fs.map fun f => Frame.enter f callingSuper 0 none).toArray }⟩

/-- The method of the second class, performed for the instance of the last, makes a super call of
its name and is called again, though the first class has the definition above. -/
theorem super_call_in_inherited_method :
    threeLevels.ancestor? ⟨5, 0⟩ 1 = some ⟨4, 0⟩ ∧
      threeLevels.SuperResolves ⟨4, 0⟩ 7 0 (some (.object ⟨0, 0⟩)) ∧
      (after (perform (execute 0) (.invoke 0 7 true)) (performing [⟨1, 0⟩])).calls =
        [⟨1, 0⟩, ⟨1, 0⟩] := by
  refine ⟨by decide +kernel, ⟨⟨3, 0⟩, by decide +kernel, ?_⟩, by decide +kernel⟩
  have hown : (threeLevels.heap.class? ⟨3, 0⟩).bind (ownMember? · 7) = some (.object ⟨0, 0⟩) := by
    decide +kernel
  obtain ⟨k, hk, hv⟩ := Option.bind_eq_some_iff.1 hown
  exact .found (by decide) (fun i hi => absurd hi (Nat.not_lt_zero i)) hk (ownMember?_eq_some.1 hv)

theorem overrides_threeLevels {c f : Handle}
    (hown : (threeLevels.heap.class? c).bind (ownMember? · 7) = some (.object f))
    (hcode : (threeLevels.heap.function? f).map (fun g => (g.arity, g.code)) =
      some (0, callingSuper)) : threeLevels.heap.Overrides c 7 f := by
  obtain ⟨k, hk, hv⟩ := Option.bind_eq_some_iff.1 hown
  obtain ⟨g, hg, heq⟩ := Option.map_eq_some_iff.1 hcode
  obtain ⟨harity, hcode⟩ := Prod.mk.inj heq
  refine ⟨⟨k, hk, ownMember?_eq_some.1 hv⟩, g, hg, harity, ?_⟩
  rw [hcode]
  exact ⟨by decide, by decide, by decide⟩

/-- A call of the method on the instance of the last class performs the last method once, the second
as often as calls fit, and never the first. -/
theorem super_calls_threeLevels :
    ∃ m', (perform (execute 128) (.invoke 0 7 false) >>= fun _ => execute 128) (performing []) =
        .error (.error (.ofCause (.frameOverflow 64 64))) m' ∧
      m'.calls = ⟨2, 0⟩ :: List.replicate 63 ⟨1, 0⟩ := by
  have hi : (performing []).env.heap.get? ⟨6, 0⟩ = some (.inst (.ofClass ⟨5, 0⟩)) := rfl
  exact (super_calls hi).2.2 7 ⟨4, 0⟩ ⟨1, 0⟩ ⟨2, 0⟩ 128 rfl rfl
    (overrides_threeLevels (by decide +kernel) (by decide +kernel)) (by decide +kernel)
    (overrides_threeLevels (by decide +kernel) (by decide +kernel)) rfl (by decide) (by decide)
    (by decide) (by decide)

end Machine
end ScriptVm
