import ScriptVm.Proofs.Environment.MethodTables
import ScriptVm.Proofs.Heap.ExactCollection
import ScriptVm.Proofs.Machine.FailedSteps

/-!
# Initializers

A class keeps its initializer beside its methods. A method that is bound to a class under the name
of the class becomes its initializer; a method that comes from an extension of the class does not,
whatever its name.

* `Binding` is what can happen to the method under a class's own name. Of a list of bindings, the
  latest first, `own` is the function that was bound to the class itself last, `last` what was bound
  last in either way, and `held` what the class has under its name.
* `binding?` says what an instruction on a machine does to the method under the name of a class.
* `ClassTrail` is a history of a machine in which classes are made, named, given parents and
  methods, and merged, with the bindings of every class.
* `follows_perform` is the step, and `initializers` the result: the initializer is the function
  bound to the class itself last. It is not what was bound last once an extension has brought
  another function.
-/

namespace ScriptVm

/-! ### Bindings -/

/-- What happens to the method under a class's own name: a function is bound to the class
itself, an extension of the class brings a method, or the class loses its methods to a class
that it extends. -/
inductive Binding where
  | method (function : Handle)
  | extension (v : Value)
  | removal
deriving DecidableEq

namespace Binding

/-- The function that was bound to the class itself last. -/
def own : List Binding → Option Value
  | [] => none
  | .method function :: _ => some (.object function)
  | .extension _ :: rest => own rest
  | .removal :: rest => own rest

/-- What was bound last, to the class itself or by an extension. -/
def last : List Binding → Option Value
  | [] => none
  | .method function :: _ => some (.object function)
  | .extension v :: _ => some v
  | .removal :: rest => last rest

/-- What the class has under its name. -/
def held : List Binding → Option Value
  | [] => none
  | .method function :: _ => some (.object function)
  | .extension v :: _ => some v
  | .removal :: _ => none

/-- An extension has brought another function since one was bound to the class itself. -/
def Overtaken : List Binding → Prop
  | [] => False
  | .method _ :: _ => False
  | .extension v :: rest => own rest ≠ some v
  | .removal :: rest => Overtaken rest

theorem own_eq_last (bs : List Binding) : own bs = last bs ↔ ¬ Overtaken bs := by
  induction bs with
  | nil => exact ⟨fun _ => id, fun _ => rfl⟩
  | cons b rest ih =>
    cases b with
    | method function => exact ⟨fun _ => id, fun _ => rfl⟩
    | extension v => exact not_not.symm
    | removal => exact ih

end Binding

/-- The initializer of a class and its method under its own name are those of its bindings. -/
structure ClassObject.Follows (k : ClassObject) (bs : List Binding) : Prop where
  initializer : k.initializer = Binding.own bs
  method : k.methods.get? k.hash = Binding.held bs
  distinct : k.methods.Distinct

namespace ClassObject

variable {k k' : ClassObject} {bs : List Binding}

theorem Unconstructed.follows (hk : k.Unconstructed) : k.Follows [] :=
  ⟨hk.initializer, hk.method, hk.distinct⟩

theorem Follows.same (h : k.Follows bs) (hsame : k.SameConstructor k') : k'.Follows bs := by
  refine ⟨hsame.initializer.trans h.initializer, ?_, hsame.distinct h.distinct⟩
  rw [hsame.hash, hsame.method, h.method]

end ClassObject

/-! ### Instructions that build classes -/

/-- The instructions that make classes, give them parents and methods, and define them. -/
def Instruction.BuildsClasses : Instruction → Prop
  | .newClass _ _ | .inherit _ | .method _ _ | .defineGlobal _ => True
  | _ => False

namespace Machine

open Exec

variable {m m' : Machine} {log : Handle → List Binding} {c : Handle} {k : ClassObject}

/-- The class and the function that an instruction binds. -/
def bound? (m : Machine) (index : UInt8) : Option (Handle × Handle) := do
  let f ← m.thread.frames.back?
  let function ← (f.module.bind m.env.heap.module?).bind (·.functions[index.toNat]?)
  let c ← (m.fromTop? 0).bind (asClass? m.env.heap)
  return (c, function)

/-- The extension and the class that it extends, when the value on top is a class and is defined
under the name of another. -/
def merged? (m : Machine) (hash : UInt32) : Option (Handle × Handle) := do
  let v ← m.fromTop? 0
  let extension ← asClass? m.env.heap v
  let existing ← (m.env.globals.get? hash).or (m.env.constants.get? hash)
  let target ← asClass? m.env.heap existing
  return (extension, target)

/-- What an instruction does to the method under the name of a class. -/
def binding? (m : Machine) (c : Handle) (k : ClassObject) : Instruction → Option Binding
  | .method index hash =>
    (m.bound? index).bind fun (d, function) =>
      if c = d ∧ hash = k.hash then some (.method function) else none
  | .defineGlobal hash =>
    (m.merged? hash).bind fun (extension, target) =>
      if extension = target then none
      else if c = target then
        ((m.env.heap.class? extension).bind (·.methods.get? k.hash)).map .extension
      else if c = extension then some .removal
      else none
  | _ => none

/-- The bindings of all classes after an instruction; a class that is new has none. -/
def record (m : Machine) (i : Instruction) (log : Handle → List Binding) (c : Handle) :
    List Binding :=
  match m.env.heap.class? c with
  | some k => (m.binding? c k i).toList ++ log c
  | none => []

/-- The bindings of all classes when there is no new binding. -/
def forget (m : Machine) (log : Handle → List Binding) (c : Handle) : List Binding :=
  match m.env.heap.class? c with
  | some _ => log c
  | none => []

/-- A history of a machine with the bindings of its classes, the latest first, from where classes
have no initializers. In between there may be collections. -/
inductive ClassTrail : Machine → (Handle → List Binding) → Prop
  | start {m : Machine} : m.env.heap.Slotted →
      (∀ c k, m.env.heap.class? c = some k → k.Unconstructed) → ClassTrail m fun _ => []
  | perform {m : Machine} {log : Handle → List Binding} {i : Instruction} (executor : Exec Unit) :
      ClassTrail m log → i.BuildsClasses →
        ClassTrail (after (Exec.perform executor i) m) (m.record i log)
  | between {m m' : Machine} {log : Handle → List Binding} :
      ClassTrail m log → m.env.heap.Spares m'.env.heap → ClassTrail m' (m.forget log)
  | collect {m : Machine} {log : Handle → List Binding} (roots : List Handle) : ClassTrail m log →
      ClassTrail { m with env := { m.env with memory := (m.env.memory.collect roots).2 } } log

/-- The classes of a machine follow their bindings. -/
structure Follows (m : Machine) (log : Handle → List Binding) : Prop where
  slotted : m.env.heap.Slotted
  classes : ∀ c k, m.env.heap.class? c = some k → k.Follows (log c)

/-! ### What leaves constructors alone -/

/-- Initializers and the methods under the names of classes are as they were. -/
def Spares (m m' : Machine) : Prop := m.env.heap.Spares m'.env.heap

theorem Follows.forget (h : m.Follows log) (hspares : m.Spares m') : m'.Follows (m.forget log) := by
  refine ⟨hspares.slotted h.slotted, fun c k' hk' => ?_⟩
  unfold Machine.forget
  cases hk : m.env.heap.class? c with
  | none => exact (hspares.fresh h.slotted c k' hk hk').follows
  | some k =>
    obtain ⟨l, hl, hsame⟩ := hspares.kept h.slotted c k hk
    cases hl.symm.trans hk'
    exact (h.classes c k hk).same hsame

end Machine

namespace Environment

variable {env env' : Environment}

theorem Search.spares (h : env.Search env') : env.heap.Spares env'.heap := by
  cases h with
  | report level text => exact .refl _
  | alloc ho => exact Heap.spares_alloc env.heap ho.blank
  | remember _ _ _ => exact env.heap.spares_modifyClass _ fun _ => ⟨rfl, rfl, rfl, id⟩

end Environment

namespace Machine

open Exec

variable {m m' : Machine} {log : Handle → List Binding} {c : Handle} {k : ClassObject}

instance : AdmitsCurrent Spares where
  trans _ _ _ h h' := Heap.Spares.trans h h'
  refl _ := .refl _
  stack _ _ := .refl _
  search _ _ h := h.spares
  current _ _ _ := .refl _

theorem spares_inherit (hash : UInt32) : Keeps Spares (Exec.inherit hash) := by
  refine (keeps_peek 0).bind fun v => keeps_environment.bind fun env => ?_
  split
  · exact fun m => m.env.heap.spares_modifyClass _ fun _ => ⟨rfl, rfl, rfl, id⟩
  · exact keeps_fault _

/-! ### What the instructions do to classes -/

theorem env_pop (m : Machine) : (after pop m).env = m.env := by
  unfold after pop
  cases m.thread.stack.back? <;> rfl

/-- Taking a value off the stack after an action changes nothing of what the action left. -/
theorem env_bind_pop (x : Exec Unit) (m : Machine) :
    (after (do
      x
      let _ ← pop) m).env = (after x m).env := by
  cases hrun : x m with
  | error e m' => rw [after_of_error (bind_of_error hrun), after_of_error hrun]
  | ok a m' =>
    rw [after_bind_of_ok hrun, after_of_ok hrun]
    have hpop := env_pop m'
    cases hlast : pop m' with
    | error e m'' =>
      rw [after_of_error hlast] at hpop
      rw [after_of_error (bind_of_error hlast), hpop]
    | ok v m'' =>
      rw [after_of_ok hlast] at hpop
      rw [after_bind_of_ok hlast]
      exact hpop

theorem env_method (executor : Exec Unit) (index : UInt8) (hash : UInt32) (m : Machine) :
    (after (Exec.perform executor (.method index hash)) m).env =
      match m.bound? index with
      | some (c, function) => m.env.defineMethod c function hash
      | none => m.env := by
  show (after (Exec.method index hash) m).env = _
  unfold Exec.method bound?
  cases hf : m.thread.frames.back? with
  | none =>
    rw [after_of_error (bind_of_error (frame_of_none hf))]
    rfl
  | some f =>
    rw [after_bind_of_ok (frame_of_back? hf), after_bind_of_ok (rfl : environment m = .ok m.env m)]
    dsimp only [Option.bind_eq_bind, Option.bind_some]
    cases hfunction : (f.module.bind m.env.heap.module?).bind (·.functions[index.toNat]?) with
    | none => rfl
    | some function =>
      rw [after_bind_of_ok (rfl : ofOption _ (some function) m = .ok function m)]
      cases hv : m.fromTop? 0 with
      | none =>
        rw [after_of_error (bind_of_error (peek_of_none (by decide) hv))]
        rfl
      | some v =>
        rw [after_bind_of_ok (peek_of_fromTop? (by decide) hv)]
        dsimp only [Option.bind_some]
        cases asClass? m.env.heap v with
        | none => rfl
        | some c =>
          rw [after_bind_of_ok (rfl : ofOption _ (some c) m = .ok c m)]
          exact (env_bind_pop _ m).trans rfl

theorem heap_defineGlobal (executor : Exec Unit) (hash : UInt32) (m : Machine) :
    (after (Exec.perform executor (.defineGlobal hash)) m).env.heap =
      match m.merged? hash with
      | some (extension, target) => (m.env.extendClass extension target).heap
      | none => m.env.heap := by
  show (after (do
    Exec.defineGlobal hash (← peek 0)
    let _ ← pop) m).env.heap = _
  unfold merged?
  cases hv : m.fromTop? 0 with
  | none =>
    rw [after_of_error (bind_of_error (peek_of_none (by decide) hv))]
    rfl
  | some v =>
    rw [after_bind_of_ok (peek_of_fromTop? (by decide) hv), env_bind_pop]
    unfold Exec.defineGlobal
    rw [after_bind_of_ok (rfl : environment m = .ok m.env m)]
    dsimp only [Option.bind_eq_bind, Option.bind_some]
    -- the class is looked for among the globals, then among the constants
    cases m.env.globals.get? hash with
    | some existing =>
      dsimp only [Option.some_or, Option.bind_some]
      cases asClass? m.env.heap v <;> cases asClass? m.env.heap existing <;> rfl
    | none =>
      dsimp only [Option.none_or]
      cases m.env.constants.get? hash with
      | some existing =>
        dsimp only [Option.bind_some]
        cases asClass? m.env.heap v <;> cases asClass? m.env.heap existing <;> rfl
      | none => cases asClass? m.env.heap v <;> rfl

/-! ### Steps -/

theorem record_of_class? (i : Instruction) (log : Handle → List Binding)
    (hk : m.env.heap.class? c = some k) :
    m.record i log c = (m.binding? c k i).toList ++ log c := by
  unfold record
  rw [hk]

theorem record_of_none {i : Instruction} (hnone : ∀ c k, m.binding? c k i = none) :
    m.record i log = m.forget log := by
  funext c
  unfold record Machine.forget
  cases m.env.heap.class? c with
  | none => rfl
  | some k => exact congrArg (·.toList ++ log c) (hnone c k)

theorem binding?_method {index : UInt8} {hash : UInt32} {d function : Handle}
    (hbound : m.bound? index = some (d, function)) :
    m.binding? c k (.method index hash) =
      if c = d ∧ hash = k.hash then some (.method function) else none := by
  rw [binding?, hbound]
  rfl

theorem binding?_defineGlobal {hash : UInt32} {extension target : Handle} {e : ClassObject}
    (hmerged : m.merged? hash = some (extension, target)) (hne : extension ≠ target)
    (he : m.env.heap.class? extension = some e) :
    m.binding? c k (.defineGlobal hash) =
      if c = target then (e.methods.get? k.hash).map .extension
      else if c = extension then some .removal
      else none := by
  rw [binding?, hmerged, Option.bind_some]
  dsimp only
  rw [if_neg hne, he]
  rfl

/-- An instruction that fails, or does something else, changes no class. -/
theorem Follows.record_of_same {i : Instruction} (h : m.Follows log)
    (hheap : m'.env.heap = m.env.heap) (hnone : ∀ c k, m.binding? c k i = none) :
    m'.Follows (m.record i log) := by
  rw [record_of_none hnone]
  refine h.forget ?_
  rw [Spares, hheap]
  exact .refl _

theorem Follows.method (h : m.Follows log) (executor : Exec Unit) (index : UInt8) (hash : UInt32) :
    (after (Exec.perform executor (.method index hash)) m).Follows
      (m.record (.method index hash) log) := by
  have henv := env_method executor index hash m
  cases hbound : m.bound? index with
  | none =>
    rw [hbound] at henv
    refine h.record_of_same (congrArg _ henv) fun c k => ?_
    rw [binding?, hbound]
    rfl
  | some p =>
    obtain ⟨d, function⟩ := p
    rw [hbound] at henv
    refine ⟨henv ▸ Environment.slotted_defineMethod h.slotted d function hash, fun c k' hk' => ?_⟩
    rw [henv, Environment.class?_defineMethod] at hk'
    by_cases hcd : c = d
    · subst hcd
      rw [if_pos rfl] at hk'
      obtain ⟨k, hk, rfl⟩ := Option.map_eq_some_iff.1 hk'
      have hfollows := h.classes c k hk
      by_cases hhash : hash = k.hash
      · have hrecord : m.record (.method index hash) log c = .method function :: log c := by
          rw [record_of_class? _ log hk, binding?_method hbound, if_pos ⟨rfl, hhash⟩]
          rfl
        rw [hrecord]
        subst hhash
        exact ⟨if_pos rfl, Table.get?_insert_self _ _ _, hfollows.distinct.insert _ _⟩
      · have hrecord : m.record (.method index hash) log c = log c := by
          rw [record_of_class? _ log hk, binding?_method hbound, if_neg fun hboth => hhash hboth.2]
          rfl
        rw [hrecord]
        refine ⟨(if_neg hhash).trans hfollows.initializer, ?_, hfollows.distinct.insert _ _⟩
        exact (Table.get?_insert_of_ne _ (Ne.symm hhash) _).trans hfollows.method
    · rw [if_neg hcd] at hk'
      rw [record_of_class? _ log hk', binding?_method hbound, if_neg fun hboth => hcd hboth.1]
      exact h.classes c k' hk'

theorem isClass_of_merged? {hash : UInt32} {extension target : Handle}
    (hmerged : m.merged? hash = some (extension, target)) :
    ∃ e, m.env.heap.class? extension = some e := by
  unfold merged? at hmerged
  obtain ⟨v, -, hmerged⟩ := Option.bind_eq_some_iff.1 hmerged
  obtain ⟨d, hd, hmerged⟩ := Option.bind_eq_some_iff.1 hmerged
  obtain ⟨existing, -, hmerged⟩ := Option.bind_eq_some_iff.1 hmerged
  obtain ⟨d', -, hpair⟩ := Option.bind_eq_some_iff.1 hmerged
  cases hpair
  exact Option.isSome_iff_exists.1 (Option.filter_eq_some_iff.1 hd).2

theorem Follows.defineGlobal (h : m.Follows log) (executor : Exec Unit) (hash : UInt32) :
    (after (Exec.perform executor (.defineGlobal hash)) m).Follows
      (m.record (.defineGlobal hash) log) := by
  have hheap := heap_defineGlobal executor hash m
  cases hmerged : m.merged? hash with
  | none =>
    rw [hmerged] at hheap
    refine h.record_of_same hheap fun c k => ?_
    rw [binding?, hmerged]
    rfl
  | some p =>
    obtain ⟨extension, target⟩ := p
    rw [hmerged] at hheap
    dsimp only at hheap
    by_cases hsame : extension = target
    · -- a class that is defined again under its name stays as it is
      rw [Environment.extendClass, if_pos hsame] at hheap
      refine h.record_of_same hheap fun c k => ?_
      rw [binding?, hmerged, Option.bind_some]
      exact if_pos hsame
    obtain ⟨e, he⟩ := isClass_of_merged? hmerged
    have hdistinct := (h.classes extension e he).distinct
    refine ⟨hheap ▸ Environment.slotted_extendClass h.slotted extension target, fun c k' hk' => ?_⟩
    rw [hheap, Environment.class?_extendClass hsame he] at hk'
    by_cases htarget : c = target
    · subst htarget
      rw [if_pos rfl] at hk'
      obtain ⟨k, hk, rfl⟩ := Option.map_eq_some_iff.1 hk'
      have hfollows := h.classes c k hk
      rw [record_of_class? _ log hk, binding?_defineGlobal hmerged hsame he, if_pos rfl]
      have hmethod := Table.get?_merge (t := k.methods) hdistinct k.hash
      cases hbrought : e.methods.get? k.hash with
      | none =>
        rw [hbrought, Option.none_or, hfollows.method] at hmethod
        exact ⟨hfollows.initializer, hmethod, hfollows.distinct.merge _⟩
      | some v =>
        rw [hbrought] at hmethod
        exact ⟨hfollows.initializer, hmethod, hfollows.distinct.merge _⟩
    · rw [if_neg htarget] at hk'
      by_cases hextension : c = extension
      · subst hextension
        rw [if_pos rfl] at hk'
        cases hk'
        rw [record_of_class? _ log he, binding?_defineGlobal hmerged hsame he, if_neg htarget,
          if_pos rfl]
        exact ⟨(h.classes c e he).initializer, rfl, Table.distinct_empty⟩
      · rw [if_neg hextension] at hk'
        rw [record_of_class? _ log hk', binding?_defineGlobal hmerged hsame he, if_neg htarget,
          if_neg hextension]
        exact h.classes c k' hk'

/-- Every instruction that builds classes has the classes follow their bindings. -/
theorem Follows.perform (h : m.Follows log) (executor : Exec Unit) {i : Instruction}
    (hi : i.BuildsClasses) :
    (after (Exec.perform executor i) m).Follows (m.record i log) := by
  cases i with
  | newClass hash kind =>
    rw [record_of_none fun _ _ => rfl]
    exact h.forget (keeps_newClass hash kind m)
  | inherit hash =>
    rw [record_of_none fun _ _ => rfl]
    exact h.forget (spares_inherit hash m)
  | method index hash => exact h.method executor index hash
  | defineGlobal hash => exact h.defineGlobal executor hash
  | _ => exact hi.elim

theorem heap_collect (mem : Memory) (roots : List Handle) :
    (mem.collect roots).2.heap = (mem.heap.collect roots).heap :=
  (Memory.foldl_reclaim _ _).1

/-- All along, the classes follow their bindings. -/
theorem ClassTrail.follows (ht : ClassTrail m log) : m.Follows log := by
  induction ht with
  | start hs hclasses => exact ⟨hs, fun c k hk => (hclasses c k hk).follows⟩
  | perform executor _ hi ih => exact ih.perform executor hi
  | between _ hspares ih => exact ih.forget hspares
  | @collect m log roots _ ih =>
    refine ⟨?_, fun c k hk => ?_⟩
    · show (m.env.memory.collect roots).2.heap.Slotted
      rw [heap_collect]
      exact Heap.slotted_collect ih.slotted roots
    · change (m.env.memory.collect roots).2.heap.class? c = some k at hk
      rw [heap_collect] at hk
      have hold := (Heap.get?_collect_cases ih.slotted (Heap.class?_eq_some.1 hk)).1
      exact ih.classes c k (Heap.class?_eq_some.2 hold)

/-! ### Sequences of instructions -/

/-- What only reads leaves constructors alone. -/
theorem ClassTrail.read {i : Instruction} (ht : ClassTrail m log) (hi : i.Reads)
    (executor : Exec Unit) : ClassTrail (after (Exec.perform executor i) m) (m.forget log) :=
  ht.between (keeps_perform_reading (R := Spares) hi executor m)

/-- An instruction that builds classes or only reads. -/
theorem ClassTrail.instruction {i : Instruction} (ht : ClassTrail m log) (executor : Exec Unit)
    (hi : i.BuildsClasses ∨ i.Reads) :
    ClassTrail (after (Exec.perform executor i) m) (m.record i log) := by
  by_cases hbuilds : i.BuildsClasses
  · exact ht.perform executor hbuilds
  · have hnone : ∀ c k, m.binding? c k i = none := by
      intro c k
      cases i <;> first | rfl | exact absurd trivial hbuilds
    rw [record_of_none hnone]
    exact ht.read (hi.resolve_left hbuilds) executor

/-- The machine and the bindings of its classes after a sequence of instructions. -/
def chronicle (executor : Exec Unit) :
    List Instruction → Machine → (Handle → List Binding) → Machine × (Handle → List Binding)
  | [], m, log => (m, log)
  | i :: rest, m, log =>
    chronicle executor rest (after (Exec.perform executor i) m) (m.record i log)

/-- Instructions that build classes, with others between them that only read. -/
theorem ClassTrail.chronicle (executor : Exec Unit) {is : List Instruction}
    (hi : ∀ i ∈ is, i.BuildsClasses ∨ i.Reads) (ht : ClassTrail m log) :
    ClassTrail (Machine.chronicle executor is m log).1 (Machine.chronicle executor is m log).2 := by
  induction is generalizing m log with
  | nil => exact ht
  | cons i rest ih =>
    refine ih (fun j hj => hi j (List.mem_cons_of_mem _ hj)) ?_
    exact ht.instruction executor (hi i List.mem_cons_self)

/-! ### What initializes instances -/

end Machine

namespace Exec

/-- Calls the initializer of a new instance that lies below its arguments. -/
def runInitializer (argc : Nat) : Option Value → Exec Unit
  | some v => callForObject v argc
  | none => if argc = 0 then pure () else fault (.initializerArguments argc)

/-- Calls the initializer of an instance in a run of its own. -/
def runInitializerAlone (executor : Exec Unit) (h : Handle) : Option Value → Exec Unit
  | some v => do
    let heap := (← environment).heap
    if (v.object?.bind heap.function?).all (·.arity == 0) then
      let _ ← invokeForObject executor v (.object h) []
    else fault .initializerParameters
  | none => pure ()

end Exec

namespace Machine

open Exec

variable {m m' : Machine} {log : Handle → List Binding} {c : Handle} {k : ClassObject}

/-- The machine with a new instance in place of its class. -/
def withInstance (m : Machine) (argc : Nat) (c : Handle) : Machine :=
  after (do setPeek argc (.object (← alloc (.inst (.ofClass c))))) m

theorem instantiate_eq {argc : Nat} (hs : m.env.heap.Slotted) (hd : argc + 1 < Heap.sizeRange)
    (hcallee : m.fromTop? argc = some (.object c)) (hk : m.env.heap.class? c = some k) :
    instantiate argc m = runInitializer argc k.initializer (m.withInstance argc c) := by
  have hclass : asClass? m.env.heap (.object c) = some c := by
    refine Option.filter_eq_some_iff.2 ⟨rfl, ?_⟩
    rw [Heap.isClass, hk]
    rfl
  let m₁ : Machine := { m with env := (m.env.alloc (.inst (.ofClass c))).2 }
  have halloc : alloc (.inst (.ofClass c)) m = .ok (m.env.alloc (.inst (.ofClass c))).1 m₁ := rfl
  have hput := setPeek_of_fromTop? (m := m₁) hd hcallee
    (.object (m.env.alloc (.inst (.ofClass c))).1)
  have hk' : m₁.env.heap.class? c = some k :=
    Heap.class?_eq_some.2 (Heap.get?_alloc_of_get? hs _ (Heap.class?_eq_some.1 hk))
  have hplaced : m.withInstance argc c = _ := after_of_ok ((bind_of_ok halloc).trans hput)
  unfold instantiate
  rw [hplaced, bind_of_ok (peek_of_fromTop? hd hcallee)]
  rw [bind_of_ok (rfl : environment m = .ok m.env m), hclass]
  refine (bind_of_ok (rfl : ofOption _ (some c) m = .ok c m)).trans ?_
  refine (bind_of_ok halloc).trans ?_
  refine (bind_of_ok hput).trans ?_
  refine (bind_of_ok (rfl : environment _ = .ok _ _)).trans ?_
  have hinit : (m₁.env.heap.class? c).bind (·.initializer) = k.initializer := by
    rw [hk', Option.bind_some]
  dsimp only [mapStack]
  rw [hinit]
  cases k.initializer <;> rfl

theorem callInitializer_eq (executor : Exec Unit) {h : Handle} {i : InstanceObject}
    (hi : m.env.heap.instance? h = some i) (hk : m.env.heap.class? i.classHandle = some k) :
    callInitializer executor h m = runInitializerAlone executor h k.initializer m := by
  unfold callInitializer
  rw [bind_of_ok (rfl : environment m = .ok m.env m), hi]
  refine (bind_of_ok (rfl : ofOption _ (some i) m = .ok i m)).trans ?_
  rw [hk, Option.bind_some]
  cases k.initializer with
  | none => rfl
  | some v =>
    refine Eq.trans ?_ (bind_of_ok (rfl : environment m = .ok m.env m)).symm
    dsimp only
    cases v.object?.bind m.env.heap.function? with
    | none => rfl
    | some f =>
      by_cases harity : f.arity = 0
      · simp [harity]
      · simp [harity]

/-- **Initializers.** The initializer of a class is the function bound last under its name to the
class itself, so not one that an extension has brought since. -/
theorem initializers (ht : ClassTrail m log) (hk : m.env.heap.class? c = some k) :
    k.initializer = Binding.own (log c) ∧
    k.methods.get? k.hash = Binding.held (log c) ∧
    (k.initializer = Binding.last (log c) ↔ ¬ Binding.Overtaken (log c)) ∧
    (∀ argc, argc + 1 < Heap.sizeRange → m.fromTop? argc = some (.object c) →
      instantiate argc m = runInitializer argc (Binding.own (log c)) (m.withInstance argc c)) ∧
    ∀ executor h i, m.env.heap.instance? h = some i → i.classHandle = c →
      callInitializer executor h m = runInitializerAlone executor h (Binding.own (log c)) m := by
  obtain ⟨hs, hclasses⟩ := ht.follows
  obtain ⟨hinitializer, hmethod, -⟩ := hclasses c k hk
  refine ⟨hinitializer, hmethod, ?_, fun argc hd hcallee => ?_, fun executor h i hi hc => ?_⟩
  · rw [hinitializer]
    exact Binding.own_eq_last (log c)
  · rw [← hinitializer]
    exact instantiate_eq hs hd hcallee hk
  · subst hc
    rw [← hinitializer]
    exact callInitializer_eq executor hi hk

/-- A call in a module with two functions. -/
def inModule : Machine :=
  let m := inCode #[]
  let env := (m.env.alloc (.function (.ofCode 0 1 #[]))).2
  let env := (env.alloc (.module ⟨#[⟨0, 0⟩, ⟨1, 0⟩], #[], none⟩)).2
  ⟨env, { m.thread with stack := #[], frames := #[.enter ⟨0, 0⟩ #[] 0 (some ⟨2, 0⟩)] }⟩

/-- Defines a class, then an extension of it with the second function under the name of the class,
and gets the class. -/
def extending (constructor : List Instruction) : List Instruction :=
  [.newClass 5 0] ++ constructor ++ [.defineGlobal 5] ++
    [.newClass 5 1, .copy 1, .method 1 5, .defineGlobal 5, .getGlobal 5]

/-- The machine and its bindings after that. -/
def extended (constructor : List Instruction) : Machine × (Handle → List Binding) :=
  chronicle (execute 0) (extending constructor) inModule fun _ => []

theorem spares_inModule : Heap.empty.Spares inModule.env.heap := by
  refine .trans (.trans (Heap.spares_alloc _ ?_) (Heap.spares_alloc _ ?_)) (Heap.spares_alloc _ ?_)
  · exact nofun
  · exact nofun
  · exact nofun

theorem classTrail_extended {constructor : List Instruction}
    (hconstructor : ∀ i ∈ constructor, i.BuildsClasses ∨ i.Reads) :
    ClassTrail (extended constructor).1 (extended constructor).2 := by
  have hempty : Heap.empty.Slotted := Heap.slotted_withThreshold _ _
  have hstart : ClassTrail inModule fun _ => [] :=
    .start (spares_inModule.slotted hempty) fun c k hk => spares_inModule.fresh hempty c k rfl hk
  refine ClassTrail.chronicle (execute 0) (fun i hi => ?_) hstart
  unfold extending at hi
  simp only [List.mem_append, List.mem_cons, List.not_mem_nil, or_false] at hi
  rcases hi with ((rfl | hi) | rfl) | rfl | rfl | rfl | rfl | rfl
  case inl.inl.inr => exact hconstructor i hi
  all_goals first | exact .inl trivial | exact .inr trivial

/-- The first function is bound to the class itself; it stays the initializer when the extension
brings the second, which is what was bound last. -/
theorem initializers_extended :
    let m := (extended [.copy 1, .method 0 5]).1
    let log := (extended [.copy 1, .method 0 5]).2
    Binding.last (log ⟨4, 0⟩) = some (.object ⟨1, 0⟩) ∧
      instantiate 0 m = callForObject (.object ⟨0, 0⟩) 0 (m.withInstance 0 ⟨4, 0⟩) := by
  intro m log
  have ht : ClassTrail m log := by
    refine classTrail_extended fun i hi => ?_
    simp only [List.mem_cons, List.not_mem_nil, or_false] at hi
    rcases hi with rfl | rfl
    · exact .inr trivial
    · exact .inl trivial
  have hclass : (m.env.heap.class? ⟨4, 0⟩).isSome = true := by decide +kernel
  obtain ⟨k, hk⟩ := Option.isSome_iff_exists.1 hclass
  have hown : Binding.own (log ⟨4, 0⟩) = some (.object ⟨0, 0⟩) := by decide +kernel
  obtain ⟨-, -, -, hnew, -⟩ := initializers ht hk
  refine ⟨by decide +kernel, ?_⟩
  rw [hnew 0 (by decide) (by decide +kernel), hown]
  rfl

/-- An extension brings the first method under the name of the class. The class is a global and has
the method, but no initializer; making an instance calls nothing. -/
theorem extension_without_initializer :
    let m := (extended []).1
    let log := (extended []).2
    ClassTrail m log ∧ m.env.classByHash? 5 = some ⟨4, 0⟩ ∧
      Binding.last (log ⟨4, 0⟩) = some (.object ⟨1, 0⟩) ∧
      (m.env.heap.class? ⟨4, 0⟩).bind (·.methods.get? 5) = some (.object ⟨1, 0⟩) ∧
      (m.env.heap.class? ⟨4, 0⟩).bind (·.initializer) = none ∧
      m.fromTop? 0 = some (.object ⟨4, 0⟩) ∧
      (after (instantiate 0) m).thread.frames.size = 1 :=
  ⟨classTrail_extended nofun, by decide +kernel, by decide +kernel, by decide +kernel,
    by decide +kernel, by decide +kernel, by decide +kernel⟩

end Machine
end ScriptVm
