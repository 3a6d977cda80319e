import ScriptVm.Proofs.Environment.MethodTables
import ScriptVm.Proofs.Heap.Mirroring
import ScriptVm.Proofs.Machine.LibraryClasses
import ScriptVm.Proofs.Machine.ModuleLoading

/-!
# Files that extend a class

A file may make a class of a name that is taken, give it methods and define it: then the class of
the name gets the methods. `Extension` is such a file with the methods that it brings.

* `Heap.Gains` says which methods a class has gained, and `Machine.Extending` where in such a file a
  run is. One lemma per instruction leads from one `Machine.Extending` to the next, and
  `Machine.Extending.extends` through the whole file.
* `Load.runFile_extends` and `Load.loadFiles_extends` say that the files of a constant that is a
  class run to the end, and that the class has all their methods.
* `Machine.library_classes` is the result for the loading of such a class: the methods are there,
  and the load says that it failed.
-/

namespace ScriptVm

/-- A container, and which of its functions become methods of a class, each under a hash. -/
structure Extension where
  container : Container
  methods : List (UInt8 × UInt32)

namespace Extension

/-- The instructions that make functions the methods of the class on top. -/
def body (e : Extension) : List Instruction :=
  e.methods.flatMap fun f => [.copy 1, .method f.1 f.2]

/-- The first function makes a class of a name, gives it the methods and defines it. -/
structure Extends (e : Extension) (hash : UInt32) : Prop where
  entry : ∃ p rest kind ending, e.container.functions = p :: rest ∧ p.arity = 0 ∧
    Instruction.Returns ending ∧ Code.Spells p.chunk.code 0
      (.newClass hash kind :: (e.body ++ .defineGlobal hash :: ending))
  functions : ∀ f ∈ e.methods, f.1.toNat < e.container.functions.length

/-- A function of the container is to be the method of a name. -/
def Gives (e : Extension) (hash : UInt32) (p : Prototype) : Prop :=
  ∃ f ∈ e.methods, f.2 = hash ∧ e.container.functions[f.1.toNat]? = some p

end Extension

/-- A file of a source is a container. -/
def Source.Holds (source : Source) (file : UInt32) (c : Container) : Prop :=
  ∃ bytes, source.Gives file bytes ∧ Container.decode bytes = .ok c

theorem Source.Holds.later {source : Source} {file : UInt32} {c : Container}
    (h : source.Holds file c) : source.later.Holds file c := by
  obtain ⟨bytes, hbytes, hd⟩ := h
  exact ⟨bytes, hbytes.later, hd⟩

/-! ### Methods that are gained -/

namespace Heap

variable {heap heap' heap'' : Heap} {c g : Handle} {p : Prototype}
  {given given' : UInt32 → Prototype → Prop}

/-- Texts and modules stay, and functions but for the class that they are methods of. -/
structure KeepsCode (heap heap' : Heap) : Prop where
  texts : ∀ h s, heap.string? h = some s → heap'.string? h = some s
  modules : ∀ h m, heap.module? h = some m → heap'.module? h = some m
  functions : ∀ h f, heap.function? h = some f →
    ∃ className, heap'.function? h = some { f with className }

theorem KeepsCode.trans (h : heap.KeepsCode heap') (h' : heap'.KeepsCode heap'') :
    heap.KeepsCode heap'' := by
  refine ⟨fun x s hs => h'.texts x s (h.texts x s hs),
    fun x m hm => h'.modules x m (h.modules x m hm), fun x f hf => ?_⟩
  obtain ⟨className, hf'⟩ := h.functions x f hf
  exact h'.functions x { f with className } hf'

theorem keepsCode_of_kept (hkept : ∀ h o, heap.get? h = some o → heap'.get? h = some o) :
    heap.KeepsCode heap' :=
  ⟨fun h _ hs => string?_eq_some.2 (hkept h _ (string?_eq_some.1 hs)),
    fun h _ hm => module?_eq_some.2 (hkept h _ (module?_eq_some.1 hm)),
    fun h f hf => ⟨f.className, function?_eq_some.2 (hkept h _ (function?_eq_some.1 hf))⟩⟩

theorem class?_of_kept {c : Handle} {k : ClassObject}
    (hkept : ∀ h o, heap.get? h = some o → heap'.get? h = some o) (hk : heap.class? c = some k) :
    heap'.class? c = some k :=
  class?_eq_some.2 (hkept c _ (class?_eq_some.1 hk))

theorem KeepsCode.refl (heap : Heap) : heap.KeepsCode heap := keepsCode_of_kept fun _ _ => id

theorem keepsCode_modifyClass (heap : Heap) (c : Handle) (u : ClassObject → ClassObject) :
    heap.KeepsCode (heap.modifyClass c u) := by
  have hkept : ∀ h o, heap.get? h = some o → (∀ k, o ≠ .scriptClass k) →
      (heap.modifyClass c u).get? h = some o := by
    intro h o ho hclass
    refine (get?_modify heap c h _).trans ?_
    split
    · rename_i heq
      rw [← heq, ho]
      cases o with
      | scriptClass k => exact absurd rfl (hclass k)
      | _ => rfl
    · exact ho
  exact ⟨fun h _ hs => string?_eq_some.2 (hkept h _ (string?_eq_some.1 hs) nofun),
    fun h _ hm => module?_eq_some.2 (hkept h _ (module?_eq_some.1 hm) nofun),
    fun h f hf => ⟨f.className, function?_eq_some.2 (hkept h _ (function?_eq_some.1 hf) nofun)⟩⟩

theorem keepsCode_modifyFunction (heap : Heap) (g : Handle) (className : Option Handle) :
    heap.KeepsCode (heap.modifyFunction g fun f => { f with className }) := by
  have hkept : ∀ h o, heap.get? h = some o → (∀ f, o ≠ .function f) →
      (heap.modifyFunction g fun f => { f with className }).get? h = some o := by
    intro h o ho hfunction
    refine (get?_modify heap g h _).trans ?_
    split
    · rename_i heq
      rw [← heq, ho]
      cases o with
      | function f => exact absurd rfl (hfunction f)
      | _ => rfl
    · exact ho
  refine ⟨fun h _ hs => string?_eq_some.2 (hkept h _ (string?_eq_some.1 hs) nofun),
    fun h _ hm => module?_eq_some.2 (hkept h _ (module?_eq_some.1 hm) nofun), fun h f hf => ?_⟩
  have hget := function?_eq_some.1 hf
  by_cases heq : h = g
  · subst heq
    refine ⟨className, function?_eq_some.2 ((get?_modify heap h h _).trans ?_)⟩
    rw [if_pos rfl, hget]
    rfl
  · refine ⟨f.className, function?_eq_some.2 ((get?_modify heap g h _).trans ?_)⟩
    rw [if_neg heq, hget]

theorem KeepsCode.realizes (h : heap.KeepsCode heap') (hg : heap.Realizes g p) :
    heap'.Realizes g p := by
  obtain ⟨f, hf, hcode, harity, htexts⟩ := hg
  obtain ⟨className, hf'⟩ := h.functions g f hf
  refine ⟨_, hf', hcode, harity, fun i s hi => ?_⟩
  obtain ⟨v, hv, htext⟩ := Option.bind_eq_some_iff.1 (htexts i s hi)
  obtain ⟨x, hx, hstring⟩ := Option.bind_eq_some_iff.1 htext
  exact Option.bind_eq_some_iff.2 ⟨v, hv, Option.bind_eq_some_iff.2 ⟨x, hx, h.texts x s hstring⟩⟩

/-- A compiled function object is that of its function. -/
theorem Compiled.realizes {source module h : Handle} {title : String} {f : FunctionObject}
    (hf : heap.Compiled source module title p f) (hh : heap.function? h = some f) :
    heap.Realizes h p := by
  refine ⟨f, hh, hf.code, hf.arity, fun i s hi => ?_⟩
  have hstands := forall₂_getElem? hf.constants i
  rw [hi] at hstands
  rw [← Array.getElem?_toList]
  generalize f.constants.toList[i]? = v at hstands
  cases hstands with
  | some hv =>
    rename_i v
    cases v with
    | object x => exact hv
    | _ => exact hv.elim

/-- What is found under a name among methods after some functions were to be given names, and what
was found before. -/
def Gained (heap : Heap) (given : UInt32 → Prototype → Prop) (hash : UInt32)
    (before after : Option Value) : Prop :=
  (∃ p g, given hash p ∧ after = some (.object g) ∧ heap.Realizes g p) ∨
    ((∀ p, ¬ given hash p) ∧ after = before)

/-- A class has gained methods, and code and texts stay. -/
structure Gains (heap heap' : Heap) (c : Handle) (given : UInt32 → Prototype → Prop) : Prop where
  code : heap.KeepsCode heap'
  gained : ∀ k, heap.class? c = some k → ∃ k', heap'.class? c = some k' ∧
    (k.methods.Distinct → k'.methods.Distinct) ∧
    ∀ hash, heap'.Gained given hash (k.methods.get? hash) (k'.methods.get? hash)

theorem gains_nothing (hcode : heap.KeepsCode heap')
    (hclass : ∀ k, heap.class? c = some k → heap'.class? c = some k) :
    heap.Gains heap' c fun _ _ => False :=
  ⟨hcode, fun k hk => ⟨k, hclass k hk, id, fun _ => .inr ⟨fun _ => id, rfl⟩⟩⟩

theorem Gains.trans (h : heap.Gains heap' c given) (h' : heap'.Gains heap'' c given') :
    heap.Gains heap'' c fun hash p => given hash p ∨ given' hash p := by
  refine ⟨h.code.trans h'.code, fun k hk => ?_⟩
  obtain ⟨k', hk', hdistinct, hgained⟩ := h.gained k hk
  obtain ⟨k'', hk'', hdistinct', hgained'⟩ := h'.gained k' hk'
  refine ⟨k'', hk'', fun hd => hdistinct' (hdistinct hd), fun hash => ?_⟩
  rcases hgained' hash with ⟨p, g, hp, hg, hrealizes⟩ | ⟨hnone', hsame⟩
  · exact .inl ⟨p, g, .inr hp, hg, hrealizes⟩
  · rcases hgained hash with ⟨p, g, hp, hg, hrealizes⟩ | ⟨hnone, hsame'⟩
    · exact .inl ⟨p, g, .inl hp, hsame.trans hg, h'.code.realizes hrealizes⟩
    · exact .inr ⟨fun p hp => hp.elim (hnone p) (hnone' p), hsame.trans hsame'⟩

theorem Gains.congr (h : heap.Gains heap' c given)
    (hgiven : ∀ hash p, given hash p ↔ given' hash p) : heap.Gains heap' c given' := by
  have heq : given = given' := funext fun hash => funext fun p => propext (hgiven hash p)
  rwa [← heq]

end Heap

namespace Environment

variable {env env' env'' : Environment} {c d g own target : Handle} {hash : UInt32} {p : Prototype}
  {given : UInt32 → Prototype → Prop}

/-- The globals, the constants and what is loaded are as they were. -/
structure SameTables (env env' : Environment) : Prop where
  globals : env'.globals = env.globals
  constants : env'.constants = env.constants
  loads : env.SameLoads env'

theorem SameTables.refl (env : Environment) : env.SameTables env := ⟨rfl, rfl, .refl env⟩

theorem SameTables.trans (h : env.SameTables env') (h' : env'.SameTables env'') :
    env.SameTables env'' :=
  ⟨h'.globals.trans h.globals, h'.constants.trans h.constants, h.loads.trans h'.loads⟩

theorem sameTables_defineMethod (env : Environment) (c g : Handle) (hash : UInt32) :
    env.SameTables (env.defineMethod c g hash) := by
  unfold defineMethod
  split <;> exact ⟨rfl, rfl, rfl, rfl⟩

theorem sameTables_extendClass (env : Environment) (extension target : Handle) :
    env.SameTables (env.extendClass extension target) := by
  unfold extendClass
  split
  · exact .refl env
  · split <;> exact ⟨rfl, rfl, rfl, rfl⟩

theorem defineMethod_withLog (env : Environment) (log : Log) (c g : Handle) (hash : UInt32) :
    ({ env with log } : Environment).defineMethod c g hash =
      { env.defineMethod c g hash with log } := by
  unfold defineMethod
  rw [show ({ env with log } : Environment).heap.class? c = env.heap.class? c from rfl]
  cases env.heap.class? c <;> rfl

theorem extendClass_withLog (env : Environment) (log : Log) (extension target : Handle) :
    ({ env with log } : Environment).extendClass extension target =
      { env.extendClass extension target with log } := by
  unfold extendClass
  rw [show ({ env with log } : Environment).heap.class? extension =
    env.heap.class? extension from rfl]
  split
  · rfl
  · cases env.heap.class? extension <;> rfl

theorem keepsCode_defineMethod (env : Environment) (c g : Handle) (hash : UInt32) :
    env.heap.KeepsCode (env.defineMethod c g hash).heap := by
  unfold defineMethod
  split
  · exact Heap.KeepsCode.refl _
  · exact (env.heap.keepsCode_modifyClass c _).trans (Heap.keepsCode_modifyFunction _ g _)

theorem keepsCode_extendClass (env : Environment) (extension target : Handle) :
    env.heap.KeepsCode (env.extendClass extension target).heap := by
  unfold extendClass
  split
  · exact Heap.KeepsCode.refl _
  · split
    · exact Heap.KeepsCode.refl _
    · exact (env.heap.keepsCode_modifyClass extension _).trans
        (Heap.keepsCode_modifyClass _ target _)

/-- A function becomes a method. -/
theorem gains_defineMethod (hg : env.heap.Realizes g p) (c : Handle) (hash : UInt32) :
    env.heap.Gains (env.defineMethod c g hash).heap c fun other q => other = hash ∧ q = p := by
  have hcode := env.keepsCode_defineMethod c g hash
  refine ⟨hcode, fun k hk => ?_⟩
  have hk' := env.class?_defineMethod c g hash c
  rw [if_pos rfl, hk] at hk'
  refine ⟨_, hk', fun hd => hd.insert _ _, fun other => ?_⟩
  show Heap.Gained _ _ other (k.methods.get? other) ((k.methods.insert hash (.object g)).get? other)
  by_cases hother : other = hash
  · subst hother
    exact .inl ⟨p, g, ⟨rfl, rfl⟩, Table.get?_insert_self _ _ _, hcode.realizes hg⟩
  · exact .inr ⟨fun _ h => hother h.1, Table.get?_insert_of_ne _ hother _⟩

/-- The methods of a class become those of another. -/
theorem gains_extendClass {e : ClassObject} (hne : own ≠ target)
    (he : env.heap.class? own = some e) (hdistinct : e.methods.Distinct)
    (hgained : ∀ hash, env.heap.Gained given hash none (e.methods.get? hash)) :
    env.heap.Gains (env.extendClass own target).heap target given := by
  have hcode := env.keepsCode_extendClass own target
  refine ⟨hcode, fun k hk => ?_⟩
  have hk' := env.class?_extendClass hne he target
  rw [if_pos rfl, hk] at hk'
  refine ⟨_, hk', fun hd => hd.merge _, fun hash => ?_⟩
  show Heap.Gained _ given hash (k.methods.get? hash) ((k.methods.merge e.methods).get? hash)
  rw [Table.get?_merge hdistinct]
  rcases hgained hash with ⟨p, g, hp, hg, hrealizes⟩ | ⟨hnone, hsame⟩
  · rw [hg]
    exact .inl ⟨p, g, hp, rfl, hcode.realizes hrealizes⟩
  · rw [hsame]
    exact .inr ⟨hnone, rfl⟩

end Environment

/-! ### Machines that extend a class -/

/-- A machine performs a function of a module in an environment that is as given but for the log. -/
def Machine.Extending (m : Machine) (t : Thread) (p : Prototype) (module : Handle)
    (env : Environment) (values : Array Value) (left : List Instruction) : Prop :=
  ∃ f state log, m.thread = t.within f values state ∧ m.env = { env with log } ∧
    env.heap.Realizes f.function p ∧ f.code = p.chunk.code ∧ f.module = some module ∧
    f.slots = t.stack.size ∧ Code.Spells f.code f.ip left

namespace Machine

open Exec

variable {m m' : Machine} {t : Thread} {p : Prototype} {module own target : Handle}
  {env env' : Environment} {values : Array Value} {i : Instruction} {left : List Instruction}

theorem Extending.performing (hm : m.Extending t p module env values left) :
    m.Performing t p values left := by
  obtain ⟨f, state, log, hf, henv, hrealizes, hcode, -, hslots, hspells⟩ := hm
  refine ⟨f, state, hf, ?_, hcode, hslots, hspells⟩
  rw [henv]
  exact hrealizes

/-- Other values on the stack, in an environment with the same code. -/
theorem Extending.restack (hm : m.Extending t p module env values left) {values' : Array Value}
    (hthread : m'.thread = { m.thread with stack := t.stack ++ values' })
    (hcode : env.heap.KeepsCode env'.heap) {log : Log} (henv : m'.env = { env' with log }) :
    m'.Extending t p module env' values' left := by
  obtain ⟨f, state, _, hf, -, hrealizes, hfcode, hmodule, hslots, hspells⟩ := hm
  refine ⟨f, state, log, ?_, henv, hcode.realizes hrealizes, hfcode, hmodule, hslots, hspells⟩
  rw [hthread, hf]
  rfl

/-- The next instruction is fetched. -/
theorem Extending.next (hm : m.Extending t p module env values (i :: left))
    (hcode : p.chunk.code.size ≤ Code.maxSize) (hdebug : t.debug.debugger = none) :
    ∃ m₁, m₁.Extending t p module env values left ∧
      ∀ fuel, execute (fuel + 1) m = (perform (execute fuel) i >>= fun _ => execute fuel) m₁ := by
  obtain ⟨f, state, log, hf, henv, hrealizes, hfcode, hmodule, hslots, hspells⟩ := hm
  cases hspells with
  | @cons _ next _ _ hi hrest =>
    have hback : m.thread.frames.back? = some f := by
      rw [hf]
      exact Array.back?_push
    have hactive : m.thread.returnFrame < m.thread.frames.size := by
      rw [hf]
      show t.frames.size < (t.frames.push f).size
      rw [Array.size_push]
      omega
    have hdebug : m.thread.debug.debugger = none := by
      rw [hf]
      exact hdebug
    obtain ⟨op, hstep⟩ := step_of_instruction? hback (by rwa [hfcode]) hi
    refine ⟨m.advanced f op next, ?_, fun fuel => ?_⟩
    · refine ⟨{ f with ip := next, ipLast := f.ip }, state, (m.advanced f op next).env.log,
        thread_advanced hf op next, ?_, hrealizes, hfcode, hmodule, hslots, hrest⟩
      exact congrArg (fun e : Environment => { e with log := (m.advanced f op next).env.log }) henv
    · rw [execute_of_active hactive hdebug, bind_of_same (hstep _)]

/-- A class is made, which is new and has no methods. -/
theorem Extending.newClass (hm : m.Extending t p module env values left) (hs : env.heap.Slotted)
    (hroom : t.stack.size + values.size < Thread.maxStack) (hash : UInt32) (kind : UInt8) :
    ∃ m' own k env', (∀ executor, perform executor (.newClass hash kind) m = .ok () m') ∧
      m'.Extending t p module env' (values.push (.object own)) left ∧
      env.SameTables env' ∧ env'.heap.Slotted ∧
      (∀ h o, env.heap.get? h = some o → env'.heap.get? h = some o) ∧
      env.heap.get? own = none ∧ env'.heap.class? own = some k ∧ k.methods = ∅ := by
  have hstack := hm.performing.stack
  obtain ⟨f, state, log, hf, henv, hrest⟩ := id hm
  obtain ⟨menv, mt⟩ := m
  cases henv
  let name := (env.token? hash).getD (Text.padLeft ' ' 8 (Text.hex hash.toNat))
  let named := env.newString name
  let k : ClassObject := { ClassObject.ofHash hash with
    name := some named.1, kind := .ofOperand kind }
  let made := named.2.alloc (.scriptClass k)
  have hs₁ : named.2.heap.Slotted := Heap.slotted_alloc hs _
  have hkept : ∀ h o, env.heap.get? h = some o → made.2.heap.get? h = some o := fun h o ho =>
    Heap.get?_alloc_of_get? hs₁ _ (Heap.get?_alloc_of_get? hs _ ho)
  have hpush : push (.object made.1) ⟨{ made.2 with log }, mt⟩ =
      .ok () ⟨{ made.2 with log }, { mt with stack := mt.stack.push (.object made.1) }⟩ := by
    unfold push
    rw [if_pos]
    · rfl
    · show mt.stack.size < _
      rw [show mt.stack = _ from hstack, Array.size_append]
      exact hroom
  refine ⟨_, made.1, k, made.2, fun _ => hpush, hm.restack ?_ (Heap.keepsCode_of_kept hkept) rfl,
    ⟨rfl, rfl, rfl, rfl⟩, Heap.slotted_alloc hs₁ _, hkept, ?_,
    Heap.class?_eq_some.2 (Heap.get?_alloc_self hs₁ _), rfl⟩
  · show { mt with stack := mt.stack.push _ } = { mt with stack := _ }
    rw [show mt.stack = _ from hstack, Array.append_push]
  · cases hold : env.heap.get? made.1 with
    | none => rfl
    | some o =>
      have hfresh := Heap.contains_alloc_fresh hs₁ (.scriptClass k)
      have hthere := Heap.get?_alloc_of_get? hs (.string name) hold
      have hcontains := Heap.contains_of_get? hthere
      cases hfresh.symm.trans hcontains

/-- A value is pushed. -/
theorem Extending.push (hm : m.Extending t p module env values left)
    (hroom : t.stack.size + values.size < Thread.maxStack) (v : Value) :
    Exec.push v m = .ok () (m.mapStack (·.push v)) ∧
      (m.mapStack (·.push v)).Extending t p module env (values.push v) left := by
  have hstack := hm.performing.stack
  obtain ⟨f, state, log, hf, henv, -⟩ := id hm
  constructor
  · unfold Exec.push
    rw [if_pos]
    rw [hstack, Array.size_append]
    exact hroom
  · have htop : m.thread.stack.push v = t.stack ++ values.push v := by
      rw [hstack]
      exact Array.append_push.symm
    exact hm.restack (congrArg (fun stack => { m.thread with stack }) htop) (.refl _) henv

/-- The value on top is copied. -/
theorem Extending.copy {v : Value} (hm : m.Extending t p module env (values.push v) left)
    (hroom : t.stack.size + values.size + 1 < Thread.maxStack) :
    ∃ m', (∀ executor, perform executor (.copy 1) m = .ok () m') ∧
      m'.Extending t p module env ((values.push v).push v) left := by
  obtain ⟨hpush, hm'⟩ := hm.push (by rw [Array.size_push]; omega) v
  have hpeek : peek 0 m = .ok v m := peek_of_fromTop? (by decide) hm.performing.fromTop?
  have hcopies : copyValues 0 1 m = .ok () (m.mapStack (·.push v)) :=
    (bind_of_ok hpeek).trans ((bind_of_ok hpush).trans rfl)
  exact ⟨_, fun _ => hcopies, hm'⟩

theorem Extending.env_heap (hm : m.Extending t p module env values left) :
    m.env.heap = env.heap := by
  obtain ⟨f, state, log, hf, henv, -⟩ := hm
  rw [henv]

theorem Extending.asClass? {k : ClassObject} (hm : m.Extending t p module env values left)
    (hk : env.heap.class? own = some k) : asClass? m.env.heap (.object own) = some own := by
  rw [hm.env_heap]
  exact Option.filter_eq_some_iff.2 ⟨rfl, Option.isSome_iff_exists.2 ⟨k, hk⟩⟩

/-- A value is taken from the stack, in an environment with the same code. -/
theorem Extending.popped {v : Value} (hm : m.Extending t p module env (values.push v) left)
    (log : Log) (hcode : env.heap.KeepsCode env'.heap) :
    pop ⟨{ env' with log }, m.thread⟩ =
      .ok v ⟨{ env' with log }, { m.thread with stack := m.thread.stack.pop }⟩ ∧
    Extending ⟨{ env' with log }, { m.thread with stack := m.thread.stack.pop }⟩ t p module env'
      values left := by
  have hstack := hm.performing.stack
  refine ⟨pop_of_fromTop? hm.performing.fromTop?, hm.restack ?_ hcode rfl⟩
  show { m.thread with stack := m.thread.stack.pop } = _
  rw [hstack, Array.append_push, Array.pop_push]

/-- A function of the module becomes a method of the class on top. -/
theorem Extending.method {g : Handle} {index : UInt8} {M : ModuleObject} {k : ClassObject}
    (hm : m.Extending t p module env (values.push (.object own)) left)
    (hM : env.heap.module? module = some M) (hg : M.functions[index.toNat]? = some g)
    (hk : env.heap.class? own = some k) (hash : UInt32) :
    ∃ m', (∀ executor, perform executor (.method index hash) m = .ok () m') ∧
      m'.Extending t p module (env.defineMethod own g hash) values left := by
  obtain ⟨f, state, log, hf, henv, -, -, hmodule, -⟩ := id hm
  have hback : m.thread.frames.back? = some f := by
    rw [hf]
    exact Array.back?_push
  have hfunction : (f.module.bind m.env.heap.module?).bind (·.functions[index.toNat]?) =
      some g := by
    rw [hmodule, hm.env_heap, Option.bind_some, hM]
    exact hg
  have hpeek : peek 0 m = .ok (.object own) m :=
    peek_of_fromTop? (by decide) hm.performing.fromTop?
  have hdefine : mapEnvironment (·.defineMethod own g hash) m =
      .ok () ⟨{ env.defineMethod own g hash with log }, m.thread⟩ := by
    show EStateM.Result.ok () ({ m with env := m.env.defineMethod own g hash } : Machine) = _
    rw [henv, Environment.defineMethod_withLog]
  obtain ⟨hpop, hm'⟩ := hm.popped log (env.keepsCode_defineMethod own g hash)
  refine ⟨_, fun executor => ?_, hm'⟩
  show Exec.method index hash m = _
  unfold Exec.method
  rw [bind_of_ok (frame_of_back? hback)]
  refine (bind_of_ok rfl).trans ?_
  rw [hfunction]
  refine (bind_of_ok rfl).trans ?_
  rw [bind_of_ok hpeek, hm.asClass? hk]
  refine (bind_of_ok rfl).trans ?_
  rw [bind_of_ok hdefine, bind_of_ok hpop]
  rfl

/-- A class that is a constant is extended. -/
theorem Extending.defineGlobal {hash : UInt32} {e k : ClassObject}
    (hm : m.Extending t p module env (values.push (.object own)) left)
    (he : env.heap.class? own = some e) (hk : env.heap.class? target = some k)
    (hglobal : env.globals.get? hash = none)
    (hconstant : env.constants.get? hash = some (.object target)) :
    ∃ m', (∀ executor, perform executor (.defineGlobal hash) m = .ok () m') ∧
      m'.Extending t p module (env.extendClass own target) values left := by
  obtain ⟨f, state, log, hf, henv, -⟩ := id hm
  have hpeek : peek 0 m = .ok (.object own) m :=
    peek_of_fromTop? (by decide) hm.performing.fromTop?
  have hdefine : Exec.defineGlobal hash (.object own) m =
      .ok () ⟨{ env.extendClass own target with log }, m.thread⟩ := by
    rw [defineGlobal_of_constant (v := .object target) (by rw [henv]; exact hglobal)
      (by rw [henv]; exact hconstant)]
    unfold definedOver
    rw [hm.asClass? he, hm.asClass? hk]
    show EStateM.Result.ok () ({ m with env := m.env.extendClass own target } : Machine) = _
    rw [henv, Environment.extendClass_withLog]
  obtain ⟨hpop, hm'⟩ := hm.popped log (env.keepsCode_extendClass own target)
  refine ⟨_, fun executor => ?_, hm'⟩
  show (peek 0 >>= _) m = _
  rw [bind_of_ok hpeek, bind_of_ok hdefine, bind_of_ok hpop]
  rfl

/-- Functions of the module become methods of the class on top, one after the other. -/
theorem Extending.gives {functions : List Prototype} {M : ModuleObject} {callee : Value}
    (methods : List (UInt8 × UInt32))
    (hm : m.Extending t p module env #[callee, .object own]
      ((methods.flatMap fun f => [.copy 1, .method f.1 f.2]) ++ left))
    (hM : env.heap.module? module = some M)
    (hmethods : ∀ f ∈ methods, ∃ q g, functions[f.1.toNat]? = some q ∧
      M.functions[f.1.toNat]? = some g ∧ env.heap.Realizes g q)
    (hown : (env.heap.class? own).isSome = true) (hs : env.heap.Slotted)
    (hcode : p.chunk.code.size ≤ Code.maxSize) (hdebug : t.debug.debugger = none)
    (hroom : t.stack.size + 2 < Thread.maxStack) :
    ∃ m' env', m.Proceeds m' ∧ m'.Extending t p module env' #[callee, .object own] left ∧
      env.SameTables env' ∧ env'.heap.Slotted ∧
      (∀ d, d ≠ own → env'.heap.class? d = env.heap.class? d) ∧
      env.heap.Gains env'.heap own fun hash q =>
        ∃ f ∈ methods, f.2 = hash ∧ functions[f.1.toNat]? = some q := by
  induction methods generalizing m env with
  | nil =>
    refine ⟨m, env, .refl m, hm, .refl env, hs, fun _ _ => rfl, ?_⟩
    exact (Heap.gains_nothing (.refl _) fun _ => id).congr fun hash q => by simp
  | cons f rest ih =>
    obtain ⟨q, g, hq, hg, hrealizes⟩ := hmethods f (.head _)
    obtain ⟨k, hk⟩ := Option.isSome_iff_exists.1 hown
    have hm : m.Extending t p module env (#[callee].push (.object own))
      (.copy 1 :: .method f.1 f.2 ::
        ((rest.flatMap fun f => [.copy 1, .method f.1 f.2]) ++ left)) := hm
    obtain ⟨m₁, hm₁, hstep₁⟩ := hm.next hcode hdebug
    obtain ⟨m₂, hcopy, hm₂⟩ := hm₁.copy hroom
    obtain ⟨m₃, hm₃, hstep₃⟩ := hm₂.next hcode hdebug
    obtain ⟨m₄, hmethod, hm₄⟩ := hm₃.method hM hg hk f.2
    have hproceeds : m.Proceeds m₄ :=
      (proceeds_of_perform hstep₁ (endsIn_of_eq fun _ => hcopy _)).trans
        (proceeds_of_perform hstep₃ (endsIn_of_eq fun _ => hmethod _))
    -- the class is still there, and so are the functions that are to follow
    have hkeeps := env.keepsCode_defineMethod own g f.2
    have hclass := env.class?_defineMethod own g f.2
    have hown' : ((env.defineMethod own g f.2).heap.class? own).isSome = true := by
      rw [hclass, if_pos rfl, hk]
      rfl
    obtain ⟨m', env', hrest, hm', htables, hs', hothers, hgains⟩ := ih hm₄ (hkeeps.modules _ _ hM)
      (fun f' hf' => by
        obtain ⟨q', g', hq', hg', hrealizes'⟩ := hmethods f' (.tail _ hf')
        exact ⟨q', g', hq', hg', hkeeps.realizes hrealizes'⟩)
      hown' (Environment.slotted_defineMethod hs own g f.2)
    refine ⟨m', env', hproceeds.trans hrest, hm',
      (env.sameTables_defineMethod own g f.2).trans htables, hs', fun d hd => ?_, ?_⟩
    · rw [hothers d hd, hclass, if_neg hd]
    · refine ((Environment.gains_defineMethod hrealizes own f.2).trans hgains).congr
        fun hash r => ?_
      constructor
      · rintro (⟨rfl, rfl⟩ | ⟨f', hf', hhash, hr⟩)
        · exact ⟨f, .head _, rfl, hq⟩
        · exact ⟨f', .tail _ hf', hhash, hr⟩
      · rintro ⟨f', hf', hhash, hr⟩
        rcases List.mem_cons.1 hf' with rfl | hf'
        · exact .inl ⟨hhash.symm, Option.some.inj (hr.symm.trans hq)⟩
        · exact .inr ⟨f', hf', hhash, hr⟩

/-- Code that ends as class files do ends the run. -/
theorem Extending.ends {callee : Value} (hm : m.Extending t p module env #[callee] left)
    (hleft : Instruction.Returns left) (hcode : p.chunk.code.size ≤ Code.maxSize)
    (hdebug : t.debug.debugger = none) (hroom : t.stack.size + 1 < Thread.maxStack) :
    ∃ v state log, EndsIn execute m (.ok () ⟨{ env with log }, { t with
      stack := t.stack.push v, returnFrame := t.frames.size, state }⟩) := by
  have hlast : ∀ {m : Machine} (values : Array Value) {v : Value},
      m.Extending t p module env (values.push v) [.ret] →
      ∃ state log, EndsIn execute m (.ok () ⟨{ env with log }, { t with
        stack := t.stack.push v, returnFrame := t.frames.size, state }⟩) := by
    intro m values v hm
    obtain ⟨m₁, hm₁, hstep⟩ := hm.next hcode hdebug
    obtain ⟨state, hret⟩ := hm₁.performing.ret (by omega)
    obtain ⟨f, _, log, -, henv, -⟩ := hm₁
    rw [henv] at hret
    refine ⟨state, log, (proceeds_of_perform hstep (endsIn_of_eq fun _ => hret _)).endsIn ?_⟩
    exact endsIn_of_eq fun fuel => execute_of_inactive (Nat.lt_irrefl _) fuel
  cases hleft with
  | plain =>
    obtain ⟨state, log, hend⟩ := hlast #[] hm
    exact ⟨callee, state, log, hend⟩
  | value v =>
    obtain ⟨m₁, hm₁, hstep⟩ := hm.next hcode hdebug
    obtain ⟨hpush, hm₂⟩ := hm₁.push hroom v
    obtain ⟨state, log, hend⟩ := hlast _ hm₂
    exact ⟨v, state, log, (proceeds_of_perform hstep (endsIn_of_eq fun _ => hpush)).endsIn hend⟩

/-- The first function of a file that extends a class: the class has the methods afterwards. -/
theorem Extending.extends {e : Extension} {hash : UInt32} {kind : UInt8} {ending : List Instruction}
    {M : ModuleObject} {callee : Value} {k : ClassObject}
    (hm : m.Extending t p module env #[callee]
      (.newClass hash kind :: (e.body ++ .defineGlobal hash :: ending)))
    (hending : Instruction.Returns ending) (hM : env.heap.module? module = some M)
    (hmethods : ∀ f ∈ e.methods, ∃ q g, e.container.functions[f.1.toNat]? = some q ∧
      M.functions[f.1.toNat]? = some g ∧ env.heap.Realizes g q)
    (hk : env.heap.class? target = some k) (hglobal : env.globals.get? hash = none)
    (hconstant : env.constants.get? hash = some (.object target)) (hs : env.heap.Slotted)
    (hcode : p.chunk.code.size ≤ Code.maxSize) (hdebug : t.debug.debugger = none)
    (hroom : t.stack.size + 2 < Thread.maxStack) :
    ∃ env' v state, EndsIn execute m (.ok () ⟨env', { t with
        stack := t.stack.push v, returnFrame := t.frames.size, state }⟩) ∧
      env.SameTables env' ∧ env'.heap.Slotted ∧
      env.heap.Gains env'.heap target e.Gives := by
  obtain ⟨m₁, hm₁, hstep₁⟩ := hm.next hcode hdebug
  obtain ⟨m₂, own, o, env₂, hnew, hm₂, htables₂, hs₂, hkept, hfresh, ho, hempty⟩ :=
    hm₁.newClass hs (by show t.stack.size + 1 < _; omega) hash kind
  have hcode₂ := Heap.keepsCode_of_kept hkept
  have hne : target ≠ own := by
    rintro rfl
    cases hfresh.symm.trans (Heap.class?_eq_some.1 hk)
  obtain ⟨m₃, env₃, hproceeds, hm₃, htables₃, hs₃, hothers, hgains⟩ :=
    Extending.gives e.methods hm₂ (hcode₂.modules _ _ hM)
      (fun f hf => by
        obtain ⟨q, g, hq, hg, hrealizes⟩ := hmethods f hf
        exact ⟨q, g, hq, hg, hcode₂.realizes hrealizes⟩)
      (by rw [ho]; rfl) hs₂ hcode hdebug hroom
  obtain ⟨o', ho', hdistinct, hgained⟩ := hgains.gained o ho
  have htables := htables₂.trans htables₃
  have hk₃ : env₃.heap.class? target = some k :=
    (hothers target hne).trans (Heap.class?_of_kept hkept hk)
  have hm₃ : m₃.Extending t p module env₃ (#[callee].push (.object own))
    (.defineGlobal hash :: ending) := hm₃
  obtain ⟨m₄, hm₄, hstep₄⟩ := hm₃.next hcode hdebug
  obtain ⟨m₅, hdefine, hm₅⟩ := hm₄.defineGlobal ho' hk₃ (htables.globals ▸ hglobal)
    (htables.constants ▸ hconstant)
  obtain ⟨v, state, log, hend⟩ := hm₅.ends hending hcode hdebug (by omega)
  refine ⟨{ env₃.extendClass own target with log }, v, state, ?_, ?_,
    Environment.slotted_extendClass hs₃ own target, ?_⟩
  · refine (proceeds_of_perform hstep₁ (endsIn_of_eq fun _ => hnew _)).endsIn (hproceeds.endsIn ?_)
    exact (proceeds_of_perform hstep₄ (endsIn_of_eq fun _ => hdefine _)).endsIn hend
  · have hlast := htables.trans (env₃.sameTables_extendClass own target)
    exact ⟨hlast.globals, hlast.constants, hlast.loads.loader, hlast.loads.classes⟩
  · -- the new class starts without methods, so all that it has is what it was given
    have hfound : ∀ hash, env₃.heap.Gained e.Gives hash none (o'.methods.get? hash) := by
      intro hash
      have h := hgained hash
      rwa [hempty] at h
    have hextends := Environment.gains_extendClass (Ne.symm hne) ho'
      (hdistinct (by rw [hempty]; exact Table.distinct_empty)) hfound
    have hstill : env.heap.Gains env₃.heap target fun _ _ => False :=
      Heap.gains_nothing (hcode₂.trans hgains.code)
        fun k hk => (hothers target hne).trans (Heap.class?_of_kept hkept hk)
    exact (hstill.trans hextends).congr fun hash p => by simp

end Machine

/-! ### The files of a class -/

section EndsIn

variable {ε σ α β : Type} {s s' : σ} {a : α}

theorem EndsIn.bind {x : Nat → EStateM ε σ α} {g : Nat → α → EStateM ε σ β}
    {r : EStateM.Result ε σ β} (hx : EndsIn x s (.ok a s'))
    (hg : EndsIn (fun fuel => g fuel a) s' r) : EndsIn (fun fuel => x fuel >>= g fuel) s r := by
  obtain ⟨n, hx⟩ := hx
  obtain ⟨n', hg⟩ := hg
  refine ⟨max n n', fun fuel hfuel => ?_⟩
  exact (Exec.bind_of_ok (hx fuel (by omega))).trans (hg fuel (by omega))

end EndsIn

namespace Load

open Exec Machine

variable {env : Environment} {t : Thread} {l : Loader} {hash : UInt32} {target : Handle}
  {k : ClassObject}

/-- A thread has room for the run of a file that extends a class, and no debugger. -/
structure Spacious (t : Thread) : Prop where
  frames : t.frames.size < Thread.maxFrames
  stack : t.stack.size + 2 < Thread.maxStack
  debug : t.debug.debugger = none

/-- The run of a file that extends a class gives the class the methods. -/
theorem runFile_extends {e : Extension} {bytes : List UInt8} (he : e.Extends hash)
    (hd : Container.decode bytes = .ok e.container) (ht : Spacious t)
    (hk : env.heap.class? target = some k) (hglobal : env.globals.get? hash = none)
    (hconstant : env.constants.get? hash = some (.object target)) (hs : env.heap.Slotted)
    (file : UInt32) :
    ∃ env' state, EndsIn (fun fuel => runFile (execute fuel) bytes file) ⟨env, t⟩
        (.ok () ⟨env', { t with state }⟩) ∧
      env.SameTables env' ∧ env'.heap.Slotted ∧ env.heap.Gains env'.heap target e.Gives := by
  obtain ⟨p, rest, kind, ending, hc, harity, hending, hspells⟩ := he.entry
  obtain ⟨module, source, functions, env₁, hload, hloaded⟩ :=
    Environment.exists_loadModule hs e.container file
  have hfirst : e.container.functions[0]? = some p := by
    rw [hc]
    rfl
  obtain ⟨h, f, hh, hf, hcompiled⟩ := hloaded.compiled 0 p hfirst
  have hentry : env₁.entryFunction? module = some h := by
    unfold Environment.entryFunction?
    rw [hloaded.module_eq]
    exact hh
  have hkept := hloaded.placed.kept
  have hs₁ : env₁.heap.Slotted := by
    have hr := (env.fills_loadModule e.container file).retains.heap.slotted hs
    rwa [hload] at hr
  have htables : env.SameTables env₁ := by
    rw [hloaded.others]
    exact ⟨rfl, rfl, rfl, rfl⟩
  obtain ⟨hends, -⟩ := runFile_of_entry (t := t) hd hload hentry hf (hcompiled.arity.trans harity)
    ht.frames (by have := ht.stack; omega)
  let m₁ : Machine :=
    ⟨env₁, t.within (.enter h f.code t.stack.size f.module) #[.object h] .running⟩
  have hm₁ : m₁.Extending t p module env₁ #[.object h]
      (.newClass hash kind :: (e.body ++ .defineGlobal hash :: ending)) :=
    ⟨_, _, env₁.log, rfl, rfl, hcompiled.realizes hf, hcompiled.code, hcompiled.module, rfl,
      by rw [← hcompiled.code] at hspells; exact hspells⟩
  have hmethods : ∀ f ∈ e.methods, ∃ q g, e.container.functions[f.1.toNat]? = some q ∧
      functions[f.1.toNat]? = some g ∧ env₁.heap.Realizes g q := by
    intro f hf
    obtain ⟨q, hq⟩ : ∃ q, e.container.functions[f.1.toNat]? = some q :=
      ⟨_, List.getElem?_eq_getElem (he.functions f hf)⟩
    obtain ⟨g, function, hg, hfunction, hsame⟩ := hloaded.compiled _ q hq
    exact ⟨q, g, hq, hg, hsame.realizes hfunction⟩
  have hp : p ∈ e.container.functions := List.mem_of_getElem? hfirst
  obtain ⟨env', v, state, hend, htables', hs', hgains⟩ :=
    hm₁.extends hending hloaded.module_eq hmethods (Heap.class?_of_kept hkept hk)
      (htables.globals ▸ hglobal) (htables.constants ▸ hconstant) hs₁ (Container.size_code_le hd hp)
      ht.debug ht.stack
  obtain ⟨state', hrun⟩ := hends env' v state hend
  have hstill : env.heap.Gains env₁.heap target fun _ _ => False :=
    Heap.gains_nothing (Heap.keepsCode_of_kept hkept) fun _ => Heap.class?_of_kept hkept
  exact ⟨env', state', hrun, htables.trans htables', hs',
    (hstill.trans hgains).congr fun hash p => by simp⟩

/-- A new file is fetched and run, and the others after it. -/
theorem loadFiles_of_new {bytes : List UInt8} {file : UInt32} (hl : env.loader = some l)
    (hfile : file ∉ l.fetched) (hbytes : l.source.Gives file bytes) (name : String)
    (count : Nat) (first : Bool) (rest : List UInt32) :
    ∃ log, ∀ executor, loadFiles executor name count first (file :: rest) ⟨env, t⟩ =
      (runFile executor bytes file >>= fun _ => loadFiles executor name count false rest)
        ⟨{ env with loader := some { l.asked with fetched := file :: l.fetched }, log }, t⟩ := by
  have hfetch := fetch_of_not_mem (m := ⟨env, t⟩) hl hfile hbytes
  cases first with
  | false => exact ⟨env.log, fun executor => bind_of_ok hfetch⟩
  | true => exact ⟨_, fun executor => (bind_of_ok hfetch).trans (bind_of_ok rfl)⟩

/-- Files that extend a class give it all their methods. -/
theorem loadFiles_extends {scripts : UInt32 → Extension} (name : String) (count : Nat)
    (files : List UInt32) (first : Bool) (hl : env.loader = some l)
    (hfiles : ∀ file ∈ files, file ∉ l.fetched ∧ l.source.Holds file (scripts file).container ∧
      (scripts file).Extends hash) (hnodup : files.Nodup) (ht : Spacious t)
    (hk : env.heap.class? target = some k) (hglobal : env.globals.get? hash = none)
    (hconstant : env.constants.get? hash = some (.object target)) (hs : env.heap.Slotted) :
    ∃ env' state, EndsIn (fun fuel => loadFiles (execute fuel) name count first files) ⟨env, t⟩
        (.ok true ⟨env', { t with state }⟩) ∧
      env.heap.Gains env'.heap target fun hash p => ∃ file ∈ files,
      (scripts file).Gives hash p := by
  induction files generalizing env t l first k with
  | nil =>
    refine ⟨env, t.state, endsIn_of_eq fun _ => rfl, ?_⟩
    exact (Heap.gains_nothing (.refl _) fun _ => id).congr fun hash p => by simp
  | cons file rest ih =>
    obtain ⟨hnew, ⟨bytes, hbytes, hd⟩, he⟩ := hfiles file (.head _)
    obtain ⟨hnot, hnodup⟩ := List.nodup_cons.1 hnodup
    obtain ⟨log, hload⟩ := loadFiles_of_new (t := t) hl hnew hbytes name count first rest
    let l₁ : Loader := { l.asked with fetched := file :: l.fetched }
    let env₁ : Environment := { env with loader := some l₁, log }
    have hk₁ : env₁.heap.class? target = some k := hk
    obtain ⟨env₂, state₂, hrun, htables, hs₂, hgains⟩ :=
      runFile_extends he hd ht hk₁ hglobal hconstant hs file
    obtain ⟨k₂, hk₂, -⟩ := hgains.gained k hk
    have hrest : ∀ other ∈ rest, other ∉ l₁.fetched ∧
        l₁.source.Holds other (scripts other).container ∧ (scripts other).Extends hash := by
      intro other hother
      obtain ⟨hnew', hholds, hextends⟩ := hfiles other (.tail _ hother)
      refine ⟨fun hmem => ?_, hholds.later, hextends⟩
      rcases List.mem_cons.1 hmem with rfl | hmem
      · exact hnot hother
      · exact hnew' hmem
    obtain ⟨env', state', hruns, hgains'⟩ := ih (t := { t with state := state₂ }) (l := l₁) false
      htables.loads.loader hrest hnodup ⟨ht.frames, ht.stack, ht.debug⟩ hk₂
      (htables.globals.symm ▸ hglobal) (htables.constants.symm ▸ hconstant) hs₂
    refine ⟨env', state', ?_, (hgains.trans hgains').congr fun hash p => by simp⟩
    obtain ⟨n, hboth⟩ := EndsIn.bind
      (g := fun fuel _ => loadFiles (execute fuel) name count false rest) hrun hruns
    exact ⟨n, fun fuel hfuel => (hload _).trans (hboth fuel hfuel)⟩

end Load

namespace Machine

open Exec

variable {m : Machine} {l : Loader} {name : String} {files : List UInt32}

/-- **Classes of the host's library cannot be loaded.** The load of a name that is only a constant's
never answers that the class is there, even where the files do extend it. -/
theorem library_classes (hname : name ≠ "") (hl : m.env.loader = some l)
    (hfiles : l.source.classMap.files? (hashName name) = some files)
    (hm : m.env.Withholds (hashName name)) :
    (∀ fuel,
      (∀ m', Load.loadFiles (execute fuel) name files.length true files m = .ok true m' →
        Load.loadClass (execute fuel) name m = .ok false
          { m' with env := m'.env.report .error fun _ => s!"Could not find class of {name}" }) ∧
      (∀ m', Load.loadClass (execute fuel) name m ≠ .ok true m') ∧
      (let m' := after (Load.loadClass (execute fuel) name) m
       m'.env.Withholds (hashName name) ∧ m.env.Unasked (hashName name) m'.env) ∧
      ∀ (index : UInt32) (v : Value), constantAt index.toNat m = .ok v m →
        m.env.heap.text? v = some name →
          ∃ e m', perform (execute fuel) (.importClass index) m = .error e m') ∧
    ∀ c k, m.env.constants.get? (hashName name) = some (.object c) →
      m.env.heap.class? c = some k → m.env.heap.Slotted → Load.Spacious m.thread → files.Nodup →
      ∀ scripts : UInt32 → Extension, (∀ file ∈ files, file ∉ l.fetched ∧
        l.source.Holds file (scripts file).container ∧ (scripts file).Extends (hashName name)) →
      ∃ m' k', EndsIn (fun fuel => Load.loadClass (execute fuel) name) m (.ok false m') ∧
        m'.env.heap.class? c = some k' ∧
        (∀ hash, m'.env.heap.Gained (fun hash p => ∃ file ∈ files, (scripts file).Gives hash p) hash
          (k.methods.get? hash) (k'.methods.get? hash)) ∧
        ∀ (index : UInt32) (v : Value), constantAt index.toNat m = .ok v m →
          m.env.heap.text? v = some name →
            EndsIn (fun fuel => perform (execute fuel) (.importClass index)) m
              (.error (.error (.ofCause (.notImported name))) m') := by
  have hexecute : ∀ fuel, Keeps (Withholding (hashName name)) (execute fuel) :=
    keeps_withholding_execute
  refine ⟨fun fuel => ⟨?_, ?_, ?_, ?_⟩, ?_⟩
  · exact fun m' => loadClass_of_loadFiles hname hl hfiles (hexecute fuel) hm
  · exact loadClass_ne_true (hexecute fuel) hm
  · exact keeps_loadClass (hexecute fuel) name m hm
  · exact fun index v hconstant htext => importClass_fails (hexecute fuel) hm hconstant htext
  · intro c k hconstant hk hs ht hnodup scripts hscripts
    obtain ⟨env', state, ⟨n, hend⟩, hgains⟩ := Load.loadFiles_extends
      (t := m.thread) name files.length files true hl hscripts hnodup ht hk hm.global hconstant hs
    obtain ⟨k', hk', -, hgained⟩ := hgains.gained k hk
    let m' : Machine :=
      ⟨env'.report .error fun _ => s!"Could not find class of {name}", { m.thread with state }⟩
    have hload : ∀ fuel, n ≤ fuel → Load.loadClass (execute fuel) name m = .ok false m' :=
      fun fuel hfuel => loadClass_of_loadFiles hname hl hfiles (hexecute fuel) hm (hend fuel hfuel)
    refine ⟨m', k', ⟨n, hload⟩, hk', hgained, fun index v hindex htext => ?_⟩
    refine ⟨n, fun fuel hfuel => ?_⟩
    have hdenied : (Load.loadClass (execute fuel) name).toExec m = .ok false m' :=
      adaptExcept_of_ok (hload fuel hfuel) _
    exact (perform_importClass hindex htext _).trans ((bind_of_ok hdenied).trans rfl)

/-- The first function of a file that makes a class of timers, gives it a method and defines it. -/
def timerEntry (kind : UInt8) (method : String) : Prototype :=
  let hash := Bytes.bytes32 (hashName "Timer")
  let code :=
    [Opcode.newClass.toByte] ++ hash ++ [kind, Opcode.copy.toByte, 1, Opcode.method.toByte, 1] ++
    Bytes.bytes32 (hashName method) ++ [Opcode.defineGlobal.toByte] ++ hash ++
    [Opcode.null.toByte, Opcode.ret.toByte]
  ⟨0, 0, ⟨code.toArray, none, #[], 0⟩⟩

/-- The function that becomes the method. -/
def timerMethod (method : String) : Prototype :=
  ⟨0, hashName method, ⟨#[Opcode.null.toByte, Opcode.ret.toByte], none, #[], 0⟩⟩

/-- The file of both. -/
def timerScript (kind : UInt8) (method : String) : Extension :=
  ⟨.ofFunctions [timerEntry kind method, timerMethod method], [(1, hashName method)]⟩

/-- Two such files, the second for an extended class. -/
def timerScripts (file : UInt32) : Extension :=
  if file = 1 then timerScript 0 "Start" else timerScript 1 "Stop"

/-- A loader of the two files, with a binder. -/
def timerLoader : Loader :=
  { Loader.ofSource (.ofLists [(1, (timerScript 0 "Start").container.encode),
      (2, (timerScript 1 "Stop").container.encode)] [("Timer", 1), ("Timer", 2)]) with
    binder := some ⟨[], #[]⟩ }

/-- A machine with a class of timers as a constant and with the two files for it. -/
def timers : Machine :=
  ⟨((Environment.new .empty Native.standard (some timerLoader) default).newNativeClass "Timer").2,
    .new 0⟩

theorem gives_timerScript (kind : UInt8) (method : String) :
    (timerScript kind method).Gives (hashName method) (timerMethod method) :=
  ⟨(1, hashName method), .head _, rfl, rfl⟩

theorem extends_timerScript {kind : UInt8} {method : String}
    (hspells : Code.Spells (timerEntry kind method).chunk.code 0 [.newClass (hashName "Timer") kind,
      .copy 1, .method 1 (hashName method), .defineGlobal (hashName "Timer"), .push .null, .ret]) :
    (timerScript kind method).Extends (hashName "Timer") :=
  ⟨⟨timerEntry kind method, [timerMethod method], kind, [.push .null, .ret], rfl, rfl, .value .null,
    hspells⟩, fun f hf => by rw [List.mem_singleton.1 hf]; exact Nat.one_lt_two⟩

/-- The files are those of the loader. -/
theorem timerScripts_held : ∀ file ∈ [1, 2], file ∉ timerLoader.fetched ∧
    timerLoader.source.Holds file (timerScripts file).container ∧
    (timerScripts file).Extends (hashName "Timer") := by
  intro file hfile
  rcases List.mem_cons.1 hfile with rfl | hfile
  · refine ⟨List.not_mem_nil, ⟨(timerScript 0 "Start").container.encode,
      Source.gives_ofLists (by decide +kernel), decode_of_toOption (by decide +kernel)⟩, ?_⟩
    exact extends_timerScript (by decide +kernel)
  · rw [List.mem_singleton.1 hfile]
    refine ⟨List.not_mem_nil, ⟨(timerScript 1 "Stop").container.encode,
      Source.gives_ofLists (by decide +kernel), decode_of_toOption (by decide +kernel)⟩, ?_⟩
    exact extends_timerScript (by decide +kernel)

/-- The class of timers gets the methods of both files, and is not loaded. -/
theorem library_classes_timer :
    ∃ m' k' start stop,
      EndsIn (fun fuel => Load.loadClass (execute fuel) "Timer") timers (.ok false m') ∧
      m'.env.heap.class? ⟨1, 0⟩ = some k' ∧
      k'.methods.get? (hashName "Start") = some (.object start) ∧
      k'.methods.get? (hashName "Stop") = some (.object stop) := by
  have hloader : timers.env.loader = some timerLoader := rfl
  have hfiles : timerLoader.source.classMap.files? (hashName "Timer") = some [1, 2] := by
    decide +kernel
  have hconstant : timers.env.constants.get? (hashName "Timer") = some (.object ⟨1, 0⟩) := by
    decide +kernel
  have hclass : (timers.env.heap.class? ⟨1, 0⟩).isSome = true := by decide +kernel
  obtain ⟨k, hk⟩ := Option.isSome_iff_exists.1 hclass
  have hm : timers.env.Withholds (hashName "Timer") :=
    ⟨by decide +kernel, by decide +kernel, timerLoader, hloader, List.not_mem_nil⟩
  have hs : timers.env.heap.Slotted :=
    Heap.slotted_alloc (Heap.slotted_alloc (Heap.slotted_withThreshold _ _) _) _
  obtain ⟨m', k', hend, hk', hgained, -⟩ := (library_classes (by decide) hloader hfiles hm).2
    ⟨1, 0⟩ k hconstant hk hs ⟨by decide, by decide, rfl⟩ (by decide) timerScripts timerScripts_held
  have hgiven : ∀ file ∈ [1, 2], ∀ hash p, (timerScripts file).Gives hash p →
      ∃ g, k'.methods.get? hash = some (.object g) := by
    intro file hfile hash p hp
    rcases hgained hash with ⟨q, g, -, hg, -⟩ | ⟨hnone, -⟩
    · exact ⟨g, hg⟩
    · exact absurd ⟨file, hfile, hp⟩ (hnone p)
  obtain ⟨start, hstart⟩ := hgiven 1 (.head _) _ _ (gives_timerScript 0 "Start")
  obtain ⟨stop, hstop⟩ := hgiven 2 (.tail _ (.head _)) _ _ (gives_timerScript 1 "Stop")
  exact ⟨m', k', start, stop, hend, hk', hstart, hstop⟩

/-- The class is a constant and no global, its files extend it, and the load says that it failed. -/
theorem library_class_refused :
    timers.env.isStandardClass "Timer" = true ∧ timers.env.global? "Timer" = none ∧
      (∀ file ∈ [1, 2], (timerScripts file).Extends (hashName "Timer")) ∧
      (match Load.loadClass (execute 9) "Timer" timers with
        | .ok loaded m => some (loaded, (m.env.heap.class? ⟨1, 0⟩).map (·.methods.keys))
        | .error _ _ => none) = some (false, some [hashName "Start", hashName "Stop"]) :=
  ⟨by decide +kernel, by decide +kernel, fun file hfile => (timerScripts_held file hfile).2.2,
    by decide +kernel⟩

end Machine
end ScriptVm
