import Mathlib.Data.List.Forall2
import ScriptVm.Environment.Collection
import ScriptVm.Machine.Entity
import ScriptVm.Machine.Load
import ScriptVm.Native.Catalog
import ScriptVm.Proofs.Heap.Stripping

/-!
# Environments without line tables

`Environment.stripped` takes the line tables of an environment away and puts some lines before
those of its log.

* Names and members are looked up alike. `NativeFunction.LineBlind` asks the same of a native;
  `Native.lineBlind_standard` says it of those of the catalogue.
* What is done to an environment may come before the tables are taken away or after it, and what it
  logs comes last either way. `Environment.Strips` says this of a function.
* `Environment.Alike` relates environments that are the same but for line tables. Their logs have
  the same lines, up to lines of the source in the reports of faults.
* `Alike.apply` leads from the one to the other: what strips does the same to environments
  that are alike.
-/

namespace ScriptVm

/-- The function without its line table. -/
def Prototype.stripped (p : Prototype) : Prototype :=
  { p with chunk := { p.chunk with lines := none } }

/-- The container with no line table in any of its functions. -/
def Container.stripped (c : Container) : Container :=
  { c with debugInfo := false, functions := c.functions.map Prototype.stripped }

/-! ### Natives that do not look at line tables -/

/-- The native does the same to memories that are the same but for line tables. -/
def NativeFunction.LineBlind (native : NativeFunction) : Prop :=
  ∀ (mem mem' : Memory) (args : Array Value), mem.stripped = mem'.stripped →
    (native mem args).1 = (native mem' args).1 ∧
      (native mem args).2.stripped = (native mem' args).2.stripped

namespace Native

variable (mem : Memory) (args : Array Value) (index : Nat)

/-- It is enough that line tables may be taken away before or after the call. -/
theorem lineBlind_of_strips {native : NativeFunction} (h : ∀ mem args,
    native mem.stripped args = ((native mem args).1, (native mem args).2.stripped)) :
    native.LineBlind := by
  intro mem mem' args hsame
  refine Prod.mk.inj ?_
  rw [← h, ← h, hsame]

theorem lineBlind_pureNative {f : Memory → Array Value → Except Cause Value}
    (hf : ∀ mem : Memory, f mem.stripped = f mem) : NativeFunction.LineBlind (pureNative f) :=
  lineBlind_of_strips fun mem args => congrArg (fun g => (g args, mem.stripped)) (hf mem)

theorem lineBlind_place {g : Memory → Array Value → Obj}
    (hg : ∀ mem args, g mem.stripped args = (g mem args).stripped) :
    NativeFunction.LineBlind fun mem args =>
      (.ok (.object (mem.alloc (g mem args)).1), (mem.alloc (g mem args)).2) :=
  lineBlind_of_strips fun mem args => by
    rw [hg, Memory.alloc_stripped]

@[simp] theorem argumentAs_stripped {α : Type} (expected : String) (f : Value → Option α) :
    argumentAs mem.stripped args index expected f = argumentAs mem args index expected f := by
  simp [argumentAs]

@[simp] theorem integerArgument_stripped :
    integerArgument mem.stripped args index = integerArgument mem args index := by
  simp [integerArgument]

@[simp] theorem decimalArgument_stripped :
    decimalArgument mem.stripped args index = decimalArgument mem args index := by
  simp [decimalArgument]

@[simp] theorem stringArgument_stripped :
    stringArgument mem.stripped args index = stringArgument mem args index := by
  simp [stringArgument]

@[simp] theorem instanceArgument_stripped :
    instanceArgument mem.stripped args index = instanceArgument mem args index := by
  simp [instanceArgument]

/-- The natives of the catalogue do not look at line tables. -/
theorem lineBlind_standard (name : String) : (standard name).LineBlind := by
  have hcatalog : ∀ entry ∈ catalog, entry.2.LineBlind := by
    simp only [catalog, List.forall_mem_cons]
    refine ⟨lineBlind_pureNative fun _ => rfl, lineBlind_pureNative fun mem => ?_,
      lineBlind_pureNative fun mem => ?_, lineBlind_pureNative fun mem => ?_,
      lineBlind_pureNative fun mem => ?_, lineBlind_pureNative fun mem => ?_,
      lineBlind_pureNative fun _ => rfl, lineBlind_place fun _ _ => rfl, lineBlind_place
        fun mem args => ?_,
      lineBlind_pureNative fun _ => rfl, lineBlind_pureNative fun _ => rfl,
      lineBlind_pureNative fun _ => rfl, fun _ hentry => absurd hentry List.not_mem_nil⟩
    · funext args; simp
    · funext args; simp
    · funext args; simp
    · funext args; simp
    · funext args; simp
    · rw [Memory.format_stripped]
      rfl
  unfold standard
  cases hfound : catalog.lookup name with
  | none => exact lineBlind_pureNative fun _ => rfl
  | some native =>
    obtain ⟨l₁, l₂, hsplit, -⟩ := List.lookup_eq_some_iff.1 hfound
    exact hcatalog (name, native) (by rw [hsplit]; simp)

end Native

namespace Environment

variable {env : Environment} {earlier : Array LogEntry}

/-- The environment without line tables; its log begins with some earlier lines. -/
def stripped (env : Environment) (earlier : Array LogEntry) : Environment :=
  { env with
    memory := env.memory.stripped
    log := { env.log with entries := earlier ++ env.log.entries } }

/-! ### Names -/

section Readers

variable (env : Environment) (earlier : Array LogEntry)

@[simp] theorem memory_stripped : (env.stripped earlier).memory = env.memory.stripped := rfl

@[simp] theorem heap_stripped : (env.stripped earlier).heap = env.heap.stripped := rfl

@[simp] theorem globals_stripped : (env.stripped earlier).globals = env.globals := rfl

@[simp] theorem constants_stripped : (env.stripped earlier).constants = env.constants := rfl

@[simp] theorem tokens_stripped : (env.stripped earlier).tokens = env.tokens := rfl

@[simp] theorem entityBase_stripped : (env.stripped earlier).entityBase = env.entityBase := rfl

@[simp] theorem loader_stripped : (env.stripped earlier).loader = env.loader := rfl

theorem entries_stripped : (env.stripped earlier).log.entries = earlier ++ env.log.entries := rfl

@[simp] theorem variableName_stripped : (env.stripped earlier).variableName = env.variableName :=
  rfl

@[simp] theorem functionName_stripped : (env.stripped earlier).functionName = env.functionName := by
  funext h
  simp only [functionName, heap_stripped, Heap.function?_stripped,
    Heap.string?_stripped]
  cases env.heap.function? h <;> rfl

@[simp] theorem sourceFilename_stripped :
    (env.stripped earlier).sourceFilename = env.sourceFilename := by
  funext h
  simp only [sourceFilename, heap_stripped, Heap.function?_stripped,
    Heap.string?_stripped]
  cases env.heap.function? h <;> rfl

@[simp] theorem className_stripped : (env.stripped earlier).className = env.className := by
  funext h
  simp [className]

@[simp] theorem classByHash?_stripped : (env.stripped earlier).classByHash? = env.classByHash? := by
  funext hash
  simp [classByHash?]

@[simp] theorem isStandardClass_stripped :
    (env.stripped earlier).isStandardClass = env.isStandardClass := by
  funext name
  simp [isStandardClass, constant?]

@[simp] theorem entryFunction?_stripped :
    (env.stripped earlier).entryFunction? = env.entryFunction? := by
  funext module
  simp [entryFunction?]

@[simp] theorem baseMember?_stripped : (env.stripped earlier).baseMember? = env.baseMember? := by
  funext hash
  simp [baseMember?]

@[simp] theorem classOf?_stripped : (env.stripped earlier).classOf? = env.classOf? := by
  funext v
  unfold classOf?
  cases v.object? with
  | none => rfl
  | some h =>
    dsimp only [heap_stripped]
    rw [Heap.get?_stripped]
    cases env.heap.get? h with
    | none => rfl
    | some o => cases o <;> rfl

end Readers

/-! ### Changes -/

section Writers

variable (env : Environment) (earlier : Array LogEntry)

theorem report_stripped (level : Level) (text : Unit → String) :
    (env.stripped earlier).report level text = (env.report level text).stripped earlier := by
  have hkeeps : (env.stripped earlier).log.keeps level = env.log.keeps level := rfl
  unfold report Log.add
  rw [hkeeps]
  cases env.log.keeps level with
  | false => rfl
  | true => exact congrArg (fun entries => { env with
      memory := env.memory.stripped, log := { env.log with entries } }) Array.push_append

theorem mapHeap_stripped {u : Heap → Heap}
    (hu : ∀ heap : Heap, u heap.stripped = (u heap).stripped) :
    (env.stripped earlier).mapHeap u = (env.mapHeap u).stripped earlier := by
  unfold mapHeap Memory.mapHeap
  dsimp only [stripped, Memory.heap_stripped]
  rw [hu]
  rfl

theorem alloc_stripped (o : Obj) : (env.stripped earlier).alloc o.stripped =
    ((env.alloc o).1, (env.alloc o).2.stripped earlier) := by
  unfold alloc
  dsimp only [memory_stripped]
  rw [Memory.alloc_stripped]
  rfl

theorem newString_stripped (s : String) : (env.stripped earlier).newString s =
    ((env.newString s).1, (env.newString s).2.stripped earlier) :=
  env.alloc_stripped earlier (.string s)

theorem insertMethod_stripped (c : Handle) (hash : UInt32) (v : Value) :
    (env.stripped earlier).insertMethod c hash v = (env.insertMethod c hash v).stripped earlier :=
  env.mapHeap_stripped earlier fun heap => heap.modifyClass_stripped c _

theorem addToken_stripped (name : String) :
    (env.stripped earlier).addToken name =
      ((env.addToken name).1, (env.addToken name).2.stripped earlier) :=
  rfl

theorem defineNative_stripped (c : Handle) (name native : String) :
    (env.stripped earlier).defineNative c name native =
      (env.defineNative c name native).stripped earlier := by
  unfold defineNative
  rw [addToken_stripped]
  dsimp only [heap_stripped]
  rw [Heap.class?_stripped]
  split
  · rfl
  · split
    · rfl
    · rw [show Obj.native native = (Obj.native native).stripped from rfl, alloc_stripped]
      exact insertMethod_stripped _ _ _ _ _

theorem bind_stripped (c : Option Handle) (name : String) (v : Value) (constant : Bool) :
    (env.stripped earlier).bind c name v constant =
      (env.bind c name v constant).stripped earlier := by
  unfold bind
  rw [addToken_stripped]
  cases c with
  | some c => exact insertMethod_stripped _ _ _ _ _
  | none => cases constant <;> rfl

theorem bindMember_stripped (c : Handle) (m : Member) :
    (env.stripped earlier).bindMember c m = (env.bindMember c m).stripped earlier := by
  unfold bindMember bindValue
  cases m.value with
  | native native => exact env.defineNative_stripped earlier c m.name native
  | _ => exact env.bind_stripped earlier _ _ _ _

theorem bindMembers_stripped (b : Binder) (c : Handle) (name : String) :
    Load.bindMembers (env.stripped earlier) b c name =
      (Load.bindMembers env b c name).stripped earlier := by
  have hfold : ∀ (l : List Member) (env : Environment),
      l.foldl (fun env m => env.bindMember c m) (env.stripped earlier) =
        (l.foldl (fun env m => env.bindMember c m) env).stripped earlier := by
    intro l
    induction l with
    | nil => exact fun _ => rfl
    | cons m rest ih =>
      intro env
      rw [List.foldl_cons, List.foldl_cons, bindMember_stripped]
      exact ih _
  unfold Load.bindMembers
  dsimp only
  rw [hfold]
  rfl

/-! ### Classes -/

theorem resolveParent_stripped (c : Handle) : (env.stripped earlier).resolveParent c =
    ((env.resolveParent c).1, (env.resolveParent c).2.stripped earlier) := by
  unfold resolveParent
  dsimp only [heap_stripped]
  rw [Heap.class?_stripped, classByHash?_stripped]
  split
  · rfl
  · split
    · rfl
    · split
      · rfl
      · exact congrArg (Prod.mk _)
          (env.mapHeap_stripped earlier fun heap => heap.modifyClass_stripped c _)

theorem walk_stripped (first : Handle) (hash : UInt32) (left : Nat) (current : Option Handle)
    (bound : Bool) : walk first hash left current bound (env.stripped earlier) =
      ((walk first hash left current bound env).1,
        (walk first hash left current bound env).2.stripped earlier) := by
  induction left generalizing current bound env with
  | zero =>
    cases current with
    | none =>
      unfold walk
      rw [baseMember?_stripped]
    | some c =>
      unfold walk
      rw [className_stripped, report_stripped]
  | succ left ih =>
    cases current with
    | none =>
      unfold walk
      rw [baseMember?_stripped]
    | some c =>
      unfold walk
      dsimp only [heap_stripped]
      rw [Heap.class?_stripped, resolveParent_stripped]
      split
      · rfl
      · split
        · rfl
        · exact ih _ _ _

theorem findMember_stripped (c : Handle) (hash : UInt32) :
    (env.stripped earlier).findMember c hash =
    ((env.findMember c hash).1, (env.findMember c hash).2.stripped earlier) :=
  env.walk_stripped earlier c hash maxChain (some c) false

theorem hasMember_stripped (c : Handle) (hash : UInt32) : (env.stripped earlier).hasMember c hash =
    ((env.hasMember c hash).1, (env.hasMember c hash).2.stripped earlier) := by
  unfold hasMember
  rw [findMember_stripped]

theorem defineMethod_stripped (c function : Handle) (hash : UInt32) :
    (env.stripped earlier).defineMethod c function hash =
      (env.defineMethod c function hash).stripped earlier := by
  unfold defineMethod
  dsimp only [heap_stripped]
  rw [Heap.class?_stripped]
  split
  · rfl
  · rw [mapHeap_stripped _ _ fun heap => heap.modifyClass_stripped c _,
      mapHeap_stripped _ _ fun heap =>
        heap.modifyFunction_stripped function (by exact fun _ => rfl)]

theorem extendClass_stripped (extension target : Handle) :
    (env.stripped earlier).extendClass extension target =
      (env.extendClass extension target).stripped earlier := by
  unfold extendClass
  dsimp only [heap_stripped]
  rw [Heap.class?_stripped]
  split
  · rfl
  · split
    · rfl
    · rw [mapHeap_stripped _ _ fun heap => heap.modifyClass_stripped extension _,
        mapHeap_stripped _ _ fun heap => heap.modifyClass_stripped target _]

/-! ### Entities -/

theorem linkFields_stripped (h : Handle) (fields : List (String × Link)) :
    linkFields h fields (env.stripped earlier) = (linkFields h fields env).stripped earlier := by
  induction fields generalizing env with
  | nil => rfl
  | cons f rest ih =>
    unfold linkFields
    rw [addToken_stripped]
    dsimp only
    rw [mapHeap_stripped _ _ fun heap => heap.modifyInstance_stripped h _]
    exact ih _

theorem newEntity_stripped (c : Handle) (e : EntityId) : (env.stripped earlier).newEntity c e =
    ((env.newEntity c e).1, (env.newEntity c e).2.stripped earlier) := by
  have halloc :=
    env.alloc_stripped earlier (.inst { InstanceObject.ofClass c with entity := some e })
  unfold newEntity
  rw [show Obj.inst _ =
    (Obj.inst { InstanceObject.ofClass c with entity := some e }).stripped from rfl, halloc]
  dsimp only
  rw [mapHeap_stripped _ _ fun heap => heap.modifyClass_stripped c _, linkFields_stripped]
  rfl

theorem addMissingFields_stripped (h : Handle) (fields : List (UInt32 × Value)) :
    addMissingFields h fields (env.stripped earlier) =
      (addMissingFields h fields env).stripped earlier :=
  env.mapHeap_stripped earlier fun heap => heap.modifyInstance_stripped h _

theorem callable_stripped (h : Handle) (hash : UInt32) : (env.stripped earlier).callable h hash =
    ((env.callable h hash).1, (env.callable h hash).2.stripped earlier) := by
  unfold callable
  dsimp only [heap_stripped]
  rw [Heap.instance?_stripped]
  split
  · rfl
  · split
    · rfl
    · rw [findMember_stripped]
      rfl

/-! ### Modules -/

theorem loadConstants_stripped (ks : List Constant) (loaded : Array Value) :
    loadConstants ks loaded (env.stripped earlier) =
      ((loadConstants ks loaded env).1, (loadConstants ks loaded env).2.stripped earlier) := by
  induction ks generalizing env loaded with
  | nil => rfl
  | cons k rest ih =>
    unfold loadConstants
    cases k with
    | string s =>
      unfold loadConstant
      dsimp only
      rw [newString_stripped]
      exact ih _ _
    | integer n => exact ih _ _
    | decimal d => exact ih _ _

theorem loadFunction_stripped (source module : Handle) (index : Nat) (p : Prototype) :
    (env.stripped earlier).loadFunction source module index p.stripped =
      ((env.loadFunction source module index p).1,
        (env.loadFunction source module index p).2.stripped earlier) := by
  unfold loadFunction
  dsimp only [Prototype.stripped]
  rw [loadConstants_stripped]
  dsimp only [tokens_stripped]
  rw [newString_stripped]
  exact alloc_stripped _ earlier (.function
    { FunctionObject.ofCode p.arity p.nameHash p.chunk.code with
      name := _, sourceFilename := some source, module := some module
      lines := p.chunk.lines, constants := _ })

theorem loadFunctions_stripped (source module : Handle) (index : Nat) (ps : List Prototype)
    (loaded : Array Handle) :
    loadFunctions source module index (ps.map Prototype.stripped) loaded (env.stripped earlier) =
      ((loadFunctions source module index ps loaded env).1,
        (loadFunctions source module index ps loaded env).2.stripped earlier) := by
  induction ps generalizing env index loaded with
  | nil => rfl
  | cons p rest ih =>
    rw [List.map_cons]
    unfold loadFunctions
    rw [loadFunction_stripped]
    exact ih _ _ _

theorem loadModule_stripped (c : Container) (file : UInt32) :
    (env.stripped earlier).loadModule c.stripped file =
      ((env.loadModule c file).1, (env.loadModule c file).2.stripped earlier) := by
  have htokens : ∀ (names : List String) (env : Environment),
      names.foldl (fun env name => (env.addToken name).2) (env.stripped earlier) =
        (names.foldl (fun env name => (env.addToken name).2) env).stripped earlier := by
    intro names
    induction names with
    | nil => exact fun _ => rfl
    | cons name rest ih => exact fun env => ih (env.addToken name).2
  unfold loadModule
  dsimp only [Container.stripped]
  rw [htokens, newString_stripped]
  dsimp only
  rw [show Obj.module _ = (Obj.module ⟨#[], #[], some _⟩).stripped from rfl, alloc_stripped]
  dsimp only
  rw [loadFunctions_stripped]
  dsimp only
  rw [mapHeap_stripped _ _ fun heap => heap.modifyModule_stripped _ _, List.length_map]
  have hlisted : ∀ (env : Environment) (functions : Array Handle) (module : Handle),
      { env.stripped earlier with
        functions := (env.stripped earlier).functions ++ functions
        modules := (env.stripped earlier).modules.push module } =
      stripped { env with
        functions := env.functions ++ functions
        modules := env.modules.push module } earlier := fun _ _ _ => rfl
  rw [hlisted, report_stripped]
  rfl

end Writers

/-! ### Natives

Nothing but the host changes what natives there are. -/

section Natives

variable (env : Environment)

@[simp] theorem natives_report (level : Level) (text : Unit → String) :
    (env.report level text).natives = env.natives := rfl

@[simp] theorem natives_mapHeap (u : Heap → Heap) : (env.mapHeap u).natives = env.natives := rfl

@[simp] theorem natives_bindMember (c : Handle) (m : Member) :
    (env.bindMember c m).natives = env.natives := by
  unfold bindMember bindValue
  cases m.value with
  | native native =>
    show (env.defineNative c m.name native).natives = env.natives
    unfold defineNative
    dsimp only [addToken]
    split
    · rfl
    · split <;> rfl
  | _ => rfl

theorem natives_bindMembers (b : Binder) (c : Handle) (name : String) :
    (Load.bindMembers env b c name).natives = env.natives := by
  have hfold : ∀ (l : List Member) (env : Environment),
      (l.foldl (fun env m => env.bindMember c m) env).natives = env.natives := by
    intro l
    induction l with
    | nil => exact fun _ => rfl
    | cons m rest ih =>
      exact fun env => (ih (env.bindMember c m)).trans (env.natives_bindMember c m)
  exact hfold _ env

theorem natives_resolveParent (c : Handle) : (env.resolveParent c).2.natives = env.natives := by
  unfold resolveParent
  split
  · rfl
  · split
    · rfl
    · split <;> rfl

theorem natives_walk (first : Handle) (hash : UInt32) (left : Nat) (current : Option Handle)
    (bound : Bool) : (walk first hash left current bound env).2.natives = env.natives := by
  induction left generalizing current bound env with
  | zero => cases current <;> rfl
  | succ left ih =>
    cases current with
    | none => rfl
    | some c =>
      unfold walk
      split
      · rfl
      · split
        · rfl
        · exact (ih _ _ _).trans (env.natives_resolveParent c)

theorem natives_findMember (c : Handle) (hash : UInt32) :
    (env.findMember c hash).2.natives = env.natives :=
  env.natives_walk c hash maxChain (some c) false

theorem natives_defineMethod (c function : Handle) (hash : UInt32) :
    (env.defineMethod c function hash).natives = env.natives := by
  unfold defineMethod
  split <;> rfl

theorem natives_extendClass (extension target : Handle) :
    (env.extendClass extension target).natives = env.natives := by
  unfold extendClass
  split
  · rfl
  · split <;> rfl

theorem natives_linkFields (h : Handle) (fields : List (String × Link)) :
    (linkFields h fields env).natives = env.natives := by
  induction fields generalizing env with
  | nil => rfl
  | cons f rest ih => exact ih _

theorem natives_newEntity (c : Handle) (e : EntityId) :
    (env.newEntity c e).2.natives = env.natives :=
  natives_linkFields _ _ _

theorem natives_callable (h : Handle) (hash : UInt32) :
    (env.callable h hash).2.natives = env.natives := by
  unfold callable
  split
  · rfl
  · split
    · rfl
    · exact env.natives_findMember _ hash

theorem natives_loadConstants (ks : List Constant) (loaded : Array Value) :
    (loadConstants ks loaded env).2.natives = env.natives := by
  induction ks generalizing env loaded with
  | nil => rfl
  | cons k rest ih => cases k <;> exact ih _ _

theorem natives_loadFunctions (source module : Handle) (index : Nat) (ps : List Prototype)
    (loaded : Array Handle) :
    (loadFunctions source module index ps loaded env).2.natives = env.natives := by
  induction ps generalizing env index loaded with
  | nil => rfl
  | cons p rest ih =>
    exact (ih _ _ _).trans (env.natives_loadConstants p.chunk.constants.toList #[])

theorem natives_loadModule (c : Container) (file : UInt32) :
    (env.loadModule c file).2.natives = env.natives := by
  have htokens : ∀ (names : List String) (env : Environment),
      (names.foldl (fun env name => (env.addToken name).2) env).natives = env.natives := by
    intro names
    induction names with
    | nil => exact fun _ => rfl
    | cons name rest ih => exact fun env => ih (env.addToken name).2
  exact (natives_loadFunctions _ _ _ _ _ _).trans (htokens c.tokens env)

end Natives

end Environment

/-! ### Reports -/

/-- The line of a trace without the line of the source. -/
def StackFrame.stripped (f : StackFrame) : StackFrame := { f with line := none }

/-- What a report of a fault says of the current call, apart from lines of the source. -/
structure FaultReport where
  functionName : String
  sourceFilename : String
  offset : Nat
  message : String
  thread : Nat

/-- The report, with the line of the current call if it is known, and the trace of the calls. -/
def FaultReport.text (r : FaultReport) (line : Option UInt32) (trace : List StackFrame) : String :=
  (match line with
    | some line =>
      s!"In {r.functionName} of {r.sourceFilename}, " ++ s!"line {line.toNat}:\n\n    {r.message}\n"
    | none => s!"On offset {r.offset}:\n    {r.message}\n") ++
    s!"\nCall Trace (Thread {r.thread}):\n" ++ String.join (Machine.traceLines trace)

/-- Two lines of a log are the same, or report the same fault with other lines of the source. -/
inductive LogEntry.Alike : LogEntry → LogEntry → Prop
  | same (e : LogEntry) : Alike e e
  | report (r : FaultReport) (line line' : Option UInt32) {trace trace' : List StackFrame} :
    trace.map StackFrame.stripped = trace'.map StackFrame.stripped →
      Alike ⟨.error, r.text line trace⟩ ⟨.error, r.text line' trace'⟩

namespace Environment

variable {ε α β : Type} {env env' : Environment}

/-- The environment without line tables and with nothing in its log. -/
def core (env : Environment) : Environment :=
  { env with memory := env.memory.stripped, log := { env.log with entries := #[] } }

/-- Two environments are the same but for line tables, and so are the reports in their logs. -/
structure Alike (env env' : Environment) : Prop where
  core : env.core = env'.core
  log : List.Forall₂ LogEntry.Alike env.log.entries.toList env'.log.entries.toList

theorem Alike.refl (env : Environment) : env.Alike env :=
  ⟨rfl, List.forall₂_same.2 fun e _ => .same e⟩

theorem core_stripped (env : Environment) (earlier : Array LogEntry) :
    (env.stripped earlier).core = env.core := by
  unfold core
  rw [memory_stripped, Memory.stripped_stripped]
  rfl

theorem stripped_core (env : Environment) :
    env.core.stripped env.log.entries = env.stripped #[] := by
  unfold stripped core
  dsimp only
  rw [Memory.stripped_stripped, Array.append_empty, Array.empty_append]

/-- What does not look at line tables is the same. -/
theorem Alike.reads (h : env.Alike env') {k : Environment → β}
    (hk : ∀ earlier env, k (env.stripped earlier) = k env) : k env' = k env := by
  rw [← hk #[] env', ← hk #[] env, ← stripped_core, ← stripped_core, hk, hk, h.core]

/-- A function of the environment, and what it comes to without line tables. -/
structure Strips (f g : Environment → α × Environment) : Prop where
  strips : ∀ earlier env, g (env.stripped earlier) = ((f env).1, (f env).2.stripped earlier)
  natives : ∀ env, (f env).2.natives = env.natives

/-- Functions that come to the same without line tables do the same. -/
theorem Alike.apply {f f' g : Environment → α × Environment} (h : env.Alike env') (hf : Strips f g)
    (hf' : Strips f' g) : (f' env').1 = (f env).1 ∧ (f env).2.Alike (f' env').2 := by
  -- both come to what `f` and `f'` do to the common core, after the lines of either log
  have hcore : ((f env).1, (f env).2.stripped #[]) =
      ((f env.core).1, (f env.core).2.stripped env.log.entries) := by
    rw [← hf.strips, ← hf.strips, stripped_core]
  have hcore' : ((f' env').1, (f' env').2.stripped #[]) =
      ((f' env.core).1, (f' env.core).2.stripped env'.log.entries) := by
    rw [← hf'.strips, ← hf'.strips, h.core, stripped_core]
  have hsame : ((f env.core).1, (f env.core).2.stripped #[]) =
      ((f' env.core).1, (f' env.core).2.stripped #[]) := by
    rw [← hf.strips, ← hf'.strips]
  obtain ⟨hresult, henv⟩ := Prod.mk.inj hcore
  obtain ⟨hresult', henv'⟩ := Prod.mk.inj hcore'
  obtain ⟨hagree, hstripped⟩ := Prod.mk.inj hsame
  refine ⟨hresult'.trans (hagree.symm.trans hresult.symm), ?_, ?_⟩
  · rw [← core_stripped _ #[], henv, core_stripped, ← core_stripped _ #[], hstripped, core_stripped,
      ← core_stripped (f' env').2 #[], henv', core_stripped]
  · have hlog := congrArg (fun env : Environment => env.log.entries) henv
    have hlog' := congrArg (fun env : Environment => env.log.entries) henv'
    have hnew := congrArg (fun env : Environment => env.log.entries) hstripped
    simp only [entries_stripped, Array.empty_append] at hlog hlog' hnew
    rw [hlog, hlog', hnew, Array.toList_append, Array.toList_append]
    exact List.rel_append h.log (List.forall₂_same.2 fun e _ => .same e)

/-! ### Collections -/

/-- What an action on the environment comes to. -/
def outcome (x : EStateM ε Environment α) (env : Environment) : Except ε α × Environment :=
  match x env with
  | .ok a env => (.ok a, env)
  | .error e env => (.error e, env)

/-- A collection logs lines that say nothing about line tables. -/
theorem foldl_report_stripped (env : Environment) (earlier : Array LogEntry) (lines : List String) :
    lines.foldl (fun env line => env.report .debug fun _ => line) (env.stripped earlier) =
      (lines.foldl (fun env line => env.report .debug fun _ => line) env).stripped earlier := by
  induction lines generalizing env with
  | nil => rfl
  | cons line rest ih =>
    rw [List.foldl_cons, List.foldl_cons, report_stripped]
    exact ih _

theorem natives_foldl_report (env : Environment) (lines : List String) :
    (lines.foldl (fun env line => env.report .debug fun _ => line) env).natives = env.natives := by
  induction lines generalizing env with
  | nil => rfl
  | cons line rest ih => exact (ih _).trans (env.natives_report _ _)

theorem collect_stripped (roots : List Handle) (env : Environment) (earlier : Array LogEntry) :
    outcome (collect roots) (env.stripped earlier) =
      ((outcome (collect roots) env).1, (outcome (collect roots) env).2.stripped earlier) := by
  have hmemory : { env.stripped earlier with memory := ((env.memory.collect roots).2).stripped } =
      { env with memory := (env.memory.collect roots).2 }.stripped earlier := rfl
  unfold outcome collect
  dsimp only [memory_stripped]
  rw [Memory.collect_stripped, hmemory]
  dsimp only
  rw [foldl_report_stripped]
  cases (env.memory.collect roots).1.overflow <;> rfl

theorem natives_collect (roots : List Handle) (env : Environment) :
    (outcome (collect roots) env).2.natives = env.natives := by
  have hlines := natives_foldl_report { env with memory := (env.memory.collect roots).2 }
    (env.memory.collect roots).1.lines
  unfold outcome collect
  dsimp only
  cases (env.memory.collect roots).1.overflow <;> exact hlines

theorem strips_collect (roots : List Handle) :
    Strips (outcome (collect roots)) (outcome (collect roots)) :=
  ⟨fun earlier env => collect_stripped roots env earlier, natives_collect roots⟩

theorem outcome_some (x : Collect CollectionReport) (env : Environment) :
    outcome (some <$> x) env = ((outcome x env).1.map some, (outcome x env).2) := by
  show outcome (EStateM.map some x) env = _
  unfold outcome EStateM.map
  cases x env <;> rfl

theorem outcome_force (threads : List Thread) (env : Environment) :
    outcome (force threads) env =
      if 1 < env.activeThreads then
        (.ok none, env.report .debug fun _ =>
          s!"Skipping collection with {env.activeThreads} active threads")
      else
        ((outcome (collect (env.roots threads)) env).1.map some,
          (outcome (collect (env.roots threads)) env).2) := by
  by_cases hbusy : 1 < env.activeThreads
  · have hforce : force threads env = .ok none _ := if_pos hbusy
    rw [if_pos hbusy]
    unfold outcome
    rw [hforce]
  · have hforce : force threads env = (some <$> collect (env.roots threads)) env := if_neg hbusy
    rw [if_neg hbusy, ← outcome_some]
    unfold outcome
    rw [hforce]

theorem strips_force (threads : List Thread) :
    Strips (outcome (force threads)) (outcome (force threads)) := by
  refine ⟨fun earlier env => ?_, fun env => ?_⟩
  · have hroots : (env.stripped earlier).roots threads = env.roots threads := rfl
    rw [outcome_force, outcome_force, hroots, (strips_collect _).strips]
    show (if 1 < env.activeThreads then _ else _) = _
    split
    · exact congrArg (Prod.mk _) (env.report_stripped earlier _ _)
    · rfl
  · rw [outcome_force]
    split
    · rfl
    · exact (strips_collect _).natives env

/-- What a requested collection adds to the log. -/
def logFreed (before : Nat) : Except SizeOverflow (Option CollectionReport) × Environment →
    Except SizeOverflow (Option CollectionReport) × Environment
  | (.ok (some report), after) =>
    (.ok (some report), after.report .debug fun _ =>
      s!"Freed garbage from {before} to {after.heap.accounted} ({report.freedBytes}), " ++
        s!"next GC at {after.heap.threshold}")
  | other => other

theorem outcome_request (threads : List Thread) (env : Environment) :
    outcome (request threads) env =
      if env.heap.shouldCollect then logFreed env.heap.accounted (outcome (force threads) env)
      else (.ok none, env) := by
  by_cases hfull : env.heap.shouldCollect
  · rw [if_pos hfull]
    unfold outcome request
    rw [if_pos hfull]
    cases force threads env with
    | ok report after => cases report <;> rfl
    | error e after => rfl
  · have hrequest : request threads env = .ok none env := if_neg hfull
    rw [if_neg hfull]
    unfold outcome
    rw [hrequest]

theorem logFreed_stripped (before : Nat) (r : Except SizeOverflow (Option CollectionReport))
    (env : Environment) (earlier : Array LogEntry) :
    logFreed before (r, env.stripped earlier) =
      ((logFreed before (r, env)).1, (logFreed before (r, env)).2.stripped earlier) := by
  rcases r with e | _ | report
  · rfl
  · rfl
  · exact congrArg (Prod.mk _) (env.report_stripped earlier _ _)

theorem natives_logFreed (before : Nat)
    (r : Except SizeOverflow (Option CollectionReport) × Environment) :
    (logFreed before r).2.natives = r.2.natives := by
  obtain ⟨_ | _ | report, env⟩ := r <;> rfl

theorem strips_request (threads : List Thread) :
    Strips (outcome (request threads)) (outcome (request threads)) := by
  refine ⟨fun earlier env => ?_, fun env => ?_⟩
  · have hcollect : (env.stripped earlier).heap.shouldCollect = env.heap.shouldCollect := rfl
    rw [outcome_request, outcome_request, hcollect, (strips_force threads).strips]
    split
    · exact logFreed_stripped _ _ _ _
    · rfl
  · rw [outcome_request]
    split
    · rw [natives_logFreed]
      exact (strips_force threads).natives env
    · rfl

end Environment
end ScriptVm
