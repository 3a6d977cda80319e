import ScriptVm.Proofs.Machine.BlindCalls

/-!
# Runs and loading without line tables

* Lines are looked up for the trace of the calls and for a report. `Twins.attachTrace` says that
  they go no further: the cause, the calls and the words are the same.
* `blind_runProtected` is about runs, and what hosts call by them follows.
* `outcome_loadModule` loads containers that differ in line tables.
* `blind_loadScript` and `blind_loadClass` are about actions that run scripts; the executor
  must be blind.
-/

namespace ScriptVm

/-! ### Reports -/

namespace Machine

/-- The trace of calls names the functions and their files; the rest of it is lines. -/
theorem map_stripped_traceFrom (env : Environment) (caller : Option Frame) (frames : List Frame) :
    (traceFrom env caller frames).map StackFrame.stripped =
      frames.map fun f => ⟨env.functionName f.function, env.sourceFilename f.function, none⟩ := by
  induction frames generalizing caller with
  | nil => rfl
  | cons f rest ih =>
    unfold traceFrom
    rw [List.map_cons, List.map_cons, ih]
    rfl

/-- What a report of a fault says of the current call. -/
def faultReport (m : Machine) (f : Frame) (message : String) : FaultReport :=
  { functionName := m.env.functionName f.function
    sourceFilename := m.env.sourceFilename f.function
    offset := f.ipLast
    message
    thread := m.thread.id }

theorem errorReport_eq_text {m : Machine} {f : Frame} (hf : m.thread.frames.back? = some f)
    (message : String) :
    m.errorReport message =
      (m.faultReport f message).text (lineOf? m.env f.function f.ipLast) m.callTrace := by
  unfold errorReport
  rw [hf]
  dsimp only
  unfold location
  cases lineOf? m.env f.function f.ipLast <;> rfl

namespace Twins

variable {m m' : Machine}

theorem functionName_eq (hm : m.Twins m') : m'.env.functionName = m.env.functionName :=
  hm.env.reads fun earlier env => env.functionName_stripped earlier

theorem sourceFilename_eq (hm : m.Twins m') : m'.env.sourceFilename = m.env.sourceFilename :=
  hm.env.reads fun earlier env => env.sourceFilename_stripped earlier

theorem callTrace (hm : m.Twins m') :
    m.callTrace.map StackFrame.stripped = m'.callTrace.map StackFrame.stripped := by
  unfold Machine.callTrace
  rw [map_stripped_traceFrom, map_stripped_traceFrom, hm.functionName_eq, hm.sourceFilename_eq,
    hm.thread]

/-- The reports of a fault differ in lines of the source only. -/
theorem errorReport (hm : m.Twins m') (message : String) :
    LogEntry.Alike ⟨.error, m.errorReport message⟩ ⟨.error, m'.errorReport message⟩ := by
  have hthread := hm.thread
  cases hf : m.thread.frames.back? with
  | none =>
    have htext : m'.errorReport message = m.errorReport message := by
      unfold Machine.errorReport
      rw [hthread, hf]
    rw [htext]
    exact .same _
  | some f =>
    have hreport : m'.faultReport f message = m.faultReport f message := by
      unfold faultReport
      rw [hm.functionName_eq, hm.sourceFilename_eq, hthread]
    rw [errorReport_eq_text hf, errorReport_eq_text (hthread ▸ hf), hreport]
    exact .report _ _ _ hm.callTrace

end Twins
end Machine

/-- Both logs keep a line or neither does. -/
theorem Environment.Alike.report {env env' : Environment} (h : env.Alike env') {level : Level}
    {text text' : Unit → String} (ht : LogEntry.Alike ⟨level, text ()⟩ ⟨level, text' ()⟩) :
    (env.report level text).Alike (env'.report level text') := by
  have hkeeps : env'.log.keeps level = env.log.keeps level :=
    h.reads (k := fun env => env.log.keeps level) fun _ _ => rfl
  unfold Environment.report Log.add
  rw [hkeeps]
  cases env.log.keeps level with
  | false => exact ⟨h.core, h.log⟩
  | true =>
    refine ⟨h.core, ?_⟩
    show List.Forall₂ LogEntry.Alike (env.log.entries.push _).toList
      (env'.log.entries.push _).toList
    rw [Array.toList_push, Array.toList_push]
    exact List.rel_append h.log (.cons ht .nil)

namespace Machine.Twins

variable {m m' : Machine}

/-- Faults that are alike get traces that are alike, and the same is reported but for lines. -/
theorem attachTrace (hm : m.Twins m') {f f' : Fault} (hf : f.stripped = f'.stripped) :
    (m.attachTrace f).1.stripped = (m'.attachTrace f').1.stripped ∧
      (m.attachTrace f).2.Twins (m'.attachTrace f').2 := by
  obtain ⟨cause, stack⟩ := f
  obtain ⟨cause', stack'⟩ := f'
  obtain ⟨rfl, hstack⟩ := Fault.mk.inj hf
  have hempty : stack'.isEmpty = stack.isEmpty := by
    have hlength := congrArg List.length hstack
    rw [List.length_map, List.length_map] at hlength
    cases stack <;> cases stack' <;> simp_all
  unfold Machine.attachTrace
  dsimp only
  rw [hempty]
  split
  · exact ⟨congrArg (Fault.mk cause) hm.callTrace,
      hm.env.report (hm.errorReport _), hm.thread, hm.quiet, hm.blind⟩
  · exact ⟨hf, hm⟩

theorem beginRun (hm : m.Twins m') : m.beginRun.Twins m'.beginRun :=
  hm.mapThread fun _ => rfl

theorem endRun (hm : m.Twins m') (height calls returnFrame : Nat) (outcome : ThreadState) :
    (m.endRun height calls returnFrame outcome).Twins
      (m'.endRun height calls returnFrame outcome) :=
  hm.mapThread fun _ => rfl

end Machine.Twins

/-- Errors that differ in lines of the source fail an import with faults that do. -/
theorem RegistryError.stripped_toFault (e : RegistryError) :
    e.toFault.stripped = e.stripped.toFault := by
  cases e <;> rfl

namespace Exec

variable {α : Type}

/-! ### Runs -/

theorem blind_runProtected {body : Exec Unit} (hbody : Blind body) : Blind (runProtected body) := by
  intro m m' hm
  have hout : SameOutcome ((body *> pop) m.beginRun) ((body *> pop) m'.beginRun) :=
    (hbody.bind fun _ => blind_pop) _ _ hm.beginRun
  unfold runProtected
  dsimp only
  rw [hm.thread]
  generalize (body *> pop) m.beginRun = r, (body *> pop) m'.beginRun = r' at hout
  cases hout with
  | ok v hm₁ => exact .ok v (hm₁.endRun ..)
  | error he hm₁ =>
    cases he with
    | error hf =>
      obtain ⟨hfault, htraced⟩ := hm₁.attachTrace hf
      exact .error (.error hfault) (htraced.endRun ..)
    | outOfFuel => exact .error .outOfFuel (hm₁.endRun ..)
    | overflow => exact .error .overflow (hm₁.endRun ..)

variable {executor : Exec Unit}

theorem blind_runValue (hx : Blind executor) (callee : Value) (args : List Value) :
    Blind (runValue executor callee args) :=
  blind_runProtected <| (blind_push callee).bind fun _ => (blind_pushAll args).bind fun _ =>
    (blind_callValue _).bind fun _ => hx

theorem blind_invokeForObject (hx : Blind executor) (callable receiver : Value)
    (args : List Value) : Blind (invokeForObject executor callable receiver args) :=
  blind_runProtected <| (blind_push receiver).bind fun _ => (blind_pushAll args).bind fun _ =>
    (blind_callForObject callable _).bind fun _ => hx

theorem blind_callInitializer (hx : Blind executor) (h : Handle) :
    Blind (callInitializer executor h) := by
  refine blind_environment (fun earlier env => ?_) fun env => ?_
  · have harity : ∀ init : Value, (init.object?.bind env.heap.stripped.function?).map (·.arity) =
        (init.object?.bind env.heap.function?).map (·.arity) := by
      intro init
      cases init.object? with
      | none => rfl
      | some f =>
        rw [Option.bind_some, Option.bind_some, Heap.function?_stripped, Option.map_map]
        rfl
    simp only [Environment.heap_stripped, Heap.instance?_stripped, Heap.class?_stripped, harity]
  · refine (blind_ofOption _ _).bind fun i => ?_
    split
    · exact blind_pure ()
    · split
      · split
        · exact (blind_invokeForObject hx _ _ _).bind fun _ => blind_pure ()
        · exact blind_fault _
      · exact (blind_invokeForObject hx _ _ _).bind fun _ => blind_pure ()

/-! ### Entities -/

theorem blind_newEntity (c : Handle) (e : EntityId) : Blind (onEnvironment (·.newEntity c e)) :=
  blind_onEnvironment ⟨fun earlier env => env.newEntity_stripped earlier c e,
    fun env => env.natives_newEntity c e⟩

theorem blind_callable (h : Handle) (hash : UInt32) : Blind (onEnvironment (·.callable h hash)) :=
  blind_onEnvironment ⟨fun earlier env => env.callable_stripped earlier h hash,
    fun env => env.natives_callable h hash⟩

theorem blind_spawn (hx : Blind executor) (c : Handle) (e : EntityId) :
    Blind (spawn executor c e) := by
  refine blind_environment (fun earlier env => ?_) fun env => ?_
  · simp
  · split
    · refine (blind_newEntity c e).bind fun h => ?_
      refine blind_environment (fun earlier env => ?_) fun env => ?_
      · simp
      · refine (blind_report _ _).bind fun _ => ?_
        exact (blind_callInitializer hx h).bind fun _ => blind_pure h
    · exact blind_fault _

theorem blind_cloneEntity (source : Handle) (e : EntityId) : Blind (cloneEntity source e) := by
  refine blind_environment (fun earlier env => ?_) fun env => ?_
  · simp
  · refine (blind_ofOption _ _).bind fun i => ?_
    refine (blind_newEntity _ e).bind fun h => ?_
    refine (blind_mapEnvironment (fun earlier env => ?_) fun env => ?_).bind fun _ => blind_pure h
    · exact env.addMissingFields_stripped earlier h _
    · exact env.natives_mapHeap _

theorem blind_runEvent (hx : Blind executor) (h : Handle) (hash : UInt32) (args : List Value) :
    Blind (runEvent executor h hash args) := by
  refine (blind_callable h hash).bind fun found => ?_
  cases found with
  | none => exact blind_pure false
  | some f => exact (blind_invokeForObject hx f _ args).bind fun _ => blind_pure true

theorem blind_runNative (name : String) (args : Array Value) : Blind (runNative name args) :=
  blind_native name args blind_ofExcept

theorem blind_invokeWithDefault (hx : Blind executor) (h : Handle) (hash : UInt32) (native : String)
    (args : List Value) : Blind (invokeWithDefault executor h hash native args) := by
  refine (blind_callable h hash).bind fun found => ?_
  cases found with
  | none => exact blind_runNative native _
  | some f =>
    refine blind_environment (fun earlier env => ?_) fun env => ?_
    · simp
    · dsimp only
      split
      · exact blind_runNative native _
      · exact blind_invokeForObject hx f _ args

/-! ### Loading -/

theorem Blind.adaptExcept {ε δ : Type} [HasTrace ε] [HasTrace δ] {f : Halt ε → Halt δ}
    (hf : ∀ e e' : Halt ε, e.Alike e' → (f e).Alike (f e')) {x : EStateM (Halt ε) Machine α}
    (hx : Blind x) : Blind (EStateM.adaptExcept f x : EStateM (Halt δ) Machine α) := by
  intro m m' hm
  have hout := hx m m' hm
  unfold EStateM.adaptExcept
  generalize x m = r, x m' = r' at hout
  cases hout with
  | ok a hm => exact .ok a hm
  | error he hm => exact .error (hf _ _ he) hm

theorem blind_ofExec {x : Exec α} (hx : Blind x) : Blind (Load.ofExec x) := by
  refine Blind.adaptExcept (fun e e' he => ?_) hx
  cases he with
  | error hf => exact .error (congrArg RegistryError.vm hf)
  | outOfFuel => exact .outOfFuel
  | overflow => exact .overflow

theorem blind_toExec {x : Load α} (hx : Blind x) : Blind x.toExec := by
  refine Blind.adaptExcept (fun e e' he => ?_) hx
  cases he with
  | @error e e' h =>
    refine .error ?_
    show e.toFault.stripped = e'.toFault.stripped
    rw [RegistryError.stripped_toFault, RegistryError.stripped_toFault]
    exact congrArg RegistryError.toFault h
  | outOfFuel => exact .outOfFuel
  | overflow => exact .overflow

theorem blind_loadReport (level : Level) (text : Unit → String) : Blind (Load.report level text) :=
  blind_ofExec (blind_report level text)

/-- Placing the functions of a container, whatever line tables it has. -/
theorem outcome_loadModule {c c' : Container} (hc : c.stripped = c'.stripped) (file : UInt32)
    {m m' : Machine} (hm : m.Twins m') :
    (m.env.loadModule c file).1 = (m'.env.loadModule c' file).1 ∧
      (⟨(m.env.loadModule c file).2, m.thread⟩ : Machine).Twins
        ⟨(m'.env.loadModule c' file).2, m'.thread⟩ := by
  -- either comes to loading the container that has no tables
  have hstrips : ∀ c : Container,
      Environment.Strips (·.loadModule c file) (·.loadModule c.stripped file) :=
    fun c => ⟨fun earlier env => env.loadModule_stripped earlier c file,
      fun env => env.natives_loadModule c file⟩
  obtain ⟨hmodule, henv⟩ := hm.env.apply (hstrips c) (hc ▸ hstrips c')
  refine ⟨hmodule.symm, henv, hm.thread, hm.quiet, ?_⟩
  show ∀ name, ((m.env.loadModule c file).2.natives name).LineBlind
  rw [m.env.natives_loadModule]
  exact hm.blind

theorem blind_readModule (bytes : List UInt8) (file : UInt32) :
    Blind (Load.readModule bytes file) := by
  intro m m' hm
  unfold Load.readModule Environment.readModule
  cases Container.decode bytes with
  | error e => exact .same_error _ hm
  | ok c =>
    obtain ⟨hmodule, hloaded⟩ := outcome_loadModule (c := c) rfl file hm
    show SameOutcome (.ok (m.env.loadModule c file).1 ⟨(m.env.loadModule c file).2, m.thread⟩)
      (.ok (m'.env.loadModule c file).1 ⟨(m'.env.loadModule c file).2, m'.thread⟩)
    rw [← hmodule]
    exact .ok _ hloaded

theorem blind_runFile (hx : Blind executor) (bytes : List UInt8) (file : UInt32) :
    Blind (Load.runFile executor bytes file) := by
  refine (blind_readModule bytes file).bind fun module => ?_
  refine blind_get (fun earlier env t => ?_) fun m => ?_
  · simp
  · split
    · exact (blind_ofExec (blind_runValue hx _ [])).bind fun _ => blind_pure ()
    · exact blind_pure ()

theorem blind_modifyEnvironment {u : Environment → Environment}
    (hu : ∀ earlier env, u (env.stripped earlier) = (u env).stripped earlier)
    (hn : ∀ env, (u env).natives = env.natives) :
    Blind (modify fun m => { m with env := u m.env } : Load PUnit) := by
  refine blind_modify fun m m' hm => ?_
  have hstrips : Environment.Strips (fun env => ((), u env)) fun env => ((), u env) :=
    ⟨fun earlier env => congrArg (Prod.mk ()) (hu earlier env), hn⟩
  refine ⟨(hm.env.apply hstrips hstrips).2, hm.thread, hm.quiet, ?_⟩
  show ∀ name, ((u m.env).natives name).LineBlind
  rw [hn]
  exact hm.blind

theorem blind_mapLoader (f : Loader → Loader) : Blind (Load.mapLoader f) :=
  blind_modifyEnvironment (u := fun env => { env with loader := env.loader.map f }) (fun _ _ => rfl)
    fun _ => rfl

theorem blind_fetch (file : UInt32) : Blind (Load.fetch file) := by
  intro m m' hm
  have hloader : m'.env.loader = m.env.loader :=
    hm.env.reads (k := fun env => env.loader) fun _ _ => rfl
  unfold Load.fetch
  rw [hloader]
  cases m.env.loader with
  | none => exact .ok _ hm
  | some l =>
    -- what the loader answers is the same, and so is the loader after it
    have hasked : Machine.Twins { m with env := { m.env with loader := some (l.fetch file).2 } }
        { m' with env := { m'.env with loader := some (l.fetch file).2 } } := by
      refine ⟨⟨?_, hm.env.log⟩, hm.thread, hm.quiet, hm.blind⟩
      show { m.env.core with loader := some (l.fetch file).2 } =
        { m'.env.core with loader := some (l.fetch file).2 }
      rw [hm.env.core]
    cases hfound : (l.fetch file).1 with
    | ok found => simpa only [hfound] using .ok _ hasked
    | error e => simpa only [hfound] using .same_error _ hasked

theorem blind_loadScript (hx : Blind executor) (file : UInt32) :
    Blind (Load.loadScript executor file) := by
  refine (blind_fetch file).bind fun fetched => ?_
  cases fetched with
  | cached => exact blind_pure true
  | absent => exact (blind_loadReport _ _).bind fun _ => blind_pure false
  | fresh bytes => exact (blind_runFile hx bytes file).bind fun _ => blind_pure true

theorem blind_loadFiles (hx : Blind executor) (name : String) (count : Nat) (first : Bool)
    (files : List UInt32) : Blind (Load.loadFiles executor name count first files) := by
  induction files generalizing first with
  | nil => exact blind_pure true
  | cons file rest ih =>
    refine (blind_fetch file).bind fun fetched => ?_
    cases fetched with
    | cached => exact ih false
    | absent => exact (blind_loadReport _ _).bind fun _ => blind_pure false
    | fresh bytes =>
      have hrun : Blind
          (do Load.runFile executor bytes file; Load.loadFiles executor name count false rest) :=
        (blind_runFile hx bytes file).bind fun _ => ih false
      cases first with
      | true => exact (blind_loadReport _ _).bind fun _ => hrun
      | false => exact hrun

theorem blind_bindClass (name : String) (hash : UInt32) : Blind (Load.bindClass name hash) := by
  refine blind_get (fun earlier env t => ?_) fun m => ?_
  · simp
  · cases m.env.loader with
    | none => exact blind_pure false
    | some l =>
      dsimp only
      split
      · exact blind_pure true
      · split
        · exact (blind_loadReport _ _).bind fun _ => blind_pure false
        · rename_i c _
          refine (blind_mapLoader _).bind fun _ => ?_
          refine (blind_modifyEnvironment
            (u := fun env => { env with classes := env.classes.push c })
            (fun _ _ => rfl) fun _ => rfl).bind fun _ => ?_
          split
          · exact blind_pure true
          · split
            · refine (blind_loadReport _ _).bind fun _ => ?_
              refine (blind_modifyEnvironment (u := fun env => Load.bindMembers env _ c name)
                (fun earlier env => env.bindMembers_stripped earlier _ c name)
                fun env => env.natives_bindMembers _ c name).bind fun _ => blind_pure true
            · exact blind_pure true

theorem blind_loadClass (hx : Blind executor) (name : String) :
    Blind (Load.loadClass executor name) := by
  unfold Load.loadClass
  split
  · exact blind_pure false
  · refine blind_get (fun _ _ _ => rfl) fun m => ?_
    cases m.env.loader with
    | none => exact blind_pure false
    | some l =>
      dsimp only
      split
      · exact (blind_loadReport _ _).bind fun _ => blind_pure false
      · refine (blind_loadFiles hx name _ true _).bind fun loaded => ?_
        split
        · exact blind_bindClass name _
        · exact blind_pure false

end Exec
end ScriptVm
