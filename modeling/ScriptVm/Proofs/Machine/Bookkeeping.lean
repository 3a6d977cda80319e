import ScriptVm.Machine.Entity
import ScriptVm.Proofs.Machine.Tracing
import ScriptVm.Proofs.Machine.WholeRuns

/-!
# The books of a loader

What is loaded is on record: the files fetched, the classes bound, the list of classes, and the
calls of the host's binder. All that happens to these records while scripts run is in the events.

* `Environment.Records` is what events do to the records. A file is started, and a class is bound,
  only if it is not on record.
* `executeBreaking` is the traced executor, also for machines that a debugger looks at.
* `Traced.Recorded` says that an action does to the records what its events say.
* `recorded_executeBreaking` is the induction on the number of steps. Imports and what a debugger
  evaluates run scripts within scripts; the other instructions leave the records alone.
* `mem_fetched_of_loadScript` and `mem_of_loadClass` say what is on record after a success.
-/

namespace ScriptVm

/-- What is loaded is as it was. -/
def Machine.SameLoads (m m' : Machine) : Prop := m.env.SameLoads m'.env

instance : Machine.AdmitsMoves Machine.SameLoads where
  trans _ _ _ h h' := Environment.SameLoads.trans h h'
  refl m := .refl m.env
  stack m _ := .refl m.env
  register m _ := .refl m.env
  enter m _ := .refl m.env
  edit _ _ h := h.edit.sameLoads
  frames m _ := .refl m.env

instance : Machine.AdmitsWrites Machine.SameLoads where
  native _ _ _ := ⟨rfl, rfl⟩
  write _ _ h := h

namespace Environment

/-- The files on record. -/
def fetched (env : Environment) : List UInt32 := (env.loader.map (·.fetched)).getD []

/-- The hashes of the classes on record. -/
def boundClasses (env : Environment) : List UInt32 := (env.loader.map (·.boundClasses)).getD []

/-- The names of the classes that the binder was called for. -/
def binderCalls (env : Environment) : List String :=
  ((env.loader.bind (·.binder)).map (·.bound.toList)).getD []

/-- The class map that files are found by. -/
def classMap? (env : Environment) : Option ClassMap := env.loader.map (·.source.classMap)

/-- What events do to the records. -/
structure Records (env : Environment) (es : List Event) (env' : Environment) : Prop where
  classMap : env'.classMap? = env.classMap?
  fetched : env'.fetched = (es.filterMap Event.start?).reverse ++ env.fetched
  fetchedOnce : env.fetched.Nodup → env'.fetched.Nodup
  bound : env'.boundClasses = (es.filterMap Event.binding?).reverse ++ env.boundClasses
  boundOnce : env.boundClasses.Nodup → env'.boundClasses.Nodup
  classes : env'.classes.toList = env.classes.toList ++ es.filterMap Event.class?
  binder : ∃ names, env'.binderCalls = env.binderCalls ++ names ∧
    (names.map hashName).Sublist (es.filterMap Event.binding?)
  settled : Event.Settled es

/-- A file was just put on record. -/
structure Fetches (file : UInt32) (env env' : Environment) : Prop where
  new : file ∉ env.fetched
  classMap : env'.classMap? = env.classMap?
  fetched : env'.fetched = file :: env.fetched
  bound : env'.boundClasses = env.boundClasses
  classes : env'.classes = env.classes
  binder : env'.binderCalls = env.binderCalls

variable {env env' env'' : Environment} {es es' : List Event} {file : UInt32}

theorem fetched_of_loader {l : Loader} (hl : env.loader = some l) : env.fetched = l.fetched := by
  unfold fetched
  rw [hl]
  rfl

theorem boundClasses_of_loader {l : Loader} (hl : env.loader = some l) :
    env.boundClasses = l.boundClasses := by
  unfold boundClasses
  rw [hl]
  rfl

theorem classMap?_of_loader {l : Loader} (hl : env.loader = some l) :
    env.classMap? = some l.source.classMap := by
  unfold classMap?
  rw [hl]
  rfl

/-- Without events the records are as they were. -/
theorem records_of_eq (hmap : env'.classMap? = env.classMap?)
    (hfetched : env'.fetched = env.fetched) (hbound : env'.boundClasses = env.boundClasses)
    (hclasses : env'.classes = env.classes) (hcalls : env'.binderCalls = env.binderCalls) :
    env.Records [] env' where
  classMap := hmap
  fetched := hfetched
  fetchedOnce hn := hfetched ▸ hn
  bound := hbound
  boundOnce hn := hbound ▸ hn
  classes := by rw [hclasses, List.filterMap_nil, List.append_nil]
  binder := ⟨[], hcalls.trans (List.append_nil _).symm, .slnil⟩
  settled := Event.settled_nil

theorem SameLoads.records (h : env.SameLoads env') : env.Records [] env' := by
  refine records_of_eq ?_ ?_ ?_ h.classes ?_
  · rw [classMap?, classMap?, h.loader]
  · rw [Environment.fetched, Environment.fetched, h.loader]
  · rw [boundClasses, boundClasses, h.loader]
  · rw [binderCalls, binderCalls, h.loader]

/-- A question that gives no file leaves no record. -/
theorem records_asked {l : Loader} (hl : env.loader = some l) :
    env.Records [] { env with loader := some l.asked } := by
  refine records_of_eq ?_ ?_ ?_ rfl ?_
  all_goals
    simp only [classMap?, Environment.fetched, boundClasses, binderCalls, hl]
    rfl

theorem Records.trans (h : env.Records es env') (h' : env'.Records es' env'') :
    env.Records (es ++ es') env'' where
  classMap := h'.classMap.trans h.classMap
  fetched := by
    rw [h'.fetched, h.fetched, List.filterMap_append, List.reverse_append, List.append_assoc]
  fetchedOnce hn := h'.fetchedOnce (h.fetchedOnce hn)
  bound := by
    rw [h'.bound, h.bound, List.filterMap_append, List.reverse_append, List.append_assoc]
  boundOnce hn := h'.boundOnce (h.boundOnce hn)
  classes := by
    rw [h'.classes, h.classes, List.filterMap_append, List.append_assoc]
  binder := by
    obtain ⟨names, hnames, hsub⟩ := h.binder
    obtain ⟨names', hnames', hsub'⟩ := h'.binder
    refine ⟨names ++ names', ?_, ?_⟩
    · rw [hnames', hnames, List.append_assoc]
    · rw [List.map_append, List.filterMap_append]
      exact hsub.append hsub'
  settled := h.settled.append h'.settled

theorem Fetches.sameLoads (h : Fetches file env env') (h' : env'.SameLoads env'') :
    Fetches file env env'' := by
  obtain ⟨hnew, hmap, hfetched, hbound, hclasses, hbinder⟩ := h
  refine ⟨hnew, ?_, ?_, ?_, h'.classes.trans hclasses, ?_⟩
  · rw [classMap?, h'.loader]
    exact hmap
  · rw [Environment.fetched, h'.loader]
    exact hfetched
  · rw [boundClasses, h'.loader]
    exact hbound
  · rw [binderCalls, h'.loader]
    exact hbinder

/-- A file that was fetched is started, and it ends after all that happens while it runs. -/
theorem Fetches.records {last : Event} {bytes : List UInt8} (h : Fetches file env env')
    (hr : env'.Records es env'')
    (hlast : last = .completed file ∧ (∃ c, Container.decode bytes = .ok c) ∨ last = .failed file) :
    env.Records (.started file bytes :: es ++ [last]) env'' := by
  have hstarts : (.started file bytes :: es ++ [last]).filterMap Event.start? =
      file :: es.filterMap Event.start? :=
    Event.filterMap_enclose (by rcases hlast with ⟨rfl, -⟩ | rfl <;> rfl) es
  have hbindings : (.started file bytes :: es ++ [last]).filterMap Event.binding? =
      es.filterMap Event.binding? :=
    Event.filterMap_enclose (by rcases hlast with ⟨rfl, -⟩ | rfl <;> rfl) es
  have hclasses : (.started file bytes :: es ++ [last]).filterMap Event.class? =
      es.filterMap Event.class? :=
    Event.filterMap_enclose (by rcases hlast with ⟨rfl, -⟩ | rfl <;> rfl) es
  refine ⟨hr.classMap.trans h.classMap, ?_, fun hn => ?_, ?_, fun hn => ?_, ?_, ?_,
    hr.settled.enclose hlast⟩
  · rw [hr.fetched, h.fetched, hstarts, List.reverse_cons, List.append_assoc]
    rfl
  · refine hr.fetchedOnce ?_
    rw [h.fetched]
    exact List.nodup_cons.2 ⟨h.new, hn⟩
  · rw [hr.bound, h.bound, hbindings]
  · exact hr.boundOnce (h.bound ▸ hn)
  · rw [hr.classes, h.classes, hclasses]
  · rw [hbindings, ← h.binder]
    exact hr.binder

end Environment

namespace Traced

/-! ### Debuggers and entities -/

section Defined

variable (executor : Traced Fault Machine Unit)

/-- Calls a function in a run of its own and keeps a fault as its result. -/
def evaluate (target : Handle) : Traced Fault Machine (Except Fault View) :=
  ⟨Exec.evaluate executor.run target, (runValue executor (.object target) []).events⟩

/-- What the debugger sees. -/
def observe (command : BreakCommand) (function : Handle) (offset : Nat) :
    Traced Fault Machine BreakRecord where
  run := Exec.observe executor.run command function offset
  events m := (command.evaluate.map fun target => (evaluate executor target).events m).getD []

/-- Lets a debugger answer before the instruction at an offset of a function. -/
def breakAt (d : Debugger) (function : Handle) (offset : Nat) : Traced Fault Machine Unit := do
  lift (Exec.mapDebug fun s => { s with debugger := none, stepping := false })
  lift (modify (·.mapThread fun t => { t with state := .suspended }))
  let id := (← lift get).thread.id
  let name := (← lift Exec.environment).functionName function
  lift (Exec.report .debug fun _ => s!"Thread {id} suspended in {name} at offset {offset}")
  let command := d.command
  let record ← observe executor command function offset
  lift (Exec.mapDebug fun s => { s with debugger := some (d.advance record) })
  lift (modify (·.mapThread fun t => { t with state := .running }))
  match command.action with
  | .continue => pure ()
  | .step => lift (Exec.mapDebug fun s => { s with stepping := true })
  | .abort => lift (Exec.fault .aborted)

/-- Breaks before the next instruction if it has a breakpoint. -/
def checkBreakpoint : Traced Fault Machine Unit := do
  let t := (← lift get).thread
  match t.frames.back?, t.debug.debugger with
  | some f, some d =>
    if t.debug.shouldBreak f.function f.ip then breakAt executor d f.function f.ip
  | _, _ => pure ()

/-- Calls a value for a receiver. -/
def invokeForObject (callable receiver : Value) (args : List Value) : Traced Fault Machine Value :=
  runProtected do
    lift (Exec.push receiver)
    lift (Exec.pushAll args)
    lift (Exec.callForObject callable args.length)
    executor

/-- Calls the initializer of an instance's class. -/
def callInitializer (h : Handle) : Traced Fault Machine Unit := do
  let heap := (← lift Exec.environment).heap
  let i ← lift (Exec.ofOption .notAnInstance (heap.instance? h))
  match (heap.class? i.classHandle).bind (·.initializer) with
  | none => pure ()
  | some init =>
    match (init.object?.bind heap.function?).map (·.arity) with
    | some arity =>
      if arity = 0 then
        let _ ← invokeForObject executor init (.object h) []
      else lift (Exec.fault .initializerParameters)
    | none =>
      let _ ← invokeForObject executor init (.object h) []

/-- Makes an instance for a native object and initializes it. -/
def spawn (c : Handle) (e : EntityId) : Traced Fault Machine Handle := do
  if (← lift Exec.environment).heap.isClass c then
    let h ← lift (Exec.onEnvironment (·.newEntity c e))
    let name := (← lift Exec.environment).className c
    lift (Exec.report .debug fun _ => s!"Spawned entity of class {name}")
    callInitializer executor h
    return h
  else lift (Exec.fault .instantiateNonClass)

/-- Calls what an event of an instance calls. -/
def runEvent (h : Handle) (hash : UInt32) (args : List Value) : Traced Fault Machine Bool := do
  match ← lift (Exec.onEnvironment (·.callable h hash)) with
  | none => return false
  | some f =>
    let _ ← invokeForObject executor f (.object h) args
    return true

/-- Calls what an event of an instance calls, or runs a native in its place. -/
def invokeWithDefault (h : Handle) (hash : UInt32) (native : String) (args : List Value) :
    Traced Fault Machine Value := do
  let direct := lift (Exec.runNative native (.object h :: args).toArray)
  match ← lift (Exec.onEnvironment (·.callable h hash)) with
  | none => direct
  | some f =>
    let heap := (← lift Exec.environment).heap
    if f.object?.bind heap.native? = some native then direct
    else invokeForObject executor f (.object h) args

end Defined

/-- Executes the calls of the current run, with the events of what a debugger evaluates. -/
def executeBreaking : Nat → Traced Fault Machine Unit
  | 0 => lift (Exec.execute 0)
  | fuel + 1 => do
    if (← lift get).thread.isActive then
      checkBreakpoint (executeBreaking fuel)
      step (executeBreaking fuel)
      executeBreaking fuel

section Same

variable (executor : Traced Fault Machine Unit)

theorem run_checkBreakpoint :
    (checkBreakpoint executor).run = Exec.checkBreakpoint executor.run := by
  refine bind_congr fun m => ?_
  dsimp only
  cases m.thread.frames.back? with
  | none => rfl
  | some f =>
    cases m.thread.debug.debugger with
    | none => rfl
    | some d =>
      dsimp only
      split
      · refine bind_congr fun _ => bind_congr fun _ => bind_congr fun _ => bind_congr fun _ => ?_
        refine bind_congr fun _ => bind_congr fun _ => bind_congr fun _ => bind_congr fun _ => ?_
        cases d.command.action <;> rfl
      · rfl

theorem run_executeBreaking (fuel : Nat) : (executeBreaking fuel).run = Exec.execute fuel := by
  induction fuel with
  | zero => rfl
  | succ fuel ih =>
    have hround : (do
        checkBreakpoint (executeBreaking fuel)
        step (executeBreaking fuel)
        executeBreaking fuel).run = (do
        Exec.checkBreakpoint (Exec.execute fuel)
        Exec.step (Exec.execute fuel)
        Exec.execute fuel) := by
      show (checkBreakpoint (executeBreaking fuel)).run >>= (fun _ =>
        (step (executeBreaking fuel)).run >>= fun _ => (executeBreaking fuel).run) = _
      rw [run_checkBreakpoint, run_step, ih]
    rw [Exec.execute_succ]
    refine bind_congr fun m => ?_
    beta_reduce
    cases m.thread.isActive with
    | false => rfl
    | true => exact hround

theorem run_callInitializer (h : Handle) :
    (callInitializer executor h).run = Exec.callInitializer executor.run h := by
  refine bind_congr fun env => bind_congr fun i => ?_
  beta_reduce
  cases (env.heap.class? i.classHandle).bind (·.initializer) with
  | none => rfl
  | some init =>
    dsimp only
    cases (init.object?.bind env.heap.function?).map (·.arity) with
    | none => rfl
    | some arity =>
      dsimp only
      split <;> rfl

theorem run_spawn (c : Handle) (e : EntityId) :
    (spawn executor c e).run = Exec.spawn executor.run c e := by
  refine bind_congr fun env => ?_
  beta_reduce
  split
  · refine bind_congr fun h => bind_congr fun env => bind_congr fun _ => ?_
    show (callInitializer executor h).run >>= _ = _
    rw [run_callInitializer]
    rfl
  · rfl

theorem run_runEvent (h : Handle) (hash : UInt32) (args : List Value) :
    (runEvent executor h hash args).run = Exec.runEvent executor.run h hash args := by
  refine bind_congr fun found => ?_
  cases found <;> rfl

theorem run_invokeWithDefault (h : Handle) (hash : UInt32) (native : String) (args : List Value) :
    (invokeWithDefault executor h hash native args).run =
      Exec.invokeWithDefault executor.run h hash native args := by
  refine bind_congr fun found => ?_
  cases found with
  | none => rfl
  | some f =>
    refine bind_congr fun env => ?_
    dsimp only
    split <;> rfl

end Same

/-! ### Rules -/

section Rules

variable {ε α β : Type} {P : Environment → Machine → Prop} {x : Traced ε Machine α}
  {g : α → Traced ε Machine β} {file : UInt32}

/-- An action does to the records of an environment what its events say, where the machine is the
one that the environment has become. -/
def Recorded (P : Environment → Machine → Prop) (x : Traced ε Machine α) : Prop :=
  ∀ env m, P env m → env.Records (x.events m) (Exec.after x.run m).env

/-- The machine has this environment. -/
def At (env : Environment) (m : Machine) : Prop := m.env = env

/-- The machine has just fetched a file. -/
def Opened (file : UInt32) (env : Environment) (m : Machine) : Prop := env.Fetches file m.env

theorem Recorded.records (hx : x.Recorded At) (m : Machine) :
    m.env.Records (x.events m) (Exec.after x.run m).env :=
  hx m.env m rfl

theorem recorded_lift {y : EStateM (Halt ε) Machine α} (hy : Exec.Keeps Machine.SameLoads y) :
    (lift y).Recorded At := by
  rintro env m rfl
  exact (hy m).records

theorem recorded_pure (a : α) : (pure a : Traced ε Machine α).Recorded At :=
  recorded_lift (Exec.keeps_pure a)

/-- Two actions one after the other. -/
theorem Recorded.bind (hx : x.Recorded P) (hg : ∀ a, (g a).Recorded At) : (x >>= g).Recorded P := by
  intro env m hm
  have hfirst := hx env m hm
  cases hrun : x.run m with
  | error e m₁ =>
    rw [Exec.after_of_error hrun] at hfirst
    have hstop : (x >>= g).run m = .error e m₁ := Exec.bind_of_error hrun
    rw [Exec.after_of_error hstop, events_bind_of_error hrun]
    exact hfirst
  | ok a m₁ =>
    rw [Exec.after_of_ok hrun] at hfirst
    have hgoes : Exec.after (x >>= g).run m = Exec.after (g a).run m₁ := Exec.after_bind_of_ok hrun
    rw [hgoes, events_bind_of_ok hrun]
    exact hfirst.trans ((hg a).records m₁)

/-- A report before an action is nothing to the records. -/
theorem Recorded.reported {y : Traced RegistryError Machine α} (hy : y.Recorded (Opened file))
    (level : Level) (text : Unit → String) :
    (lift (Load.report level text) >>= fun _ => y).Recorded (Opened file) := by
  intro env m hm
  exact hy env _ (hm.sameLoads (Exec.keeps_loadReport (R := Machine.SameLoads) level text m))

/-- Changing the error changes nothing on record. -/
theorem recorded_adaptExcept {δ : Type} (hx : x.Recorded At) (f : ε → δ) :
    (⟨EStateM.adaptExcept (Halt.map f) x.run, x.events⟩ : Traced δ Machine α).Recorded At := by
  rintro env m rfl
  show m.env.Records (x.events m) (Exec.after (EStateM.adaptExcept (Halt.map f) x.run) m).env
  rw [Exec.after_adaptExcept]
  exact hx.records m

theorem recorded_ofExec {y : Traced Fault Machine α} (hy : y.Recorded At) :
    (ofExec y).Recorded At :=
  recorded_adaptExcept hy RegistryError.vm

end Rules

/-! ### Loading -/

section Loading

variable {α : Type} {executor body : Traced Fault Machine Unit}

theorem recorded_runProtected (hb : body.Recorded At) : (runProtected body).Recorded At := by
  rintro env m rfl
  have hruns := (hb.bind (g := fun _ => lift Exec.pop) fun _ =>
    recorded_lift Exec.keeps_pop).records m.beginRun
  rw [events_bind_lift] at hruns
  obtain ⟨env, outcome, hedits, hafter⟩ := Exec.after_runProtected body.run m
  have hall := hruns.trans hedits.sameLoads.records
  rw [List.append_nil] at hall
  show m.env.Records (body.events m.beginRun) (Exec.after (Exec.runProtected body.run) m).env
  rw [hafter]
  exact hall

theorem recorded_runValue (he : executor.Recorded At) (callee : Value) (args : List Value) :
    (runValue executor callee args).Recorded At := by
  refine recorded_runProtected ?_
  refine (recorded_lift (Exec.keeps_push callee)).bind fun _ => ?_
  refine (recorded_lift (Exec.keeps_pushAll args)).bind fun _ => ?_
  exact (recorded_lift (Exec.keeps_callValue args.length)).bind fun _ => he

theorem recorded_runEntry (he : executor.Recorded At) (bytes : List UInt8) (file : UInt32) :
    (runEntry executor bytes file).Recorded At := by
  refine (recorded_lift (Exec.keeps_readModule bytes file)).bind fun module => ?_
  refine (recorded_lift Exec.keeps_get).bind fun m => ?_
  split
  · exact (recorded_ofExec (recorded_runValue he _ [])).bind fun _ => recorded_pure ()
  · exact recorded_pure ()

/-- A file whose run succeeds could be read. -/
theorem decode_of_runEntry {bytes : List UInt8} {file : UInt32} {m m' : Machine}
    (hrun : (runEntry executor bytes file).run m = .ok () m') :
    ∃ c, Container.decode bytes = .ok c := by
  obtain ⟨module, m₁, hread, -⟩ := Exec.bind_eq_ok.1 hrun
  change Load.readModule bytes file m = _ at hread
  unfold Load.readModule Environment.readModule at hread
  cases hdecode : Container.decode bytes with
  | ok c => exact ⟨c, rfl⟩
  | error e =>
    rw [hdecode] at hread
    cases hread

/-- The run of a file that was just fetched accounts for the file too. -/
theorem recorded_runFile (he : executor.Recorded At) (bytes : List UInt8) (file : UInt32) :
    (runFile executor bytes file).Recorded (Opened file) := by
  intro env m hm
  refine Environment.Fetches.records hm ((recorded_runEntry he bytes file).records m) ?_
  cases hrun : (runEntry executor bytes file).run m with
  | ok _ _ => exact .inl ⟨rfl, decode_of_runEntry hrun⟩
  | error _ _ => exact .inr rfl

/-- Fetching a file and what is done with it. -/
theorem recorded_fetch {g : Fetched → Traced RegistryError Machine α} (file : UInt32)
    (hcached : (g .cached).Recorded At) (habsent : (g .absent).Recorded At)
    (hfresh : ∀ bytes, (g (.fresh bytes)).Recorded (Opened file)) :
    (lift (Load.fetch file) >>= g).Recorded At := by
  rintro env m rfl
  have hgoes : ∀ {found m₁}, Load.fetch file m = .ok found m₁ →
      m.env.Records ((g found).events m₁) (Exec.after (g found).run m₁).env →
        m.env.Records ((lift (Load.fetch file) >>= g).events m)
          (Exec.after (lift (Load.fetch file) >>= g).run m).env := by
    intro found m₁ hrun hrecords
    have hafter : Exec.after (lift (Load.fetch file) >>= g).run m = Exec.after (g found).run m₁ :=
      Exec.after_bind_of_ok hrun
    have hevents : (lift (Load.fetch file) >>= g).events m = (g found).events m₁ :=
      events_bind_of_ok hrun
    rwa [hafter, hevents]
  cases hl : m.env.loader with
  | none =>
    have hrun : Load.fetch file m = .ok .absent m := by
      unfold Load.fetch
      rw [hl]
    exact hgoes hrun (habsent.records m)
  | some l =>
    rcases Load.fetch_cases hl file with ⟨-, hrun⟩ | ⟨-, hrun⟩ | ⟨e, -, -, hrun⟩ |
      ⟨bytes, hnew, -, hrun⟩
    · exact hgoes hrun (hcached.records m)
    · exact hgoes hrun ((Environment.records_asked hl).trans
        (habsent.records { m with env := { m.env with loader := some l.asked } }))
    · have hafter : Exec.after (lift (Load.fetch file) >>= g).run m =
          { m with env := { m.env with loader := some l.asked } } :=
        Exec.after_of_error (Exec.bind_of_error hrun)
      have hevents : (lift (Load.fetch file) >>= g).events m = [] := events_bind_of_error hrun
      rw [hafter, hevents]
      exact Environment.records_asked hl
    · refine hgoes hrun (hfresh bytes m.env _ ⟨?_, ?_, ?_, ?_, rfl, ?_⟩)
      all_goals
        simp only [Environment.classMap?, Environment.fetched, Environment.boundClasses,
          Environment.binderCalls, hl, Option.map_some, Option.getD_some]
      exacts [hnew, rfl, rfl, rfl]

theorem recorded_loadScript (he : executor.Recorded At) (file : UInt32) :
    (loadScript executor file).Recorded At := by
  refine recorded_fetch file (recorded_pure true) ?_ fun bytes => ?_
  · exact (recorded_lift (Exec.keeps_loadReport _ _)).bind fun _ => recorded_pure false
  · exact (recorded_runFile he bytes file).bind fun _ => recorded_pure true

theorem recorded_loadFiles (he : executor.Recorded At) (name : String) (count : Nat) (first : Bool)
    (files : List UInt32) : (loadFiles executor name count first files).Recorded At := by
  induction files generalizing first with
  | nil => exact recorded_pure true
  | cons file rest ih =>
    refine recorded_fetch file (ih false) ?_ fun bytes => ?_
    · exact (recorded_lift (Exec.keeps_loadReport _ _)).bind fun _ => recorded_pure false
    · have hrest : (do
          runFile executor bytes file
          loadFiles executor name count false rest).Recorded (Opened file) :=
        (recorded_runFile he bytes file).bind fun _ => ih false
      cases first with
      | false => exact hrest
      | true => exact hrest.reported _ _

/-- A class is bound, put on the list and handed to the binder together or not at all. -/
theorem recorded_bindClass (name : String) : (bindClass name (hashName name)).Recorded At := by
  rintro env m rfl
  have hafter : ∀ {b m₁}, Load.bindClass name (hashName name) m = .ok b m₁ →
      Exec.after (bindClass name (hashName name)).run m = m₁ := fun hrun => Exec.after_of_ok hrun
  cases hl : m.env.loader with
  | none =>
    have hrun : Load.bindClass name (hashName name) m = .ok false m := by
      refine (Exec.bind_of_ok rfl).trans ?_
      rw [hl]
      rfl
    have hevents : (bindClass name (hashName name)).events m = [] := by
      unfold bindClass
      dsimp only
      rw [hl]
    rw [hafter hrun, hevents]
    exact (Environment.SameLoads.refl m.env).records
  | some l =>
    rw [events_bindClass hl]
    rcases Load.bindClass_cases hl name (hashName name) with ⟨hbound, hrun⟩ |
      ⟨hnew, hnone, env, hrun, hsame⟩ | ⟨c, env, binder, hnew, hsome, hrun, hloader,
        hclasses, hasks⟩
    · rw [if_pos hbound, hafter hrun]
      exact (Environment.SameLoads.refl m.env).records
    · rw [if_neg hnew, hnone, hafter hrun]
      exact hsame.records
    · rw [if_neg hnew, hsome, hafter hrun]
      refine ⟨?_, ?_, fun hn => ?_, ?_, fun hn => ?_, ?_, ?_, Event.settled_bound _ c⟩
      · simp [Environment.classMap?, hl, hloader]
      · simp [Environment.fetched, hl, hloader, Event.start?]
      · simpa [Environment.fetched, hl, hloader] using hn
      · simp [Environment.boundClasses, hl, hloader, Event.binding?]
      · simpa [Environment.boundClasses, hl, hloader, hnew] using hn
      · simp [hclasses, Event.class?]
      · generalize hbinder : l.binder = old at hasks
        cases hasks with
        | no =>
          refine ⟨[], ?_, List.nil_sublist _⟩
          simp [Environment.binderCalls, hl, hloader, hbinder]
        | yes b =>
          refine ⟨[name], ?_, .refl _⟩
          simp [Environment.binderCalls, hl, hloader, hbinder]

theorem recorded_loadClass (he : executor.Recorded At) (name : String) :
    (loadClass executor name).Recorded At := by
  unfold loadClass
  split
  · exact recorded_pure false
  · refine (recorded_lift Exec.keeps_get).bind fun m => ?_
    split
    · split
      · exact (recorded_lift (Exec.keeps_loadReport _ _)).bind fun _ => recorded_pure false
      · refine (recorded_loadFiles he name _ true _).bind fun loaded => ?_
        split
        · exact recorded_bindClass name
        · exact recorded_pure false
    · exact recorded_pure false

/-! ### Execution -/

theorem recorded_importClass (he : executor.Recorded At) (index : Nat) :
    (importClass executor index).Recorded At := by
  refine (recorded_lift (Exec.keeps_constantAt index)).bind fun v => ?_
  refine (recorded_lift Exec.keeps_memory).bind fun mem => ?_
  split
  · exact recorded_lift (Exec.keeps_fault _)
  · refine (recorded_adaptExcept (recorded_loadClass he _) _).bind fun loaded => ?_
    split
    · exact recorded_pure ()
    · exact recorded_lift (Exec.keeps_fault _)

theorem recorded_step (he : executor.Recorded At) : (step executor).Recorded At := by
  refine (recorded_lift Exec.keeps_advance).bind fun i => ?_
  unfold perform
  split
  · exact recorded_importClass he _
  · rename_i hi
    exact recorded_lift ((Exec.still_perform hi executor.run).mono fun _ _ h => h.loads)

theorem recorded_evaluate (he : executor.Recorded At) (target : Handle) :
    (evaluate executor target).Recorded At := by
  rintro env m rfl
  show m.env.Records _ (Exec.after (Exec.evaluate executor.run target) m).env
  rw [Exec.after_evaluate]
  exact (recorded_runValue he (.object target) []).records m

theorem recorded_observe (he : executor.Recorded At) (command : BreakCommand) (function : Handle)
    (offset : Nat) : (observe executor command function offset).Recorded At := by
  rintro env m rfl
  cases hcommand : command.evaluate with
  | none =>
    have hsame : Exec.after (observe executor command function offset).run m = m := by
      show Exec.after (Exec.observe executor.run command function offset) m = m
      unfold Exec.observe
      rw [hcommand]
      rfl
    have hevents : (observe executor command function offset).events m = [] := by
      unfold observe
      rw [hcommand]
      rfl
    rw [hsame, hevents]
    exact (Environment.SameLoads.refl m.env).records
  | some target =>
    have hsame : Exec.after (observe executor command function offset).run m =
        Exec.after (evaluate executor target).run m := by
      show Exec.after (Exec.observe executor.run command function offset) m =
        Exec.after (Exec.evaluate executor.run target) m
      unfold Exec.observe
      rw [hcommand, Exec.after_bind_of_ok (show (get : Exec Machine) m = .ok m m from rfl)]
      dsimp only
      rw [map_eq_pure_bind, bind_assoc]
      cases hrun : Exec.evaluate executor.run target m with
      | ok a m₁ =>
        rw [Exec.after_bind_of_ok hrun, Exec.after_of_ok hrun]
        rfl
      | error e m₁ => rw [Exec.after_of_error (Exec.bind_of_error hrun), Exec.after_of_error hrun]
    have hevents : (observe executor command function offset).events m =
        (evaluate executor target).events m := by
      unfold observe
      rw [hcommand]
      rfl
    rw [hsame, hevents]
    exact (recorded_evaluate he target).records m

/-- A change of the thread is nothing to the records. -/
theorem recorded_mapThread (f : Thread → Thread) :
    (lift (modify (·.mapThread f)) : Traced Fault Machine PUnit).Recorded At :=
  recorded_lift fun m => .refl m.env

theorem recorded_checkBreakpoint (he : executor.Recorded At) :
    (checkBreakpoint executor).Recorded At := by
  refine (recorded_lift Exec.keeps_get).bind fun m => ?_
  dsimp only
  split
  · split
    · refine (recorded_mapThread _).bind fun _ => (recorded_mapThread _).bind fun _ => ?_
      refine (recorded_lift Exec.keeps_get).bind fun _ => ?_
      refine (recorded_lift Exec.keeps_environment).bind fun _ => ?_
      refine (recorded_lift (Exec.keeps_report _ _)).bind fun _ => ?_
      refine (recorded_observe he _ _ _).bind fun record => ?_
      refine (recorded_mapThread _).bind fun _ => (recorded_mapThread _).bind fun _ => ?_
      split
      · exact recorded_pure ()
      · exact recorded_mapThread _
      · exact recorded_lift (Exec.keeps_fault _)
    · exact recorded_pure ()
  · exact recorded_pure ()

theorem recorded_executeBreaking (fuel : Nat) : (executeBreaking fuel).Recorded At := by
  induction fuel with
  | zero =>
    refine recorded_lift fun m => ?_
    rw [Exec.after_execute_zero]
    exact .refl m.env
  | succ fuel ih =>
    refine (recorded_lift Exec.keeps_get).bind fun m => ?_
    split
    · exact (recorded_checkBreakpoint ih).bind fun _ => (recorded_step ih).bind fun _ => ih
    · exact recorded_pure ()

/-! ### Success -/

section Success

variable {m m' : Machine} {l : Loader} {file : UInt32} {name : String}

/-- A file on record stays there. -/
theorem Recorded.mem_fetched {ε : Type} {x : Traced ε Machine α} {a : α} (hx : x.Recorded At)
    (hrun : x.run m = .ok a m') (hfile : file ∈ m.env.fetched) : file ∈ m'.env.fetched := by
  have hrecords := hx.records m
  rw [Exec.after_of_ok hrun] at hrecords
  rw [hrecords.fetched]
  exact List.mem_append_right _ hfile

/-- A file that is there is on record once it was fetched. -/
theorem mem_fetched_of_fetch {found : Fetched} (hrun : Load.fetch file m = .ok found m')
    (hfound : found ≠ .absent) : file ∈ m'.env.fetched := by
  cases hl : m.env.loader with
  | none =>
    unfold Load.fetch at hrun
    rw [hl] at hrun
    cases hrun
    exact absurd rfl hfound
  | some l =>
    rcases Load.fetch_cases hl file with ⟨hmem, hcase⟩ | ⟨-, hcase⟩ | ⟨e, -, -, hcase⟩ |
      ⟨bytes, -, -, hcase⟩
    all_goals
      cases hrun.symm.trans hcase
    · rw [Environment.fetched_of_loader hl]
      exact hmem
    · exact absurd rfl hfound
    · exact List.mem_cons_self

/-- A class that is registered is on record. -/
theorem mem_boundClasses_of_bindClass {hash : UInt32}
    (hrun : Load.bindClass name hash m = .ok true m') : hash ∈ m'.env.boundClasses := by
  cases hl : m.env.loader with
  | none =>
    have hfalse : Load.bindClass name hash m = .ok false m := by
      refine (Exec.bind_of_ok rfl).trans ?_
      rw [hl]
      rfl
    cases hrun.symm.trans hfalse
  | some l =>
    rcases Load.bindClass_cases hl name hash with ⟨hbound, hcase⟩ | ⟨-, -, env, hcase, -⟩ |
      ⟨c, env, binder, -, -, hcase, hloader, -⟩
    all_goals
      cases hrun.symm.trans hcase
    · rw [Environment.boundClasses_of_loader hl]
      exact hbound
    · rw [Environment.boundClasses_of_loader hloader]
      exact List.mem_cons_self

variable (he : executor.Recorded At)
include he

/-- The run of a file keeps the files on record. -/
theorem mem_fetched_of_runFile {f : UInt32} {bytes : List UInt8}
    (hrun : (runFile executor bytes f).run m = .ok () m') (hfile : file ∈ m.env.fetched) :
    file ∈ m'.env.fetched :=
  (recorded_runEntry he bytes f).mem_fetched hrun hfile

theorem mem_fetched_of_loadScript (hrun : (loadScript executor file).run m = .ok true m') :
    file ∈ m'.env.fetched := by
  obtain ⟨found, m₁, hfetch, hrest⟩ := Exec.bind_eq_ok.1 hrun
  cases found with
  | cached =>
    cases hrest
    exact mem_fetched_of_fetch hfetch nofun
  | absent =>
    obtain ⟨_, m₂, -, hend⟩ := Exec.bind_eq_ok.1 hrest
    cases hend
  | fresh bytes =>
    obtain ⟨_, m₂, hfile, hend⟩ := Exec.bind_eq_ok.1 hrest
    cases hend
    exact mem_fetched_of_runFile he hfile (mem_fetched_of_fetch hfetch nofun)

theorem mem_fetched_of_loadFiles {count : Nat} {first : Bool} {files : List UInt32}
    (hrun : (loadFiles executor name count first files).run m = .ok true m') :
    ∀ f ∈ files, f ∈ m'.env.fetched := by
  induction files generalizing first m with
  | nil => exact nofun
  | cons file rest ih =>
    -- once the file is on record, the rest keeps it there
    have hrest {m₁ : Machine} (hfile : file ∈ m₁.env.fetched)
        (hrun₁ : (loadFiles executor name count false rest).run m₁ = .ok true m') :
        ∀ f ∈ file :: rest, f ∈ m'.env.fetched :=
      List.forall_mem_cons.2
        ⟨(recorded_loadFiles he name count false rest).mem_fetched hrun₁ hfile, ih hrun₁⟩
    obtain ⟨found, m₁, hfetch, hrun₁⟩ := Exec.bind_eq_ok.1 hrun
    cases found with
    | cached => exact hrest (mem_fetched_of_fetch hfetch nofun) hrun₁
    | absent =>
      obtain ⟨_, m₂, -, hend⟩ := Exec.bind_eq_ok.1 hrun₁
      cases hend
    | fresh bytes =>
      have hfile {m₂ : Machine} (hmem : file ∈ m₂.env.fetched)
          (hrun₂ : (do
            runFile executor bytes file
            loadFiles executor name count false rest).run m₂ = .ok true m') :
          ∀ f ∈ file :: rest, f ∈ m'.env.fetched := by
        obtain ⟨_, m₃, hran, hrun₃⟩ := Exec.bind_eq_ok.1 hrun₂
        exact hrest (mem_fetched_of_runFile he hran hmem) hrun₃
      have hmem : file ∈ m₁.env.fetched := mem_fetched_of_fetch hfetch nofun
      cases first with
      | false => exact hfile hmem hrun₁
      | true =>
        obtain ⟨_, m₂, hreport, hrun₂⟩ := Exec.bind_eq_ok.1 hrun₁
        cases hreport
        refine hfile ?_ hrun₂
        exact hmem

/-- A class that is loaded has files, all of them are on record, and so is the class. -/
theorem mem_of_loadClass (hl : m.env.loader = some l)
    (hrun : (loadClass executor name).run m = .ok true m') :
    ∃ files, l.source.classMap.files? (hashName name) = some files ∧
      (∀ f ∈ files, f ∈ m'.env.fetched) ∧ hashName name ∈ m'.env.boundClasses := by
  unfold loadClass at hrun
  split at hrun
  · cases hrun
  · obtain ⟨_, m₁, hget, hrun₁⟩ := Exec.bind_eq_ok.1 hrun
    cases hget
    beta_reduce at hrun₁
    rw [hl] at hrun₁
    dsimp only at hrun₁
    cases hfiles : l.source.classMap.files? (hashName name) with
    | none =>
      rw [hfiles] at hrun₁
      obtain ⟨_, m₂, -, hend⟩ := Exec.bind_eq_ok.1 hrun₁
      cases hend
    | some files =>
      rw [hfiles] at hrun₁
      obtain ⟨loaded, m₂, hload, hbind⟩ := Exec.bind_eq_ok.1 hrun₁
      cases loaded with
      | false => cases hbind
      | true =>
        have hfetched := mem_fetched_of_loadFiles he hload
        exact ⟨files, rfl, fun f hf => (recorded_bindClass name).mem_fetched hbind (hfetched f hf),
          mem_boundClasses_of_bindClass hbind⟩

end Success

/-! ### Entities -/

theorem recorded_invokeForObject (he : executor.Recorded At) (callable receiver : Value)
    (args : List Value) : (invokeForObject executor callable receiver args).Recorded At := by
  refine recorded_runProtected ?_
  refine (recorded_lift (Exec.keeps_push receiver)).bind fun _ => ?_
  refine (recorded_lift (Exec.keeps_pushAll args)).bind fun _ => ?_
  exact (recorded_lift (Exec.keeps_callForObject callable args.length)).bind fun _ => he

theorem recorded_callInitializer (he : executor.Recorded At) (h : Handle) :
    (callInitializer executor h).Recorded At := by
  refine (recorded_lift Exec.keeps_environment).bind fun env => ?_
  refine (recorded_lift (Exec.keeps_ofOption _ _)).bind fun i => ?_
  split
  · exact recorded_pure ()
  · split
    · split
      · exact (recorded_invokeForObject he _ _ []).bind fun _ => recorded_pure ()
      · exact recorded_lift (Exec.keeps_fault _)
    · exact (recorded_invokeForObject he _ _ []).bind fun _ => recorded_pure ()

/-- Linking the cells of a native object loads nothing. -/
theorem sameLoads_newEntity (env : Environment) (c : Handle) (e : EntityId) :
    env.SameLoads (env.newEntity c e).2 := by
  have hlink : ∀ (h : Handle) (fields : List (String × Link)) (env : Environment),
      env.SameLoads (Environment.linkFields h fields env) := by
    intro h fields
    induction fields with
    | nil => exact fun env => .refl env
    | cons f rest ih => exact fun env => ⟨(ih _).loader, (ih _).classes⟩
  exact ⟨(hlink _ _ _).loader, (hlink _ _ _).classes⟩

theorem keeps_newEntity (c : Handle) (e : EntityId) :
    Exec.Keeps Machine.SameLoads (Exec.onEnvironment (·.newEntity c e)) :=
  fun m => sameLoads_newEntity m.env c e

theorem recorded_spawn (he : executor.Recorded At) (c : Handle) (e : EntityId) :
    (spawn executor c e).Recorded At := by
  refine (recorded_lift Exec.keeps_environment).bind fun env => ?_
  dsimp only
  split
  · refine (recorded_lift (keeps_newEntity c e)).bind fun h => ?_
    refine (recorded_lift Exec.keeps_environment).bind fun _ => ?_
    refine (recorded_lift (Exec.keeps_report _ _)).bind fun _ => ?_
    exact (recorded_callInitializer he h).bind fun _ => recorded_pure h
  · exact recorded_lift (Exec.keeps_fault _)

theorem keeps_callable (h : Handle) (hash : UInt32) :
    Exec.Keeps Machine.SameLoads (Exec.onEnvironment (·.callable h hash)) := by
  refine Exec.keeps_onEnvironment fun env => ?_
  unfold Environment.callable
  split
  · exact .refl
  · split
    · exact .refl
    · exact env.edits_findMember _ hash

theorem keeps_runNative (name : String) (args : Array Value) :
    Exec.Keeps Machine.SameLoads (Exec.runNative name args) := by
  refine Exec.keeps_environment.bind fun env => ?_
  refine Exec.Keeps.bind (fun m => ⟨rfl, rfl⟩) fun result => ?_
  exact Exec.keeps_ofExcept result

theorem recorded_runEvent (he : executor.Recorded At) (h : Handle) (hash : UInt32)
    (args : List Value) : (runEvent executor h hash args).Recorded At := by
  refine (recorded_lift (keeps_callable h hash)).bind fun found => ?_
  cases found with
  | none => exact recorded_pure false
  | some f => exact (recorded_invokeForObject he f _ args).bind fun _ => recorded_pure true

theorem recorded_invokeWithDefault (he : executor.Recorded At) (h : Handle) (hash : UInt32)
    (native : String) (args : List Value) :
    (invokeWithDefault executor h hash native args).Recorded At := by
  refine (recorded_lift (keeps_callable h hash)).bind fun found => ?_
  cases found with
  | none => exact recorded_lift (keeps_runNative native _)
  | some f =>
    refine (recorded_lift Exec.keeps_environment).bind fun env => ?_
    dsimp only
    split
    · exact recorded_lift (keeps_runNative native _)
    · exact recorded_invokeForObject he f _ args

end Loading
end Traced

namespace Load

variable {m m' : Machine} {l : Loader} {fuel : Nat}

/-- A class that is loaded has files, all of them are on record, and so is the class. -/
theorem mem_of_loadClass {name : String} (hl : m.env.loader = some l)
    (hrun : loadClass (Exec.execute fuel) name m = .ok true m') :
    ∃ files, l.source.classMap.files? (hashName name) = some files ∧
      (∀ f ∈ files, f ∈ m'.env.fetched) ∧ hashName name ∈ m'.env.boundClasses := by
  rw [← Traced.run_executeBreaking, ← Traced.run_loadClass] at hrun
  exact Traced.mem_of_loadClass (Traced.recorded_executeBreaking fuel) hl hrun

end Load
end ScriptVm
