import ScriptVm.Proofs.Machine.Bookkeeping
import ScriptVm.Proofs.Registry.NoDangling

/-!
# Histories of a registry

What requests load, told as events from one disposal to the next.

* `Request.traced` is a request with its events; `run_traced` says that it does what the
  request does.
* `Booked` says that an operation does to the records what its events say, and `booked_traced` that
  all requests but disposals do.
* `History` are the registries that requests lead to, each with the events since the last disposal.
  `History.onRecord` says that these events and the records tell the same.
-/

namespace ScriptVm

/-- The machine of the first thread. -/
def Registry.main (r : Registry) : Machine := ⟨r.vm.env, r.vm.threads[0]?.getD (.new 0)⟩

/-- The registry after a run of the first thread. -/
def Registry.ran (r : Registry) (m : Machine) : Registry :=
  ⟨⟨m.env, r.vm.threads.setIfInBounds 0 m.thread⟩, r.config⟩

/-! ### Traced operations -/

namespace Traced

section Operations

variable {α : Type}

/-- Runs an action on the first thread. -/
def onMain (x : Traced RegistryError Machine α) : Traced RegistryError Registry α :=
  ⟨Registry.onMain x.run, fun r => x.events r.main⟩

/-- Keeps an error as the result. -/
def attempt (x : Traced RegistryError Registry α) :
    Traced RegistryError Registry (Except RegistryError α) :=
  ⟨Registry.attempt x.run, x.events⟩

/-- Runs a load; a failure counts as not loaded. -/
def loading (what : String) (x : Traced RegistryError Machine Bool) :
    Traced RegistryError Registry Bool := do
  match ← attempt (onMain x) with
  | .ok loaded => return loaded
  | .error e =>
    lift (Registry.report .error fun _ => s!"Failed to load {what}: {e.message}")
    return false

/-- Runs a load and then perhaps collects. -/
def reporting (what : String) (x : Traced RegistryError Machine Bool) :
    Traced RegistryError Registry Bool := do
  let loaded ← loading what x
  lift Registry.safePoint
  return loaded

theorem run_loading (what : String) (x : Traced RegistryError Machine Bool) :
    (loading what x).run = Registry.loading what x.run := by
  refine bind_congr fun result => ?_
  cases result <;> rfl

end Operations

variable (executor : Traced Fault Machine Unit)

/-- Loads files in order and counts those that are there and ran. -/
def inOrder : List UInt32 → Nat → Traced RegistryError Registry Nat
  | [], count => return count
  | file :: rest, count => do
    match ← attempt (onMain (loadScript executor file)) with
    | .ok true => inOrder rest (count + 1)
    | .ok false =>
      lift (Registry.report .warn fun _ => "Class " ++ Text.hexWord file ++ " does not exist!")
      inOrder rest count
    | .error e =>
      lift (Registry.report .error fun _ =>
        "Failed to load " ++ Text.hexWord file ++ ": " ++ e.message)
      inOrder rest count

/-- Loads every file that a class is made of. -/
def everyFile : Traced RegistryError Registry Nat := do
  let files := match (← lift Registry.environment).loader with
    | some l => l.source.classMap.allFiles
    | none => []
  let count ← inOrder executor files 0
  let _ ← lift Registry.forceCollection
  return count

/-- Runs the bytes of a file, which is then not one that is loaded. -/
def bytecode (bytes : List UInt8) (file : UInt32) : Traced RegistryError Registry Unit := do
  let result ← attempt (onMain (runEntry executor bytes file))
  lift Registry.safePoint
  lift (Registry.release result)

/-- Calls the function that is the global of a name. -/
def function (name : String) : Traced RegistryError Registry Bool := do
  let env ← lift Registry.environment
  match env.global? name with
  | none => return false
  | some callee =>
    if Registry.isCallable env.heap callee then
      let result ← attempt (onMain (ofExec (runValue executor callee [])))
      lift Registry.safePoint
      return result.isOk
    else return false

/-- Makes an entity of the class that is the global of a name. -/
def entity (className : String) (e : EntityId) : Traced RegistryError Registry Handle := do
  match (← lift Registry.environment).classByName? className with
  | none => lift (throw (.error (.unknownClass className)))
  | some c =>
    let h ← onMain (ofExec (spawn executor c e))
    lift (Registry.mapEnvironment (·.addRoot (.object h)))
    return h

/-- Makes an entity with the plain fields of another. -/
def entityCopy (source : Handle) (e : EntityId) : Traced RegistryError Registry Handle := do
  let h ← onMain (lift (Load.ofExec (Exec.cloneEntity source e)))
  lift (Registry.mapEnvironment (·.addRoot (.object h)))
  return h

/-- Runs an event of an entity. -/
def event (h : Handle) (name : String) (args : List Value) :
    Traced RegistryError Registry Bool := do
  let result ← attempt (onMain (ofExec (runEvent executor h (hashName name) args)))
  lift Registry.safePoint
  lift (Registry.shielded false result)

/-- Runs an event of an entity, or a native in its place. -/
def eventOrNative (h : Handle) (name native : String) (args : List Value) :
    Traced RegistryError Registry Value := do
  let result ← attempt
    (onMain (ofExec (invokeWithDefault executor h (hashName name) native args)))
  lift Registry.safePoint
  lift (Registry.shielded .null result)

theorem run_inOrder (files : List UInt32) (count : Nat) (fuel : Nat) :
    (inOrder (executeBreaking fuel) files count).run = Registry.loadAll fuel files count := by
  induction files generalizing count with
  | nil => rfl
  | cons file rest ih =>
    unfold Registry.loadAll
    rw [← run_executeBreaking, ← run_loadScript]
    refine bind_congr fun result => ?_
    cases result with
    | error e => exact bind_congr fun _ => ih count
    | ok loaded =>
      cases loaded with
      | true => exact ih (count + 1)
      | false => exact bind_congr fun _ => ih count

theorem run_everyFile (fuel : Nat) :
    (everyFile (executeBreaking fuel)).run = Registry.loadClasses fuel := by
  refine bind_congr fun env => ?_
  show (inOrder (executeBreaking fuel) _ 0).run >>= _ = _
  rw [run_inOrder]
  rfl

theorem run_bytecode (fuel : Nat) (bytes : List UInt8) (file : UInt32) :
    (bytecode (executeBreaking fuel) bytes file).run = Registry.runBytecode fuel bytes file := by
  unfold Registry.runBytecode
  rw [← run_executeBreaking, ← run_runFile]
  rfl

theorem run_function (fuel : Nat) (name : String) :
    (function (executeBreaking fuel) name).run = Registry.callFunction fuel name := by
  unfold Registry.callFunction
  rw [← run_executeBreaking]
  refine bind_congr fun env => ?_
  beta_reduce
  cases env.global? name with
  | none => rfl
  | some callee =>
    dsimp only
    split <;> rfl

theorem run_entity (fuel : Nat) (className : String) (e : EntityId) :
    (entity (executeBreaking fuel) className e).run = Registry.spawnEntity fuel className e := by
  unfold Registry.spawnEntity
  rw [← run_executeBreaking]
  refine bind_congr fun env => ?_
  beta_reduce
  cases env.classByName? className with
  | none => rfl
  | some c =>
    show Registry.onMain (Load.ofExec (spawn _ c e).run) >>= _ = _
    rw [run_spawn]
    rfl

theorem run_event (fuel : Nat) (h : Handle) (name : String) (args : List Value) :
    (event (executeBreaking fuel) h name args).run = Registry.runEvent fuel h name args := by
  unfold Registry.runEvent
  rw [← run_executeBreaking, ← run_runEvent]
  rfl

theorem run_eventOrNative (fuel : Nat) (h : Handle) (name native : String) (args : List Value) :
    (eventOrNative (executeBreaking fuel) h name native args).run =
      Registry.invokeWithDefault fuel h name native args := by
  unfold Registry.invokeWithDefault
  rw [← run_executeBreaking, ← run_invokeWithDefault]
  rfl

theorem run_scriptBreaking (fuel : Nat) (file : UInt32) :
    (reporting ("script " ++ Text.hexWord file) (loadScript (executeBreaking fuel) file)).run =
      Registry.loadScript fuel file := by
  unfold Registry.loadScript
  rw [← run_executeBreaking, ← run_loadScript, ← run_loading]
  rfl

theorem run_classBreaking (fuel : Nat) (name : String) :
    (reporting ("class " ++ name) (loadClass (executeBreaking fuel) name)).run =
      Registry.loadClass fuel name := by
  unfold Registry.loadClass
  rw [← run_executeBreaking, ← run_loadClass, ← run_loading]
  rfl

/-- The result of an operation makes no difference to what it does. -/
theorem run_discard {α : Type} {x : Traced RegistryError Registry α} {y : Registry.Operation α}
    (h : x.run = y) :
    (do let _ ← x : Traced RegistryError Registry Unit).run = (do let _ ← y) := by
  subst h
  rfl

end Traced

namespace Registry

/-- A request with its events. -/
def Request.traced : Request → Traced RegistryError Registry Unit
  | .loadScript fuel file => do
    let _ ← Traced.reporting ("script " ++ Text.hexWord file)
      (Traced.loadScript (Traced.executeBreaking fuel) file)
  | .loadClass fuel name => do
    let _ ← Traced.reporting ("class " ++ name)
      (Traced.loadClass (Traced.executeBreaking fuel) name)
  | .loadClasses fuel => do let _ ← Traced.everyFile (Traced.executeBreaking fuel)
  | .runBytecode fuel bytes file => Traced.bytecode (Traced.executeBreaking fuel) bytes file
  | .callFunction fuel name => do let _ ← Traced.function (Traced.executeBreaking fuel) name
  | .spawnEntity fuel className e => do
    let _ ← Traced.entity (Traced.executeBreaking fuel) className e
  | .cloneEntity source e => do let _ ← Traced.entityCopy source e
  | .runEvent fuel h event args => do
    let _ ← Traced.event (Traced.executeBreaking fuel) h event args
  | .invokeWithDefault fuel h event native args => do
    let _ ← Traced.eventOrNative (Traced.executeBreaking fuel) h event native args
  | q => Traced.lift q.operation

/-- A request that is traced is the request. -/
theorem Request.run_traced (q : Request) : q.traced.run = q.operation := by
  cases q with
  | loadScript fuel file => exact Traced.run_discard (Traced.run_scriptBreaking fuel file)
  | loadClass fuel name => exact Traced.run_discard (Traced.run_classBreaking fuel name)
  | loadClasses fuel => exact Traced.run_discard (Traced.run_everyFile fuel)
  | runBytecode fuel bytes file => exact Traced.run_bytecode fuel bytes file
  | callFunction fuel name => exact Traced.run_discard (Traced.run_function fuel name)
  | spawnEntity fuel className e => exact Traced.run_discard (Traced.run_entity fuel className e)
  | cloneEntity source e => rfl
  | unlinkEntity h => rfl
  | runEvent fuel h event args => exact Traced.run_discard (Traced.run_event fuel h event args)
  | invokeWithDefault fuel h event native args =>
    exact Traced.run_discard (Traced.run_eventOrNative fuel h event native args)
  | requestCollection => rfl
  | forceCollection => rfl
  | dispose => rfl

end Registry

/-! ### Collections -/

namespace Environment

variable {env : Environment} {o : Option Loader} {P : Environment → Prop}

/-- What depends on what is loaded and on nothing else. -/
def OnLoads (P : Environment → Prop) : Prop :=
  ∀ env env' : Environment, env.SameLoads env' → P env → P env'

theorem onLoads_loader : OnLoads (·.loader = o) := fun _ _ h ho => h.loader.trans ho

theorem sameLoads_report (env : Environment) (level : Level) (text : Unit → String) :
    env.SameLoads (env.report level text) :=
  ⟨rfl, rfl⟩

theorem sameLoads_reportAll (lines : List String) (env : Environment) :
    env.SameLoads (lines.foldl (fun env line => env.report .debug fun _ => line) env) := by
  induction lines generalizing env with
  | nil => exact .refl env
  | cons line rest ih => exact (env.sameLoads_report _ _).trans (ih _)

theorem loads_collect (hP : OnLoads P) (h : P env) (roots : List Handle) :
    Leaves env (collect roots) P fun _ _ => True := by
  have hmemory : env.SameLoads { env with memory := (env.memory.collect roots).2 } := ⟨rfl, rfl⟩
  have hleft := hP _ _ (hmemory.trans (sameLoads_reportAll (env.memory.collect roots).1.lines _)) h
  unfold Leaves collect
  dsimp only
  split <;> rename_i hrun <;> split at hrun <;> cases hrun
  · exact ⟨hleft, trivial⟩
  · exact hleft

theorem loads_force (hP : OnLoads P) (h : P env) (threads : List Thread) :
    Leaves env (force threads) P fun _ _ => True := by
  unfold Leaves force
  by_cases hseveral : 1 < env.activeThreads
  · rw [if_pos hseveral]
    exact ⟨hP _ _ (env.sameLoads_report _ _) h, trivial⟩
  · rw [if_neg hseveral]
    exact (loads_collect hP h _).map

theorem loads_request (hP : OnLoads P) (h : P env) (threads : List Thread) :
    Leaves env (request threads) P fun _ _ => True := by
  have hforce := loads_force hP h threads
  unfold Leaves at hforce ⊢
  unfold request
  by_cases hfull : env.heap.shouldCollect = true
  · rw [if_pos hfull]
    dsimp only
    cases hrun : force threads env with
    | error e env₁ =>
      rw [hrun] at hforce
      exact hforce
    | ok report env₁ =>
      rw [hrun] at hforce
      cases report with
      | none => exact hforce
      | some report => exact ⟨hP _ _ (env₁.sameLoads_report _ _) hforce.1, trivial⟩
  · rw [if_neg hfull]
    exact ⟨h, trivial⟩

theorem loader_dispose (ho : env.loader = o) (threads : List Thread) :
    Leaves env (dispose threads) (·.loader = o) fun _ _ => True := by
  refine (leaves_modify (show env.keepDefinitions.loader = o from ho)).bind fun _ env₁ h₁ _ => ?_
  refine (loads_force onLoads_loader h₁ threads).bind fun _ env₂ h₂ _ => ?_
  refine (leaves_modify (P := fun env : Environment => env.loader = o) h₂).bind
    fun _ env₃ h₃ _ => ?_
  refine (leaves_modify (show env₃.forget.loader = o from h₃)).bind fun _ env₄ h₄ _ => ?_
  exact (loads_collect onLoads_loader h₄ []).bind fun _ env₅ h₅ _ => leaves_pure h₅ trivial

end Environment

namespace Registry

/-! ### Operations that load nothing -/

variable {α : Type} {r r' : Registry}

/-- What is loaded is as it was. -/
def SameLoads (r r' : Registry) : Prop := r.vm.env.SameLoads r'.vm.env

/-- The threads are reset before everything is taken down. -/
theorem collecting_dispose (r : Registry) : collecting Vm.dispose r =
    collecting (Vm.collecting Environment.dispose) ⟨r.vm.resetThreads, r.config⟩ := by
  unfold collecting Vm.dispose
  rfl

theorem leaves_collected {x : List Thread → Environment.Collect α} {P : Environment → Prop}
    (hx : Leaves r.vm.env (x r.vm.threads.toList) P fun _ _ => True) :
    Leaves r (collecting (Vm.collecting x)) (fun r' => P r'.vm.env) fun _ _ => True := by
  obtain ⟨⟨env, threads⟩, config⟩ := r
  unfold Leaves at hx ⊢
  unfold collecting Vm.collecting
  dsimp only at hx ⊢
  cases hrun : x threads.toList env with
  | ok a env' =>
    rw [hrun] at hx
    exact hx
  | error e env' =>
    rw [hrun] at hx
    exact hx

theorem onLoads_sameLoads (env : Environment) : Environment.OnLoads env.SameLoads :=
  fun _ _ h h' => h'.trans h

theorem sameLoads_forceCollection (r : Registry) :
    Leaves r forceCollection r.SameLoads fun _ _ => True :=
  leaves_collected (Environment.loads_force (onLoads_sameLoads _) (.refl _) _)

theorem sameLoads_requestCollection (r : Registry) :
    Leaves r requestCollection r.SameLoads fun _ _ => True :=
  leaves_collected (Environment.loads_request (onLoads_sameLoads _) (.refl _) _)

theorem sameLoads_safePoint (r : Registry) : Leaves r safePoint r.SameLoads fun _ _ => True := by
  unfold safePoint
  rw [leaves_get_bind]
  split
  · exact (sameLoads_requestCollection r).bind fun _ _ h _ => leaves_pure h trivial
  · exact leaves_pure (.refl _) trivial

theorem sameLoads_mapEnvironment {f : Environment → Environment}
    (hf : ∀ env : Environment, env.SameLoads (f env)) (r : Registry) :
    Leaves r (mapEnvironment f) r.SameLoads fun _ _ => True :=
  ⟨hf r.vm.env, trivial⟩

theorem sameLoads_release (result : Except RegistryError α) (r : Registry) :
    Leaves r (release result) r.SameLoads fun _ _ => True := by
  cases result with
  | ok a => exact leaves_of_ok rfl (.refl _) trivial
  | error e => exact leaves_of_error rfl (.refl _)

theorem sameLoads_shielded (fallback : α) (result : Except RegistryError α) (r : Registry) :
    Leaves r (shielded fallback result) r.SameLoads fun _ _ => True := by
  unfold shielded
  cases result with
  | ok a => exact leaves_of_ok rfl (.refl _) trivial
  | error e =>
    dsimp only
    split
    · exact leaves_of_error rfl (.refl _)
    · exact leaves_of_ok rfl ⟨rfl, rfl⟩ trivial

end Registry

/-! ### Requests on record -/

namespace Traced

variable {α β : Type} {x : Traced RegistryError Registry α}
  {g : α → Traced RegistryError Registry β} {executor : Traced Fault Machine Unit}

/-- What an action on the first thread leaves of the registry. -/
theorem onMain_eq (y : Load α) (r : Registry) : Registry.onMain y r =
    match y r.main with
    | .ok a m => .ok a ⟨⟨m.env, r.vm.threads.setIfInBounds 0 m.thread⟩, r.config⟩
    | .error e m => .error e ⟨⟨m.env, r.vm.threads.setIfInBounds 0 m.thread⟩, r.config⟩ := by
  unfold Registry.onMain Vm.onThread Registry.main
  dsimp only
  cases y ⟨r.vm.env, r.vm.threads[0]?.getD (.new 0)⟩ <;> rfl

theorem attempt_eq (y : Registry.Operation α) (r : Registry) : Registry.attempt y r =
    match y r with
    | .ok a r' => .ok (.ok a) r'
    | .error (.error e) r' => .ok (.error e) r'
    | .error other r' => .error other r' := rfl

/-- An operation does to the records what its events say. -/
def Booked (x : Traced RegistryError Registry α) : Prop :=
  ∀ r, Leaves r x.run (fun r' => r.vm.env.Records (x.events r) r'.vm.env) fun _ _ => True

theorem booked_lift {y : Registry.Operation α}
    (hy : ∀ r, Leaves r y r.SameLoads fun _ _ => True) : (lift y).Booked := by
  intro r
  have hleaves := hy r
  cases hrun : y r with
  | ok a r' => exact leaves_of_ok hrun (hleaves.ok hrun).1.records trivial
  | error e r' => exact leaves_of_error hrun (hleaves.error hrun).records

theorem booked_pure (a : α) : (pure a : Traced RegistryError Registry α).Booked :=
  booked_lift fun _ => leaves_pure (.refl _) trivial

theorem Booked.bind (hx : x.Booked) (hg : ∀ a, (g a).Booked) : (x >>= g).Booked := by
  intro r
  have hfirst := hx r
  cases hrun : x.run r with
  | error e r₁ =>
    refine leaves_of_error (Exec.bind_of_error hrun) ?_
    rw [events_bind_of_error hrun]
    exact hfirst.error hrun
  | ok a r₁ =>
    have hrecords := (hfirst.ok hrun).1
    have hsecond := hg a r₁
    have hgoes : (x >>= g).run r = (g a).run r₁ := Exec.bind_of_ok hrun
    rw [events_bind_of_ok hrun]
    cases hrun₁ : (g a).run r₁ with
    | ok b r₂ =>
      exact leaves_of_ok (hgoes.trans hrun₁) (hrecords.trans (hsecond.ok hrun₁).1) trivial
    | error e r₂ =>
      exact leaves_of_error (hgoes.trans hrun₁) (hrecords.trans (hsecond.error hrun₁))

theorem Booked.discard (hx : x.Booked) :
    (do let _ ← x : Traced RegistryError Registry Unit).Booked :=
  hx.bind fun _ => booked_pure ()

theorem booked_onMain {y : Traced RegistryError Machine α} (hy : y.Recorded At) :
    (onMain y).Booked := by
  intro r
  have hrecords := hy.records r.main
  have hmain := onMain_eq y.run r
  cases hrun : y.run r.main with
  | ok a m =>
    rw [hrun] at hmain
    rw [Exec.after_of_ok hrun] at hrecords
    exact leaves_of_ok hmain hrecords trivial
  | error e m =>
    rw [hrun] at hmain
    rw [Exec.after_of_error hrun] at hrecords
    exact leaves_of_error hmain hrecords

theorem booked_attempt (hx : x.Booked) : (attempt x).Booked := by
  intro r
  have hleaves := hx r
  have hattempt := attempt_eq x.run r
  cases hrun : x.run r with
  | ok a r' =>
    rw [hrun] at hattempt
    exact leaves_of_ok hattempt (hleaves.ok hrun).1 trivial
  | error e r' =>
    rw [hrun] at hattempt
    cases e with
    | error e => exact leaves_of_ok hattempt (hleaves.error hrun) trivial
    | outOfFuel => exact leaves_of_error hattempt (hleaves.error hrun)
    | overflow => exact leaves_of_error hattempt (hleaves.error hrun)

theorem booked_safePoint : (lift Registry.safePoint).Booked :=
  booked_lift Registry.sameLoads_safePoint

theorem booked_report (level : Level) (text : Unit → String) :
    (lift (Registry.report level text)).Booked :=
  booked_lift (Registry.sameLoads_mapEnvironment fun env => env.sameLoads_report level text)

theorem booked_environment : (lift Registry.environment).Booked :=
  booked_lift fun _ => leaves_of_ok rfl (.refl _) trivial

/-- Running something on the first thread and keeping its error. -/
theorem booked_attempt_onMain {y : Traced RegistryError Machine α} (hy : y.Recorded At) :
    (attempt (onMain y)).Booked :=
  booked_attempt (booked_onMain hy)

theorem booked_reporting {y : Traced RegistryError Machine Bool} (hy : y.Recorded At)
    (what : String) : (reporting what y).Booked := by
  have hloading : (loading what y).Booked := by
    refine (booked_attempt_onMain hy).bind fun result => ?_
    cases result with
    | ok loaded => exact booked_pure loaded
    | error e => exact (booked_report _ _).bind fun _ => booked_pure false
  exact hloading.bind fun loaded => booked_safePoint.bind fun _ => booked_pure loaded

theorem booked_inOrder (he : executor.Recorded At) (files : List UInt32) (count : Nat) :
    (inOrder executor files count).Booked := by
  induction files generalizing count with
  | nil => exact booked_pure count
  | cons file rest ih =>
    refine (booked_attempt_onMain (recorded_loadScript he file)).bind fun result => ?_
    cases result with
    | error e => exact (booked_report _ _).bind fun _ => ih count
    | ok loaded =>
      cases loaded with
      | true => exact ih (count + 1)
      | false => exact (booked_report _ _).bind fun _ => ih count

theorem booked_everyFile (he : executor.Recorded At) : (everyFile executor).Booked := by
  refine booked_environment.bind fun env => (booked_inOrder he _ 0).bind fun count => ?_
  exact (booked_lift Registry.sameLoads_forceCollection).bind fun _ => booked_pure count

theorem booked_bytecode (he : executor.Recorded At) (bytes : List UInt8) (file : UInt32) :
    (bytecode executor bytes file).Booked := by
  refine (booked_attempt_onMain (recorded_runEntry he bytes file)).bind fun result => ?_
  exact booked_safePoint.bind fun _ => booked_lift (Registry.sameLoads_release result)

theorem booked_function (he : executor.Recorded At) (name : String) :
    (function executor name).Booked := by
  refine booked_environment.bind fun env => ?_
  split
  · exact booked_pure false
  · split
    · refine (booked_attempt_onMain (recorded_ofExec (recorded_runValue he _ []))).bind fun _ => ?_
      exact booked_safePoint.bind fun _ => booked_pure _
    · exact booked_pure false

theorem booked_addRoot (h : Handle) :
    (lift (Registry.mapEnvironment (·.addRoot (.object h)))).Booked :=
  booked_lift (Registry.sameLoads_mapEnvironment fun _ => ⟨rfl, rfl⟩)

theorem booked_entity (he : executor.Recorded At) (className : String) (e : EntityId) :
    (entity executor className e).Booked := by
  refine booked_environment.bind fun env => ?_
  split
  · exact booked_lift fun _ => leaves_of_error rfl (.refl _)
  · refine (booked_onMain (recorded_ofExec (recorded_spawn he _ e))).bind fun h => ?_
    exact (booked_addRoot h).bind fun _ => booked_pure h

theorem booked_entityCopy (source : Handle) (e : EntityId) : (entityCopy source e).Booked := by
  have hcopy : Exec.Keeps Machine.SameLoads (Exec.cloneEntity source e) := by
    refine Exec.keeps_environment.bind fun env => (Exec.keeps_ofOption _ _).bind fun i => ?_
    refine (keeps_newEntity _ e).bind fun h => ?_
    exact Exec.Keeps.bind (R := Machine.SameLoads) (fun m => ⟨rfl, rfl⟩) fun _ => Exec.keeps_pure h
  refine (booked_onMain (recorded_ofExec (recorded_lift hcopy))).bind fun h => ?_
  exact (booked_addRoot h).bind fun _ => booked_pure h

theorem booked_event (he : executor.Recorded At) (h : Handle) (name : String) (args : List Value) :
    (event executor h name args).Booked := by
  have hrun := recorded_ofExec (recorded_runEvent he h (hashName name) args)
  refine (booked_attempt_onMain hrun).bind fun result => ?_
  exact booked_safePoint.bind fun _ => booked_lift (Registry.sameLoads_shielded false result)

theorem booked_eventOrNative (he : executor.Recorded At) (h : Handle) (name native : String)
    (args : List Value) : (eventOrNative executor h name native args).Booked := by
  have hrun := recorded_ofExec (recorded_invokeWithDefault he h (hashName name) native args)
  refine (booked_attempt_onMain hrun).bind fun result => ?_
  exact booked_safePoint.bind fun _ => booked_lift (Registry.sameLoads_shielded .null result)

end Traced

namespace Registry

variable {source : Source} {r r' : Registry} {es es' : List Event}

/-- All requests but disposals do to the records what their events say. -/
theorem Request.booked_traced (q : Request) (hq : q ≠ .dispose) : q.traced.Booked := by
  have he := Traced.recorded_executeBreaking
  cases q with
  | loadScript fuel file =>
    exact (Traced.booked_reporting (Traced.recorded_loadScript (he fuel) file) _).discard
  | loadClass fuel name =>
    exact (Traced.booked_reporting (Traced.recorded_loadClass (he fuel) name) _).discard
  | loadClasses fuel => exact (Traced.booked_everyFile (he fuel)).discard
  | runBytecode fuel bytes file => exact Traced.booked_bytecode (he fuel) bytes file
  | callFunction fuel name => exact (Traced.booked_function (he fuel) name).discard
  | spawnEntity fuel className e => exact (Traced.booked_entity (he fuel) className e).discard
  | cloneEntity source e => exact (Traced.booked_entityCopy source e).discard
  | unlinkEntity h => exact Traced.booked_lift fun r => ⟨⟨rfl, rfl⟩, trivial⟩
  | runEvent fuel h event args => exact (Traced.booked_event (he fuel) h event args).discard
  | invokeWithDefault fuel h event native args =>
    exact (Traced.booked_eventOrNative (he fuel) h event native args).discard
  | requestCollection =>
    refine Traced.booked_lift fun r => (sameLoads_requestCollection r).bind fun _ _ h _ => ?_
    exact leaves_pure h trivial
  | forceCollection =>
    refine Traced.booked_lift fun r => (sameLoads_forceCollection r).bind fun _ _ h _ => ?_
    exact leaves_pure h trivial
  | dispose => exact absurd rfl hq

theorem Request.records (q : Request) (hq : q ≠ .dispose) (r : Registry) :
    r.vm.env.Records (q.traced.events r) (q.after r).vm.env := by
  have hbooked := q.booked_traced hq r
  rw [q.run_traced] at hbooked
  unfold Request.after
  cases hrun : q.operation r with
  | ok a r' => exact (hbooked.ok hrun).1
  | error e r' => exact hbooked.error hrun

/-! ### Histories -/

/-- The registries that requests lead to, however they end, with the events since the last disposal.
In between the host does what it likes, but for the records of the loader. -/
inductive History (source : Source) : Registry → List Event → Prop
  | new (config : Config) (natives : Natives) (log : Log) :
    History source (Registry.new config source natives log) []
  | request {r : Registry} {es : List Event} (q : Request) : History source r es → q ≠ .dispose →
      History source (q.after r) (es ++ q.traced.events r)
  | dispose {r r' : Registry} {es : List Event} : History source r es →
      Registry.dispose r = .ok () r' → History source r' []
  | host {r r' : Registry} {es : List Event} (binder : Option Binder) : History source r es →
      r'.vm.env.loader = r.vm.env.loader.map (fun l => { l with binder }) → History source r' es

/-- The records hold what has started and what was bound, each of it once. -/
structure OnRecord (source : Source) (r : Registry) (es : List Event) : Prop where
  classMap : r.vm.env.classMap? = some source.classMap
  fetched : r.vm.env.fetched = (es.filterMap Event.start?).reverse
  fetchedOnce : r.vm.env.fetched.Nodup
  bound : r.vm.env.boundClasses = (es.filterMap Event.binding?).reverse
  boundOnce : r.vm.env.boundClasses.Nodup
  settled : Event.Settled es

theorem OnRecord.records (h : OnRecord source r es) (hr : r.vm.env.Records es' r'.vm.env) :
    OnRecord source r' (es ++ es') := by
  refine ⟨hr.classMap.trans h.classMap, ?_, hr.fetchedOnce h.fetchedOnce, ?_,
    hr.boundOnce h.boundOnce, h.settled.append hr.settled⟩
  · rw [hr.fetched, h.fetched, List.filterMap_append, List.reverse_append]
  · rw [hr.bound, h.bound, List.filterMap_append, List.reverse_append]

/-- The loader of a registry on record. -/
theorem OnRecord.loader (h : OnRecord source r es) :
    ∃ l, r.vm.env.loader = some l ∧ l.source.classMap = source.classMap :=
  Option.map_eq_some_iff.1 h.classMap

/-- The files on record are those that have started. -/
theorem OnRecord.mem_fetched (h : OnRecord source r es) {file : UInt32} :
    file ∈ r.vm.env.fetched ↔ file ∈ es.filterMap Event.start? := by
  rw [h.fetched, List.mem_reverse]

/-- A file on record has completed unless it has failed. -/
theorem OnRecord.completed_iff (h : OnRecord source r es) {file : UInt32}
    (hfile : file ∈ r.vm.env.fetched) :
    (.completed file ∈ es ∧ Event.Decoded file es) ↔ .failed file ∉ es := by
  have hnodup : (es.filterMap Event.start?).Nodup := by
    rw [← List.nodup_reverse, ← h.fetched]
    exact h.fetchedOnce
  exact h.settled.completed_iff hnodup (h.mem_fetched.1 hfile)

/-- A class on record was bound. -/
theorem OnRecord.exists_bound (h : OnRecord source r es) {hash : UInt32}
    (hhash : hash ∈ r.vm.env.boundClasses) : ∃ c, .bound hash c ∈ es := by
  rw [h.bound, List.mem_reverse, List.mem_filterMap] at hhash
  obtain ⟨e, he, hbinding⟩ := hhash
  cases e with
  | bound hash c =>
    cases hbinding
    exact ⟨c, he⟩
  | started file bytes => cases hbinding
  | completed file => cases hbinding
  | failed file => cases hbinding

theorem loader_dispose (hrun : Registry.dispose r = .ok () r') :
    r'.vm.env.loader = r.vm.env.loader.map Loader.clear := by
  obtain ⟨_, r₁, hcollect, hend⟩ := Exec.bind_eq_ok.1 hrun
  rw [collecting_dispose] at hcollect
  have hleaves := leaves_collected (r := ⟨r.vm.resetThreads, r.config⟩)
    (Environment.loader_dispose rfl r.vm.resetThreads.threads.toList)
  obtain ⟨hloader, -⟩ := hleaves.ok hcollect
  cases hend
  exact congrArg (Option.map Loader.clear) hloader

theorem History.onRecord (hs : History source r es) : OnRecord source r es := by
  induction hs with
  | new config natives log => exact ⟨rfl, rfl, .nil, rfl, .nil, Event.settled_nil⟩
  | request q _ hq ih => exact ih.records (q.records hq _)
  | @dispose r r' es _ hrun ih =>
    obtain ⟨l, hl, hmap⟩ := ih.loader
    have hloader : r'.vm.env.loader = some l.clear := by
      rw [loader_dispose hrun, hl, Option.map_some]
    have hfetched : r'.vm.env.fetched = [] := Environment.fetched_of_loader hloader
    have hbound : r'.vm.env.boundClasses = [] := Environment.boundClasses_of_loader hloader
    exact ⟨(Environment.classMap?_of_loader hloader).trans (congrArg some hmap), hfetched,
      hfetched ▸ .nil, hbound, hbound ▸ .nil, Event.settled_nil⟩
  | @host r r' es binder _ hloader ih =>
    obtain ⟨l, hl, hmap⟩ := ih.loader
    rw [hl, Option.map_some] at hloader
    have hfetched : r'.vm.env.fetched = r.vm.env.fetched :=
      (Environment.fetched_of_loader hloader).trans (Environment.fetched_of_loader hl).symm
    have hbound : r'.vm.env.boundClasses = r.vm.env.boundClasses :=
      (Environment.boundClasses_of_loader hloader).trans
        (Environment.boundClasses_of_loader hl).symm
    exact ⟨(Environment.classMap?_of_loader hloader).trans (congrArg some hmap),
      hfetched.trans ih.fetched, hfetched ▸ ih.fetchedOnce, hbound.trans ih.bound,
      hbound ▸ ih.boundOnce, ih.settled⟩

section Runs

variable {α : Type}

/-- The result of an operation, if it has one. -/
def result? (x : Operation α) (r : Registry) : Option α :=
  match x r with
  | .ok a _ => some a
  | .error _ _ => none

/-- The registry that an operation leaves. -/
def after (x : Operation α) (r : Registry) : Registry :=
  match x r with
  | .ok _ r' => r'
  | .error _ r' => r'

theorem eq_ok_of_result? {x : Operation α} {a : α} (hx : result? x r = some a) :
    x r = .ok a (after x r) := by
  unfold result? at hx
  unfold after
  split at hx
  · rename_i hrun
    cases hx
    rw [hrun]
  · cases hx

end Runs

end Registry
end ScriptVm
