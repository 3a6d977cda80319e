import ScriptVm.Proofs.Machine.CallerStack
import ScriptVm.Proofs.Machine.Nesting
import ScriptVm.Proofs.Registry.NoDangling
import ScriptVm.Proofs.Registry.Histories

/-!
# Frame protection

A host may call a script at any time, also while calls are active. When the run ends, well or not,
the thread is back where it was.

* `Call.restored` says so of one call, whatever runs are nested in it, and gives the state of the
  thread.
* `Operation.Rests` are the operations that leave the first thread at rest if they find it so;
  `rests_operation` says it of every request.
* `Operated` are the registries that a host comes to, with or without a debugger.
* `frame_protection` is the result.
-/

namespace ScriptVm

namespace Exec

variable {executor : Exec Unit}

/-! ### Entities -/

theorem calls_onEnvironment {α : Type} (g : Environment → α × Environment) :
    Keeps Machine.SameCalls (onEnvironment g) := calls_of_thread fun _ => rfl

theorem calls_environment : Keeps Machine.SameCalls environment := calls_of_thread fun _ => rfl

theorem calls_pure {α : Type} (a : α) : Keeps Machine.SameCalls (pure a : Exec α) :=
  calls_of_thread fun _ => rfl

theorem calls_fault {α : Type} (c : Cause) : Keeps Machine.SameCalls (fault c : Exec α) :=
  calls_of_thread fun _ => rfl

theorem calls_ofOption {α : Type} (c : Cause) (o : Option α) :
    Keeps Machine.SameCalls (ofOption c o) := by
  cases o with
  | none => exact calls_fault c
  | some a => exact calls_pure a

theorem calls_runNative (name : String) (args : Array Value) :
    Keeps Machine.SameCalls (runNative name args) := by
  refine calls_environment.bind fun env => ?_
  refine Keeps.bind (x := onMemory fun mem => env.natives name mem args) (calls_onEnvironment _)
    fun result => ?_
  cases result with
  | ok v => exact calls_pure v
  | error c => exact calls_fault c

section Calls

variable (he : Keeps (Machine.Above 0 0) executor)
include he

theorem calls_callInitializer (h : Handle) :
    Keeps Machine.SameCalls (callInitializer executor h) := by
  have hinvoke : ∀ init, Keeps Machine.SameCalls (do
      let _ ← invokeForObject executor init (.object h) [] : Exec Unit) :=
    fun init => (calls_invokeForObject he init _ []).bind fun _ => calls_pure ()
  refine calls_environment.bind fun env => (calls_ofOption _ _).bind fun i => ?_
  split
  · exact calls_pure ()
  · split
    · split
      · exact hinvoke _
      · exact calls_fault _
    · exact hinvoke _

theorem calls_spawn (c : Handle) (e : EntityId) :
    Keeps Machine.SameCalls (spawn executor c e) := by
  refine calls_environment.bind fun env => ?_
  split
  · refine (calls_onEnvironment _).bind fun h => calls_environment.bind fun env => ?_
    refine (calls_of_thread fun _ => rfl).bind fun _ => ?_
    exact (calls_callInitializer he h).bind fun _ => calls_pure h
  · exact calls_fault _

theorem calls_runEvent (h : Handle) (hash : UInt32) (args : List Value) :
    Keeps Machine.SameCalls (runEvent executor h hash args) := by
  refine (calls_onEnvironment _).bind fun found => ?_
  cases found with
  | none => exact calls_pure false
  | some f => exact (calls_invokeForObject he f _ args).bind fun _ => calls_pure true

theorem calls_invokeWithDefault (h : Handle) (hash : UInt32) (native : String)
    (args : List Value) :
    Keeps Machine.SameCalls (invokeWithDefault executor h hash native args) := by
  refine (calls_onEnvironment _).bind fun found => ?_
  cases found with
  | none => exact calls_runNative native _
  | some f =>
    refine calls_environment.bind fun env => ?_
    dsimp only
    split
    · exact calls_runNative native _
    · exact calls_invokeForObject he f _ args

end Calls

theorem calls_cloneEntity (source : Handle) (e : EntityId) :
    Keeps Machine.SameCalls (cloneEntity source e) := by
  refine calls_environment.bind fun env => (calls_ofOption _ _).bind fun i => ?_
  exact (calls_onEnvironment _).bind fun h => (calls_onEnvironment _).bind fun _ => calls_pure h

end Exec

/-! ### Calls of a host -/

namespace Machine

open Exec

theorem Call.keepsCalls (call : Call) (fuel : Nat) :
    Keeps SameCalls (call.run (execute fuel)) := by
  cases call with
  | value callee args => exact calls_runValue (above_execute fuel) callee args
  | forObject callable receiver args =>
    exact calls_invokeForObject (above_execute fuel) callable receiver args

/-- The state that a run leaves: that of the calls around it, or how it ended. -/
theorem state_runProtected (body : Exec Unit) (m : Machine) :
    match runProtected body m with
    | .ok _ m' => m'.thread.state = if 0 < m.thread.frames.size then .running else .returned
    | .error _ m' => m'.thread.state = if 0 < m.thread.frames.size then .running else .errored := by
  unfold runProtected
  dsimp only
  split <;> rename_i hrun <;> split at hrun <;> cases hrun <;> rfl

/-- After a call the thread is where it was. -/
theorem Call.restored (call : Call) (fuel : Nat) (m : Machine) :
    match call.run (execute fuel) m with
    | .ok _ m' => m.SameCalls m' ∧
        m'.thread.state = if 0 < m.thread.frames.size then .running else .returned
    | .error _ m' => m.SameCalls m' ∧
        m'.thread.state = if 0 < m.thread.frames.size then .running else .errored := by
  have hcalls := call.keepsCalls fuel m
  have hstate := state_runProtected (call.body (execute fuel)) m
  rw [← call.run_eq_runProtected] at hstate
  cases hrun : call.run (execute fuel) m with
  | ok v m' =>
    rw [hrun] at hstate
    rw [after_of_ok hrun] at hcalls
    exact ⟨hcalls, hstate⟩
  | error e m' =>
    rw [hrun] at hstate
    rw [after_of_error hrun] at hcalls
    exact ⟨hcalls, hstate⟩

end Machine

/-! ### Operations -/

namespace Registry

open Exec

variable {α β : Type} {r r' : Registry}

/-- The first thread has an empty stack and no calls. -/
def AtRest (r : Registry) : Prop :=
  ∃ t, r.vm.threads[0]? = some t ∧ t.stack = #[] ∧ t.frames = #[]

/-- The first thread is left at rest. -/
def Operation.Rests (x : Operation α) : Prop :=
  ∀ r, r.AtRest → Leaves r x AtRest fun _ _ => True

theorem Operation.Rests.bind {x : Operation α} {g : α → Operation β} (hx : x.Rests)
    (hg : ∀ a, (g a).Rests) : Operation.Rests (x >>= g) :=
  fun r hr => (hx r hr).bind fun a r' hr' _ => hg a r' hr'

/-- What leaves all threads alone. -/
theorem rests_of_threads {x : Operation α}
    (hx : ∀ r, Leaves r x (fun r' => r'.vm.threads = r.vm.threads) fun _ _ => True) :
    x.Rests := by
  intro r hr
  have hleaves := hx r
  unfold AtRest at hr
  cases hrun : x r with
  | ok a r' => exact leaves_of_ok hrun (by rwa [AtRest, (hleaves.ok hrun).1]) trivial
  | error e r' => exact leaves_of_error hrun (by rwa [AtRest, hleaves.error hrun])

theorem rests_pure (a : α) : Operation.Rests (pure a) := rests_of_threads fun _ => ⟨rfl, trivial⟩

theorem rests_throw (e : Halt RegistryError) : Operation.Rests (throw e : Operation α) :=
  rests_of_threads fun _ => rfl

theorem rests_environment : environment.Rests := rests_of_threads fun _ => ⟨rfl, trivial⟩

theorem rests_mapEnvironment (g : Environment → Environment) : (mapEnvironment g).Rests :=
  rests_of_threads fun _ => ⟨rfl, trivial⟩

theorem rests_release (result : Except RegistryError α) : (release result).Rests := by
  cases result with
  | ok a => exact rests_pure a
  | error e => exact rests_throw (.error e)

/-- A collection reads the threads and changes the environment. -/
theorem rests_collecting (x : List Thread → Environment.Collect α) :
    (collecting (Vm.collecting x)).Rests := by
  refine rests_of_threads fun r => ?_
  obtain ⟨⟨env, threads⟩, config⟩ := r
  unfold Leaves collecting Vm.collecting
  dsimp only
  cases x threads.toList env with
  | ok a env' => exact ⟨rfl, trivial⟩
  | error e env' => exact rfl

theorem rests_safePoint : safePoint.Rests := by
  have hget : Operation.Rests (get : Operation Registry) :=
    rests_of_threads fun _ => ⟨rfl, trivial⟩
  refine hget.bind fun r => ?_
  split
  · exact (rests_collecting Environment.request).bind fun _ => rests_pure ()
  · exact rests_pure ()

/-- A stack that is no higher than an empty one is empty. -/
theorem rests_onMain {x : Load α} (hx : Keeps Machine.SameCalls x) : (onMain x).Rests := by
  rintro r ⟨t, ht, hstack, hframes⟩
  have hmain : r.main = ⟨r.vm.env, t⟩ := by
    unfold Registry.main
    rw [ht]
    rfl
  have hcalls := hx r.main
  rw [hmain] at hcalls
  have hrest : ∀ m : Machine, Machine.SameCalls ⟨r.vm.env, t⟩ m →
      AtRest ⟨⟨m.env, r.vm.threads.setIfInBounds 0 m.thread⟩, r.config⟩ := by
    intro m hm
    refine ⟨m.thread, ?_, ?_, hm.frames.trans hframes⟩
    · exact Array.getElem?_setIfInBounds_self_of_lt (Array.getElem?_eq_some_iff.1 ht).1
    · have hheight := hm.height
      rw [hstack] at hheight
      exact Array.size_eq_zero_iff.1 (Nat.le_zero.1 hheight)
  have hrun := Traced.onMain_eq x r
  rw [hmain] at hrun
  unfold Exec.after at hcalls
  cases hx : x ⟨r.vm.env, t⟩ with
  | ok a m =>
    rw [hx] at hrun hcalls
    exact leaves_of_ok hrun (hrest m hcalls) trivial
  | error e m =>
    rw [hx] at hrun hcalls
    exact leaves_of_error hrun (hrest m hcalls)

theorem rests_attempt {x : Operation α} (hx : x.Rests) : (attempt x).Rests :=
  fun r hr => leaves_attempt (hx r hr)

theorem rests_ofExec {x : Exec α} (hx : Keeps Machine.SameCalls x) :
    (onMain (.ofExec x)).Rests :=
  rests_onMain (keeps_adaptExcept hx _)

theorem rests_loading {x : Load Bool} (hx : Keeps Machine.SameCalls x) (what : String) :
    (loading what x).Rests := by
  refine (rests_attempt (rests_onMain hx)).bind fun result => ?_
  cases result with
  | ok loaded => exact rests_pure loaded
  | error e => exact (rests_mapEnvironment _).bind fun _ => rests_pure false

theorem rests_loadAll (fuel : Nat) (files : List UInt32) (count : Nat) :
    (loadAll fuel files count).Rests := by
  induction files generalizing count with
  | nil => exact rests_pure count
  | cons file rest ih =>
    refine (rests_attempt (rests_onMain (calls_loadScript (above_execute fuel) file))).bind
      fun result => ?_
    match result with
    | .ok true => exact ih (count + 1)
    | .ok false => exact (rests_mapEnvironment _).bind fun _ => ih count
    | .error e => exact (rests_mapEnvironment _).bind fun _ => ih count

theorem rests_shielded (fallback : α) (result : Except RegistryError α) :
    (shielded fallback result).Rests := by
  cases result with
  | ok a => exact rests_pure a
  | error e =>
    unfold shielded
    dsimp only
    split
    · exact rests_throw _
    · exact (rests_mapEnvironment _).bind fun _ => rests_pure fallback

/-- Resetting the threads brings the first to rest. -/
theorem rests_dispose : dispose.Rests := by
  have hcollect : (collecting Vm.dispose).Rests := by
    rintro r ⟨t, ht, -, -⟩
    have hreset : AtRest ⟨r.vm.resetThreads, r.config⟩ := by
      refine ⟨t.reset, ?_, rfl, rfl⟩
      show (r.vm.threads.map Thread.reset)[0]? = _
      rw [Array.getElem?_map, ht]
      rfl
    unfold Leaves
    rw [collecting_dispose]
    exact rests_collecting Environment.dispose _ hreset
  exact hcollect.bind fun _ => (rests_mapEnvironment _).bind fun _ => rests_mapEnvironment _

/-- Every operation leaves the first thread at rest. -/
theorem rests_operation (q : Request) : q.operation.Rests := by
  have hdiscard : ∀ {α : Type} {x : Operation α}, x.Rests → Operation.Rests (do let _ ← x) :=
    fun hx => hx.bind fun _ => rests_pure ()
  have hroot : ∀ h : Handle, Operation.Rests (do
      mapEnvironment (·.addRoot (.object h))
      return h) := fun h => (rests_mapEnvironment _).bind fun _ => rests_pure h
  cases q with
  | loadScript fuel file =>
    refine hdiscard ((rests_loading (calls_loadScript (above_execute fuel) file) _).bind
      fun loaded => ?_)
    exact rests_safePoint.bind fun _ => rests_pure loaded
  | loadClass fuel name =>
    refine hdiscard ((rests_loading (calls_loadClass (above_execute fuel) name) _).bind
      fun loaded => ?_)
    exact rests_safePoint.bind fun _ => rests_pure loaded
  | loadClasses fuel =>
    refine hdiscard
      (rests_environment.bind fun env => (rests_loadAll fuel _ 0).bind fun count => ?_)
    exact (rests_collecting Environment.force).bind fun _ => rests_pure count
  | runBytecode fuel bytes file =>
    refine (rests_attempt (rests_onMain (calls_runFile (above_execute fuel) bytes file))).bind
      fun result => ?_
    exact rests_safePoint.bind fun _ => rests_release result
  | callFunction fuel name =>
    refine hdiscard (rests_environment.bind fun env => ?_)
    split
    · exact rests_pure false
    · split
      · refine (rests_attempt (rests_ofExec (calls_runValue (above_execute fuel) _ []))).bind
          fun result => ?_
        exact rests_safePoint.bind fun _ => rests_pure _
      · exact rests_pure false
  | spawnEntity fuel className e =>
    refine hdiscard (rests_environment.bind fun env => ?_)
    split
    · exact rests_throw _
    · exact (rests_ofExec (calls_spawn (above_execute fuel) _ e)).bind hroot
  | cloneEntity source e =>
    exact hdiscard ((rests_ofExec (calls_cloneEntity source e)).bind hroot)
  | unlinkEntity h =>
    exact rests_mapEnvironment fun env =>
      { env.unlink h with
        extraRoots := (env.unlink h).extraRoots.filter fun v => v.object? != some h }
  | runEvent fuel h event args =>
    refine hdiscard ((rests_attempt (rests_ofExec
      (calls_runEvent (above_execute fuel) h _ args))).bind fun result => ?_)
    exact rests_safePoint.bind fun _ => rests_shielded false result
  | invokeWithDefault fuel h event native args =>
    refine hdiscard ((rests_attempt (rests_ofExec
      (calls_invokeWithDefault (above_execute fuel) h _ native args))).bind fun result => ?_)
    exact rests_safePoint.bind fun _ => rests_shielded .null result
  | requestCollection => exact hdiscard (rests_collecting Environment.request)
  | forceCollection => exact hdiscard (rests_collecting Environment.force)
  | dispose => exact rests_dispose

/-- The registries that a host comes to by operations and by what it does with the first thread
between them: it may set debuggers and breakpoints and make calls. -/
inductive Operated : Registry → Prop
  | new (config : Config) (source : Source) (natives : Natives) (log : Log) :
    Operated (Registry.new config source natives log)
  | request {r : Registry} (q : Request) : Operated r → Operated (q.after r)
  | host {r r' : Registry} : Operated r → r.main.SameCalls r'.main →
      r'.vm.threads.size = r.vm.threads.size → Operated r'

theorem atRest_new (config : Config) (source : Source) (natives : Natives) (log : Log) :
    (Registry.new config source natives log).AtRest := by
  have hsome : 0 < config.threads := Nat.le_max_left 1 _
  refine ⟨{ Thread.new 0 with debug := { DebugState.off with enabled := config.debug } }, ?_, rfl,
    rfl⟩
  show (((Array.range config.threads).map Thread.new).map _)[0]? = _
  rw [Array.getElem?_map, Array.getElem?_map, Array.getElem?_range, if_pos hsome]
  rfl

theorem AtRest.after (hr : r.AtRest) (q : Request) : (q.after r).AtRest := by
  have hleaves := rests_operation q r hr
  unfold Request.after
  cases hrun : q.operation r with
  | ok a r' => exact (hleaves.ok hrun).1
  | error e r' => exact hleaves.error hrun

/-- What keeps the calls of the first thread keeps it at rest. -/
theorem AtRest.hosted (hr : r.AtRest) (hcalls : r.main.SameCalls r'.main)
    (hsize : r'.vm.threads.size = r.vm.threads.size) : r'.AtRest := by
  obtain ⟨t, ht, hstack, hframes⟩ := hr
  have hlt : 0 < r'.vm.threads.size := by
    rw [hsize]
    exact (Array.getElem?_eq_some_iff.1 ht).1
  have ht' : r'.vm.threads[0]? = some r'.vm.threads[0] := Array.getElem?_eq_getElem hlt
  have hthread : r.main.thread = t := by simp [Registry.main, ht]
  have hthread' : r'.main.thread = r'.vm.threads[0] := by simp [Registry.main, ht']
  have hheight := hcalls.height
  rw [hthread, hthread', hstack] at hheight
  refine ⟨_, ht', Array.size_eq_zero_iff.1 (Nat.le_zero.1 hheight), ?_⟩
  rw [← hthread', hcalls.frames, hthread, hframes]

theorem Operated.atRest (hr : Operated r) : r.AtRest := by
  induction hr with
  | new config source natives log => exact atRest_new config source natives log
  | request q _ ih => exact ih.after q
  | host _ hcalls hsize ih => exact ih.hosted hcalls hsize

/-- **Frame protection.** When a call, an import or an evaluation ends, well or not, all calls
around it are exactly as they were, and the stack is no higher. -/
theorem frame_protection (fuel : Nat) :
    (∀ (call : Machine.Call) (m : Machine),
      match call.run (execute fuel) m with
      | .ok _ m' => m.SameCalls m' ∧
          m'.thread.state = if 0 < m.thread.frames.size then .running else .returned
      | .error _ m' => m.SameCalls m' ∧
          m'.thread.state = if 0 < m.thread.frames.size then .running else .errored) ∧
      (∀ (index : Nat) (m : Machine),
        m.SameCalls (Exec.after (importClass (execute fuel) index) m)) ∧
      (∀ (target : Handle) (m : Machine),
        m.SameCalls (Exec.after (evaluate (execute fuel) target) m)) ∧
      ∀ r : Registry, Operated r → r.AtRest :=
  ⟨fun call => call.restored fuel, calls_importClass (above_execute fuel),
    calls_evaluate (above_execute fuel), fun _ => Operated.atRest⟩

/-- A file that leaves two values and its own call behind when it fails. -/
def brokenFile : List UInt8 :=
  Container.encode
    { version := 0, debugInfo := false, functions := [⟨0, 0, ⟨#[32, 32, 255], none, #[], 0⟩⟩]
      tokens := [], sourceFilename := none }

theorem frame_protection_broken :
    let r := (Request.runBytecode 9 brokenFile 1).after
      (Registry.new .standard .empty Native.standard default)
    Operated r ∧ r.vm.threads[0]?.map (·.state) = some .errored ∧ r.AtRest := by
  intro r
  have hr : Operated r := .request _ (.new .standard .empty Native.standard default)
  exact ⟨hr, by decide +kernel, (frame_protection 9).2.2.2 r hr⟩

end Registry
end ScriptVm
