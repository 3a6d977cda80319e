import ScriptVm.Proofs.Environment.Tidying
import ScriptVm.Proofs.Machine.Steadiness
import ScriptVm.Proofs.Registry.NoDangling
import ScriptVm.Proofs.Registry.Histories

/-!
# What operations of a registry are made of

Most operations run something on the first thread, write to the log and collect, and do
nothing else. The operations on entities do the same after an instance was bound, and before
it becomes a root.

* `Act R` lists these elements, for runs that keep a relation `R`; `Acts R` is any number of them,
  one after the other.
* `Operation.Ordinary R` says that an operation is made of them, whether it succeeds or not.
  `ordinary_operation` says so of all requests that are not about entities and do not take
  everything down.
* `Binds` is what an operation that binds an instance does; `binds_spawn` and `binds_clone` are the
  two that there are.
* `dispose_cases` says what taking everything down does, and where it may end early.
* `Upheld R` are the properties of registries that survive the elements of operations.
  `Upheld.operation` says that they survive all requests.
-/

namespace ScriptVm

/-- What a state satisfies may be weakened. -/
theorem Leaves.imp {ε σ α : Type} {s : σ} {x : EStateM ε σ α} {P P' : σ → Prop}
    {Q Q' : α → σ → Prop} (hx : Leaves s x P Q) (hp : ∀ s', P s' → P' s')
    (hq : ∀ a s', Q a s' → Q' a s') : Leaves s x P' Q' := by
  unfold Leaves at hx ⊢
  split at hx
  · exact ⟨hp _ hx.1, hq _ _ hx.2⟩
  · exact hp _ hx

namespace Registry

variable {α β : Type} {r r' : Registry} {R : Machine → Machine → Prop}

/-- The registry with another environment. -/
def withEnv (r : Registry) (env : Environment) : Registry := { r with vm := { r.vm with env } }

/-- One thing that an operation does: a run on the first thread, a line in the log, or a collection
if one is due. -/
inductive Act (R : Machine → Machine → Prop) (r : Registry) : Registry → Prop
  | run {m : Machine} : R r.main m → Act R r (r.ran m)
  | report (level : Level) (text : Unit → String) : Act R r (r.withEnv (r.vm.env.report level text))
  | tidy {env : Environment} : r.vm.env.Tidied r.vm.threads.toList env → Act R r (r.withEnv env)

/-- Several such things. -/
abbrev Acts (R : Machine → Machine → Prop) : Registry → Registry → Prop :=
  Relation.ReflTransGen (Act R)

/-- An operation does nothing else, whether it succeeds or not. -/
def Operation.Ordinary (R : Machine → Machine → Prop) (x : Operation α) : Prop :=
  ∀ r, Leaves r x (Acts R r) fun _ _ => True

theorem Operation.Ordinary.bind {x : Operation α} {f : α → Operation β} (hx : x.Ordinary R)
    (hf : ∀ a, (f a).Ordinary R) : Operation.Ordinary R (x >>= f) := fun r =>
  (hx r).bind fun a r₁ h₁ _ => (hf a r₁).imp (fun _ h => h₁.trans h) fun _ _ h => h

/-! ### The elements -/

theorem ordinary_pure (a : α) : Operation.Ordinary R (pure a) := fun _ => ⟨.refl, trivial⟩

theorem ordinary_throw (e : Halt RegistryError) : Operation.Ordinary R (throw e : Operation α) :=
  fun _ => Relation.ReflTransGen.refl

theorem ordinary_environment : environment.Ordinary R := fun _ => ⟨.refl, trivial⟩

theorem ordinary_report (level : Level) (text : Unit → String) : (report level text).Ordinary R :=
  fun _ => ⟨.single (.report level text), trivial⟩

theorem ordinary_release (result : Except RegistryError α) : (release result).Ordinary R := by
  cases result with
  | ok a => exact ordinary_pure a
  | error e => exact ordinary_throw (.error e)

theorem ordinary_attempt {x : Operation α} (hx : x.Ordinary R) : (attempt x).Ordinary R :=
  fun r => leaves_attempt (hx r)

theorem ordinary_onMain {x : Load α} (hx : Exec.Keeps R x) : (onMain x).Ordinary R := by
  intro r
  have hruns := hx r.main
  have hmain := Traced.onMain_eq x r
  cases hrun : x r.main with
  | ok a m =>
    rw [Exec.after_of_ok hrun] at hruns
    rw [hrun] at hmain
    exact leaves_of_ok hmain (.single (.run hruns)) trivial
  | error e m =>
    rw [Exec.after_of_error hrun] at hruns
    rw [hrun] at hmain
    exact leaves_of_error hmain (.single (.run hruns))

theorem ordinary_ofExec {x : Exec α} (hx : Exec.Keeps R x) : (onMain (.ofExec x)).Ordinary R :=
  ordinary_onMain (Exec.keeps_adaptExcept hx _)

/-- A collection changes the environment only. -/
theorem collecting_of_ok {x : List Thread → Environment.Collect α} {a : α} {env : Environment}
    (hx : x r.vm.threads.toList r.vm.env = .ok a env) :
    collecting (Vm.collecting x) r = .ok a (r.withEnv env) := by
  obtain ⟨⟨env₀, threads⟩, config⟩ := r
  unfold collecting Vm.collecting
  dsimp only at hx ⊢
  rw [hx]
  rfl

theorem collecting_of_error {x : List Thread → Environment.Collect α} {e : SizeOverflow}
    {env : Environment} (hx : x r.vm.threads.toList r.vm.env = .error e env) :
    collecting (Vm.collecting x) r = .error .overflow (r.withEnv env) := by
  obtain ⟨⟨env₀, threads⟩, config⟩ := r
  unfold collecting Vm.collecting
  dsimp only at hx ⊢
  rw [hx]
  rfl

theorem ordinary_collecting {x : List Thread → Environment.Collect α}
    (hx : ∀ threads env, Environment.Tidies threads env (x threads)) :
    (collecting (Vm.collecting x)).Ordinary R := by
  intro r
  have htidies := hx r.vm.threads.toList r.vm.env
  cases hrun : x r.vm.threads.toList r.vm.env with
  | ok a env =>
    exact leaves_of_ok (collecting_of_ok hrun) (.single (.tidy (htidies.ok a env hrun))) trivial
  | error e env =>
    exact leaves_of_error (collecting_of_error hrun)
      (.single (.tidy (.inr (htidies.error e env hrun).1)))

theorem ordinary_safePoint : safePoint.Ordinary R := by
  have hget : Operation.Ordinary R (get : Operation Registry) := fun _ => ⟨.refl, trivial⟩
  refine hget.bind fun r => ?_
  split
  · exact (ordinary_collecting Environment.tidies_request).bind fun _ => ordinary_pure ()
  · exact ordinary_pure ()

/-! ### Operations -/

theorem ordinary_loading {x : Load Bool} (hx : Exec.Keeps R x) (what : String) :
    (loading what x).Ordinary R := by
  refine (ordinary_attempt (ordinary_onMain hx)).bind fun result => ?_
  cases result with
  | ok loaded => exact ordinary_pure loaded
  | error e => exact (ordinary_report _ _).bind fun _ => ordinary_pure false

theorem ordinary_loadAll [Machine.AdmitsRuns R] {fuel : Nat} (he : Exec.Keeps R (Exec.execute fuel))
    (files : List UInt32) (count : Nat) : (loadAll fuel files count).Ordinary R := by
  induction files generalizing count with
  | nil => exact ordinary_pure count
  | cons file rest ih =>
    refine (ordinary_attempt (ordinary_onMain (Exec.keeps_loadScript he file))).bind
      fun result => ?_
    match result with
    | .ok true => exact ih (count + 1)
    | .ok false => exact (ordinary_report _ _).bind fun _ => ih count
    | .error e => exact (ordinary_report _ _).bind fun _ => ih count

theorem ordinary_shielded (fallback : α) (result : Except RegistryError α) :
    (shielded fallback result).Ordinary R := by
  cases result with
  | ok a => exact ordinary_pure a
  | error e =>
    unfold shielded
    dsimp only
    split
    · exact ordinary_throw _
    · exact (ordinary_report _ _).bind fun _ => ordinary_pure fallback

/-- A request that neither binds an instance nor lets one go nor takes everything down. -/
def Request.IsOrdinary : Request → Prop
  | .spawnEntity _ _ _ | .cloneEntity _ _ | .unlinkEntity _ | .dispose => False
  | _ => True

theorem ordinary_operation [Machine.AdmitsRuns R]
    (hexecute : ∀ fuel, Exec.Keeps R (Exec.execute fuel))
    {q : Request} (hq : q.IsOrdinary) : q.operation.Ordinary R := by
  have hdiscard : ∀ {α : Type} {x : Operation α}, x.Ordinary R →
      Operation.Ordinary R (do let _ ← x) :=
    fun hx => hx.bind fun _ => ordinary_pure ()
  cases q with
  | loadScript fuel file =>
    refine hdiscard ((ordinary_loading (Exec.keeps_loadScript (hexecute fuel) file) _).bind
      fun loaded => ?_)
    exact ordinary_safePoint.bind fun _ => ordinary_pure loaded
  | loadClass fuel name =>
    refine hdiscard ((ordinary_loading (Exec.keeps_loadClass (hexecute fuel) name) _).bind
      fun loaded => ?_)
    exact ordinary_safePoint.bind fun _ => ordinary_pure loaded
  | loadClasses fuel =>
    refine hdiscard (ordinary_environment.bind fun env =>
      (ordinary_loadAll (hexecute fuel) _ 0).bind fun count => ?_)
    exact (ordinary_collecting Environment.tidies_force).bind fun _ => ordinary_pure count
  | runBytecode fuel bytes file =>
    refine (ordinary_attempt (ordinary_onMain (Exec.keeps_runFile (hexecute fuel) bytes file))).bind
      fun result => ?_
    exact ordinary_safePoint.bind fun _ => ordinary_release result
  | callFunction fuel name =>
    refine hdiscard (ordinary_environment.bind fun env => ?_)
    split
    · exact ordinary_pure false
    · split
      · refine (ordinary_attempt (ordinary_ofExec (Exec.keeps_runValue (hexecute fuel) _ []))).bind
          fun result => ?_
        exact ordinary_safePoint.bind fun _ => ordinary_pure _
      · exact ordinary_pure false
  | runEvent fuel h event args =>
    refine hdiscard ((ordinary_attempt (ordinary_ofExec
      (Exec.keeps_runEvent (hexecute fuel) h _ args))).bind fun result => ?_)
    exact ordinary_safePoint.bind fun _ => ordinary_shielded false result
  | invokeWithDefault fuel h event native args =>
    refine hdiscard ((ordinary_attempt (ordinary_ofExec
      (Exec.keeps_invokeWithDefault (hexecute fuel) h _ native args))).bind fun result => ?_)
    exact ordinary_safePoint.bind fun _ => ordinary_shielded .null result
  | requestCollection => exact hdiscard (ordinary_collecting Environment.tidies_request)
  | forceCollection => exact hdiscard (ordinary_collecting Environment.tidies_force)
  | _ => exact hq.elim

theorem acts_after [Machine.AdmitsRuns R] (hexecute : ∀ fuel, Exec.Keeps R (Exec.execute fuel))
    {q : Request} (hq : q.IsOrdinary) (r : Registry) : Acts R r (q.after r) := by
  have hleaves := ordinary_operation hexecute hq r
  unfold Request.after
  cases hrun : q.operation r with
  | ok _ r' => exact (hleaves.ok hrun).1
  | error e r' => exact hleaves.error hrun

/-! ### Binding instances -/

/-- An operation is to bind an instance to a native object. It may do nothing of the sort, it may
bind one and fail after that, or it gives the instance that it bound, which is a root then. -/
inductive Binds (e : EntityId) (r : Registry) : Option Handle → Registry → Prop
  | refused {r' : Registry} : r'.vm.env = r.vm.env → Binds e r none r'
  | failed {c h : Handle} {env : Environment} {m : Machine} : r.vm.env.newEntity c e = (h, env) →
      Machine.Steady ⟨env, r.main.thread⟩ m → Binds e r none (r.ran m)
  | made {c h : Handle} {env : Environment} {m : Machine} : r.vm.env.newEntity c e = (h, env) →
      Machine.Steady ⟨env, r.main.thread⟩ m →
      Binds e r (some h) ((r.ran m).withEnv (m.env.addRoot (.object h)))

/-- What the outcome of an action gives, and the registry that it leaves. -/
def Binds.Outcome (e : EntityId) (r : Registry) :
    EStateM.Result (Halt RegistryError) Registry Handle → Prop
  | .ok h r' => Binds e r (some h) r'
  | .error _ r' => Binds e r none r'

/-- An action on the first thread binds an instance if it makes one and goes on steadily. -/
theorem binds_onMain {x : Exec Handle} {e : EntityId} {c : Handle} {y : Handle → Exec Handle}
    (hx : x r.main = (Exec.onEnvironment (·.newEntity c e) >>= y) r.main)
    (hy : ∀ h, Exec.Keeps Machine.Steady (y h)) (hsame : ∀ h m k m', y h m = .ok k m' → k = h) :
    Binds.Outcome e r ((do
      let h ← onMain (.ofExec x)
      mapEnvironment (·.addRoot (.object h))
      return h : Operation Handle) r) := by
  obtain ⟨h, env, hnew⟩ : ∃ h env, r.vm.env.newEntity c e = (h, env) := ⟨_, _, rfl⟩
  have hfirst : Exec.onEnvironment (·.newEntity c e) r.main = .ok h ⟨env, r.main.thread⟩ := by
    unfold Exec.onEnvironment
    exact congrArg (fun p => EStateM.Result.ok p.1 (Machine.mk p.2 r.main.thread)) hnew
  rw [Exec.bind_of_ok hfirst] at hx
  have hsteady := hy h ⟨env, r.main.thread⟩
  have hmain := Traced.onMain_eq (Load.ofExec x) r
  cases hrun : y h ⟨env, r.main.thread⟩ with
  | ok k m =>
    obtain rfl := hsame h _ k m hrun
    rw [Exec.after_of_ok hrun] at hsteady
    have hload : Load.ofExec x r.main = .ok k m := adaptExcept_of_ok (hx.trans hrun) _
    rw [hload] at hmain
    rw [show _ = _ from (Exec.bind_of_ok hmain).trans (Exec.bind_of_ok rfl)]
    exact .made hnew hsteady
  | error e' m =>
    rw [Exec.after_of_error hrun] at hsteady
    have hload : Load.ofExec x r.main = .error (e'.map .vm) m :=
      adaptExcept_of_error (hx.trans hrun) _
    rw [hload] at hmain
    rw [show _ = _ from Exec.bind_of_error hmain]
    exact .failed hnew hsteady

/-- An action on the first thread that fails at once binds nothing. -/
theorem binds_fault {x : Exec Handle} {e : EntityId} {cause : Cause}
    (hx : x r.main = Exec.fault cause r.main) :
    Binds.Outcome e r ((do
      let h ← onMain (.ofExec x)
      mapEnvironment (·.addRoot (.object h))
      return h : Operation Handle) r) := by
  have hmain := Traced.onMain_eq (Load.ofExec x) r
  have hload : Load.ofExec x r.main = .error _ r.main := adaptExcept_of_error hx _
  rw [hload] at hmain
  rw [show _ = _ from Exec.bind_of_error hmain]
  exact .refused rfl

theorem binds_spawn (fuel : Nat) (className : String) (e : EntityId) (r : Registry) :
    Binds.Outcome e r (spawnEntity fuel className e r) := by
  have hspawn : spawnEntity fuel className e r = _ := Exec.bind_of_ok rfl
  rw [hspawn]
  cases hc : r.vm.env.classByName? className with
  | none => exact .refused rfl
  | some c =>
    dsimp only
    have hx : Exec.spawn (Exec.execute fuel) c e r.main = _ := Exec.bind_of_ok rfl
    by_cases hclass : r.main.env.heap.isClass c = true
    · rw [if_pos hclass] at hx
      refine binds_onMain hx (fun h => ?_) fun h m k m' hk => ?_
      · refine Exec.keeps_environment.bind fun env => (Exec.keeps_report _ _).bind fun _ => ?_
        exact (Exec.keeps_callInitializer (Exec.keeps_steady_execute fuel) h).bind fun _ =>
          Exec.keeps_pure h
      · -- all that is done after the instance was made gives the instance
        obtain ⟨_, m₁, -, hk⟩ := Exec.bind_eq_ok.1 hk
        obtain ⟨_, m₂, -, hk⟩ := Exec.bind_eq_ok.1 hk
        obtain ⟨_, m₃, -, hk⟩ := Exec.bind_eq_ok.1 hk
        cases hk
        rfl
    · rw [if_neg hclass] at hx
      exact binds_fault hx

/-- Fields that are added to an instance do not change what it is bound to. -/
theorem steady_addMissingFields (h : Handle) (fields : List (UInt32 × Value)) (env : Environment) :
    env.Steady (Environment.addMissingFields h fields env) := by
  refine env.steady_mapHeap (env.heap.steady_modify h ?_ ?_)
  · exact fun o => by cases o <;> rfl
  · exact fun o => by cases o <;> rfl

theorem binds_clone (source : Handle) (e : EntityId) (r : Registry) :
    Binds.Outcome e r (cloneEntity source e r) := by
  have hx : Exec.cloneEntity source e r.main = _ := Exec.bind_of_ok rfl
  cases hi : r.main.env.heap.instance? source with
  | none =>
    rw [hi] at hx
    exact binds_fault hx
  | some i =>
    rw [hi] at hx
    refine binds_onMain (hx.trans (Exec.bind_of_ok rfl)) (fun h => ?_) fun h m k m' hk => ?_
    · exact (Exec.keeps_steady_mapEnvironment (steady_addMissingFields h _)).bind fun _ =>
        Exec.keeps_pure h
    · obtain ⟨_, m₁, -, hk⟩ := Exec.bind_eq_ok.1 hk
      cases hk
      rfl

/-! ### Taking everything down -/

/-- A disposal resets the threads, collects twice and clears the loader. Either collection may leave
the range of sizes, and then nothing after it is done. -/
theorem dispose_cases (r : Registry) :
    ∃ env₁ env₂ env₃,
      r.vm.env.keepDefinitions.Tidied r.vm.resetThreads.threads.toList env₁ ∧
      env₁.forget.Purged [] env₂ ∧
      Environment.Chatter { env₂ with loader := env₂.loader.map Loader.clear } env₃ ∧
      ((dispose r = .error .overflow ⟨⟨env₁, r.vm.resetThreads.threads⟩, r.config⟩ ∧
          (r.vm.env.heap.collect
            (r.vm.env.keepDefinitions.roots r.vm.resetThreads.threads.toList)).overflow = true) ∨
        dispose r = if (env₁.heap.collect []).overflow then
            .error .overflow ⟨⟨env₂, r.vm.resetThreads.threads⟩, r.config⟩
          else .ok () ⟨⟨env₃, r.vm.resetThreads.threads⟩, r.config⟩) := by
  obtain ⟨env₁, env₂, htidied, hpurged, hdispose⟩ :=
    Environment.dispose_cases r.vm.resetThreads.threads.toList r.vm.env
  refine ⟨env₁, env₂, _, htidied, hpurged,
    Environment.chatter_report _ fun _ => "Disposed script registry", ?_⟩
  rcases hdispose with ⟨hfirst, hover⟩ | hsecond
  · exact .inl
      ⟨Exec.bind_of_error ((collecting_dispose r).trans (collecting_of_error hfirst)), hover⟩
  · refine .inr ?_
    split
    · rename_i hover
      rw [if_pos hover] at hsecond
      exact Exec.bind_of_error ((collecting_dispose r).trans (collecting_of_error hsecond))
    · rename_i hover
      rw [if_neg hover] at hsecond
      exact (Exec.bind_of_ok ((collecting_dispose r).trans (collecting_of_ok hsecond))).trans
        (Exec.bind_of_ok rfl)

/-! ### What operations uphold -/

/-- An operation upholds a property of registries, whether it succeeds or not. -/
def Operation.Upholds (P : Registry → Prop) (x : Operation α) : Prop :=
  ∀ r, P r → Leaves r x P fun _ _ => True

theorem Operation.Upholds.bind {P : Registry → Prop} {x : Operation α} {g : α → Operation β}
    (hx : x.Upholds P) (hg : ∀ a, (g a).Upholds P) : Operation.Upholds P (x >>= g) :=
  fun r hr => (hx r hr).bind fun a r₁ hr₁ _ => hg a r₁ hr₁

theorem Operation.Upholds.after {P : Registry → Prop} {q : Request} (hq : q.operation.Upholds P)
    (h : P r) : P (q.after r) := by
  have hleaves := hq r h
  unfold Request.after
  cases hrun : q.operation r with
  | ok _ r' => exact (hleaves.ok hrun).1
  | error e r' => exact hleaves.error hrun

/-- A property that depends on the memory, the natives and the presence of a loader, and survives
collections, the unlinking of instances and a reset of the threads. -/
structure Lasting (P : Registry → Prop) : Prop where
  environment {r : Registry} {env : Environment} : P r → env.memory = r.vm.env.memory →
    env.natives = r.vm.env.natives → env.loader.isSome = r.vm.env.loader.isSome → P (r.withEnv env)
  collected {r : Registry} (roots : List Handle) : P r →
    P (r.withEnv { r.vm.env with memory := (r.vm.env.memory.collect roots).2 })
  unlinked {r : Registry} (h : Handle) : P r → P (r.withEnv (r.vm.env.unlink h))
  reset {r : Registry} : P r → P ⟨r.vm.resetThreads, r.config⟩

/-- A lasting property that also survives what keeps a relation on the first thread. -/
structure Upheld (R : Machine → Machine → Prop) (P : Registry → Prop) : Prop extends Lasting P where
  run {r : Registry} {m : Machine} : P r → R r.main m → P (r.ran m)

section Lasting

variable {P : Registry → Prop} {env : Environment} {roots : List Handle} {threads : List Thread}

namespace Lasting

theorem chatter (hP : Lasting P) (h : P r) (hc : r.vm.env.Chatter env) : P (r.withEnv env) := by
  obtain ⟨log, -, rfl⟩ := hc
  exact hP.environment h rfl rfl rfl

theorem purged (hP : Lasting P) (h : P r) (hp : r.vm.env.Purged roots env) : P (r.withEnv env) :=
  hP.chatter (r := r.withEnv { r.vm.env with memory := (r.vm.env.memory.collect roots).2 })
    (hP.collected roots h) hp

theorem tidied (hP : Lasting P) (h : P r) (ht : r.vm.env.Tidied threads env) : P (r.withEnv env) :=
  ht.elim (hP.chatter h) (hP.purged h)

theorem dispose (hP : Lasting P) : dispose.Upholds P := by
  intro r hr
  obtain ⟨env₁, env₂, env₃, htidied, hpurged, hchatter, hdispose⟩ := dispose_cases r
  let reset : Registry := ⟨r.vm.resetThreads, r.config⟩
  have hkept : P (reset.withEnv r.vm.env.keepDefinitions) :=
    hP.environment (hP.reset hr) rfl rfl rfl
  have hfirst : P (reset.withEnv env₁) :=
    hP.tidied (r := reset.withEnv r.vm.env.keepDefinitions) hkept htidied
  have hforgotten : P (reset.withEnv env₁.forget) :=
    hP.environment (r := reset.withEnv env₁) hfirst rfl rfl rfl
  have hsecond : P (reset.withEnv env₂) :=
    hP.purged (r := reset.withEnv env₁.forget) hforgotten hpurged
  rcases hdispose with ⟨hrun, -⟩ | hrun
  · exact leaves_of_error hrun hfirst
  · split at hrun
    · exact leaves_of_error hrun hsecond
    · let cleared := { env₂ with loader := env₂.loader.map Loader.clear }
      have hcleared : P (reset.withEnv cleared) :=
        hP.environment (r := reset.withEnv env₂) hsecond rfl rfl (Option.isSome_map ..)
      have hlast : P (reset.withEnv env₃) :=
        hP.chatter (r := reset.withEnv cleared) hcleared hchatter
      exact leaves_of_ok hrun hlast trivial

/-- Making an instance a root. -/
theorem addRoot (hP : Lasting P) {x : Operation Handle} (hx : x.Upholds P) :
    Operation.Upholds P (do
      let h ← x
      mapEnvironment (·.addRoot (.object h))
      return h) := by
  refine hx.bind fun h => ?_
  refine Operation.Upholds.bind (x := mapEnvironment (·.addRoot (.object h))) ?_ fun _ r hr =>
    ⟨hr, trivial⟩
  exact fun r hr => ⟨hP.environment hr rfl rfl rfl, trivial⟩

end Lasting

namespace Upheld

theorem act (hP : Upheld R P) (h : P r) (ha : Act R r r') : P r' := by
  cases ha with
  | run hrun => exact hP.run h hrun
  | report level text => exact hP.environment h rfl rfl rfl
  | tidy ht => exact hP.tidied h ht

theorem acts (hP : Upheld R P) (h : P r) (ha : Acts R r r') : P r' := by
  induction ha with
  | refl => exact h
  | tail _ hact ih => exact hP.act ih hact

theorem ordinary (hP : Upheld R P) {x : Operation α} (hx : x.Ordinary R) : x.Upholds P :=
  fun r hr => (hx r).imp (fun _ => hP.acts hr) fun _ _ h => h

/-- **What survives the elements of operations survives all requests.** -/
theorem operation [Machine.AdmitsRuns R] (hP : Upheld R P)
    (hexecute : ∀ fuel, Exec.Keeps R (Exec.execute fuel))
    (hnew : ∀ c e, Exec.Keeps R (Exec.onEnvironment (·.newEntity c e)))
    (hfields : ∀ h fields,
      Exec.Keeps R (Exec.mapEnvironment (Environment.addMissingFields h fields)))
    (q : Request) : q.operation.Upholds P := by
  have hordinary (hq : q.IsOrdinary) : q.operation.Upholds P :=
    hP.ordinary (ordinary_operation hexecute hq)
  have hdiscard {x : Operation Handle} (hx : x.Upholds P) : Operation.Upholds P (do let _ ← x) :=
    hx.bind fun _ => hP.ordinary (ordinary_pure ())
  cases q with
  | spawnEntity fuel className e =>
    refine hdiscard ((hP.ordinary ordinary_environment).bind fun env => ?_)
    split
    · exact hP.ordinary (ordinary_throw _)
    · exact hP.addRoot (hP.ordinary (ordinary_ofExec (Exec.keeps_spawn (hexecute fuel) hnew _ e)))
  | cloneEntity source e =>
    exact hdiscard
      (hP.addRoot (hP.ordinary (ordinary_ofExec (Exec.keeps_cloneEntity hnew hfields source e))))
  | unlinkEntity h =>
    intro r hr
    exact ⟨hP.environment (r := r.withEnv (r.vm.env.unlink h)) (hP.unlinked h hr) rfl rfl
      rfl, trivial⟩
  | dispose => exact hP.dispose
  | _ => exact hordinary trivial

end Upheld
end Lasting

end Registry
end ScriptVm
