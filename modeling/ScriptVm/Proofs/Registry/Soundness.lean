import Mathlib.Logic.Relation
import ScriptVm.Registry
import ScriptVm.Proofs.Environment.Retention
import ScriptVm.Proofs.Machine.Execution

/-!
# Operations of a registry keep what is held

* `NativeFunction.Tame` is what is asked of natives: they place and change objects, with handles
  that find objects, and give such a handle if any.
* `Registry.Sound` says that every handle that is held finds an object. `leaves_loadScript` to
  `leaves_dispose` are the operations, one lemma for each; between scripts and collections they
  share `leaves_onMain` and `leaves_collecting`.
-/

namespace ScriptVm

open Contract

/-! ### What a host may do -/

namespace Heap

/-- A host places an object or changes one; the handles that it puts in find objects. -/
inductive HostStep (heap : Heap) : Heap → Prop
  | place {o : Obj} : (∀ k ∈ o.children, heap.contains k = true) → HostStep heap (heap.alloc o).2
  | change {h : Handle} {f : Obj → Obj} :
    (∀ o, heap.get? h = some o → ∀ k ∈ (f o).children, heap.contains k = true) →
      HostStep heap (heap.modify h f)

/-- What a host does to a heap, step by step. -/
def Hosted : Heap → Heap → Prop := Relation.ReflTransGen HostStep

variable {heap heap' : Heap}

theorem HostStep.good (hs : HostStep heap heap') (hg : alive.GoodHeap heap) :
    alive.GoodHeap heap' ∧ alive.Grows heap heap' := by
  cases hs with
  | place ho =>
    obtain ⟨hgood, hgrows, -⟩ := hg.alloc ⟨fun k hk _ => ho k hk, False.elim⟩
    exact ⟨hgood, hgrows⟩
  | change hf =>
    exact ⟨hg.modify fun o ho => ⟨fun k hk _ => hf o ho k hk, False.elim⟩, grows_modify _ _ _⟩

theorem Hosted.good (hh : Hosted heap heap') (hg : alive.GoodHeap heap) :
    alive.GoodHeap heap' ∧ alive.Grows heap heap' := by
  induction hh with
  | refl => exact ⟨hg, .refl _ _⟩
  | tail _ hstep ih =>
    obtain ⟨hgood, hgrows⟩ := hstep.good ih.1
    exact ⟨hgood, ih.2.trans hgrows⟩

end Heap

/-- A native that is given handles that find objects hands over such handles only. -/
def NativeFunction.Tame (f : NativeFunction) : Prop :=
  ∀ (mem : Memory) args, mem.heap.Slotted → mem.heap.Closed →
    (∀ h ∈ Obj.handlesOf args.toList, mem.heap.contains h = true) →
      mem.heap.Hosted (f mem args).2.heap ∧
        ∀ v h, (f mem args).1 = .ok v → v.object? = some h → (f mem args).2.heap.contains h = true

/-- All natives are tame. -/
def Natives.Tame (natives : Natives) : Prop := ∀ name, NativeFunction.Tame (natives name)

theorem Natives.Tame.respects {natives : Natives} (hn : natives.Tame) : alive.Respects natives := by
  intro name mem args hheap hargs
  have hlive : ∀ h ∈ Obj.handlesOf args.toList, mem.heap.contains h = true := fun h hh =>
    finds_alive.1 (forall_handlesOf.2 (fun v hv => hargs v (Array.mem_toList_iff.1 hv)) h hh)
  obtain ⟨hslotted, hclosed⟩ := goodHeap_alive.1 hheap
  obtain ⟨hhosted, hresult⟩ := hn name mem args hslotted hclosed hlive
  obtain ⟨hgood, hgrows⟩ := hhosted.good hheap
  exact ⟨hgood, hgrows, fun v hv h hh => finds_alive.2 (hresult v h hv hh)⟩

namespace Registry

variable {α : Type} {r : Registry}

/-- Every handle that a root or an object holds finds an object. -/
def Sound (r : Registry) : Prop := r.vm.env.Sound r.vm.threads.toList

theorem goodThread_new (heap : Heap) (id : Nat) : alive.GoodThread heap (.new id) :=
  goodThread_idle rfl rfl good_null

theorem leaves_environment_bind {β : Type} {g : Environment → Operation β} {P : Registry → Prop}
    {Q : β → Registry → Prop} :
    Leaves r (environment >>= g) P Q ↔ Leaves r (g r.vm.env) P Q := Iff.rfl

/-! ### Scripts -/

/-- What is safe on a machine keeps the registry sound. -/
theorem leaves_onMain {x : Load α} {Q : α → Environment → Prop} (hs : r.Sound)
    (hx : ∀ m, alive.GoodMachine m → m.env = r.vm.env → alive.Safe m x fun a m' => Q a m'.env) :
    Leaves r (onMain x) Sound fun a r' => Q a r'.vm.env := by
  obtain ⟨⟨env, threads⟩, config⟩ := r
  have hmain : alive.GoodThread env.heap (threads[0]?.getD (.new 0)) := by
    cases ht : threads[0]? with
    | none => exact goodThread_new _ 0
    | some t =>
      exact Environment.Sound.goodThread hs (Array.mem_toList_iff.2 (Array.mem_of_getElem? ht))
  have hrun := hx ⟨env, threads[0]?.getD (.new 0)⟩ ⟨hs.goodEnvironment, hmain⟩ rfl
  -- the other threads only see the heap grow
  have hsound : ∀ m', alive.GoodMachine m' →
      alive.Continues ⟨env, threads[0]?.getD (.new 0)⟩ m' →
        Sound ⟨⟨m'.env, threads.setIfInBounds 0 m'.thread⟩, config⟩ := by
    intro m' hm' hc'
    refine Environment.sound_of_good hm'.env fun t ht => ?_
    rcases Array.mem_or_eq_of_mem_setIfInBounds (Array.mem_toList_iff.1 ht) with ht | rfl
    · exact (Environment.Sound.goodThread hs (Array.mem_toList_iff.2 ht)).mono hc'.grows
    · exact hm'.thread
  unfold Safe at hrun
  unfold Leaves onMain Vm.onThread
  dsimp only
  split at hrun
  · rename_i a m' heq
    rw [heq]
    exact ⟨hsound m' hrun.1 hrun.2.1, hrun.2.2⟩
  · rename_i e m' heq
    rw [heq]
    exact hsound m' hrun.1 hrun.2.1

/-- A kept error is a result like any other. -/
theorem leaves_attempt {x : Operation α} {P : Registry → Prop} {Q : α → Registry → Prop}
    (hx : Leaves r x P Q) : Leaves r (attempt x) P fun _ _ => True := by
  unfold Leaves at hx ⊢
  unfold attempt
  split at hx
  · rename_i heq
    rw [heq]
    exact ⟨hx.1, trivial⟩
  · rename_i e r' heq
    rw [heq]
    cases e with
    | error e => exact ⟨hx, trivial⟩
    | outOfFuel => exact hx
    | overflow => exact hx

/-- Running something on the first thread and keeping its error. -/
theorem leaves_attempt_onMain {x : Load α} (hs : r.Sound)
    (hx : ∀ m, alive.GoodMachine m → m.env = r.vm.env → alive.Safe m x fun _ _ => True) :
    Leaves r (attempt (onMain x)) Sound fun _ _ => True :=
  leaves_attempt (leaves_onMain (Q := fun _ _ => True) hs hx)

theorem leaves_mapEnvironment {f : Environment → Environment}
    (hs : (f r.vm.env).Sound r.vm.threads.toList) :
    Leaves r (mapEnvironment f) Sound fun _ _ => True :=
  ⟨hs, trivial⟩

theorem leaves_report (hs : r.Sound) (level : Level) (text : Unit → String) :
    Leaves r (report level text) Sound fun _ _ => True :=
  leaves_mapEnvironment (Environment.Sound.report hs level text)

/-- Growth of the environment alone. -/
theorem sound_of_evolves {f : Environment → Environment} (hs : r.Sound)
    (he : alive.Evolves r.vm.env (f r.vm.env)) : (f r.vm.env).Sound r.vm.threads.toList :=
  Environment.sound_of_good he.good fun _ ht =>
    (Environment.Sound.goodThread hs ht).mono he.grows

/-- Executing is safe for handles, whatever is executed. -/
theorem safeExecutor_execute (fuel : Nat) : alive.SafeExecutor (Exec.execute fuel) := by
  rw [← Exec.watch_true]
  exact safeExecutor_watch ⟨fun _ _ _ _ => .inl rfl, False.elim⟩ fuel

/-! ### Collection -/

theorem leaves_collecting {x : List Thread → Environment.Collect α} {P : Environment → Prop}
    (hx : Leaves r.vm.env (x r.vm.threads.toList)
      (fun env' => env'.Sound r.vm.threads.toList ∧ P env') fun _ _ => True) :
    Leaves r (collecting (Vm.collecting x)) Sound fun _ _ => True := by
  obtain ⟨⟨env, threads⟩, config⟩ := r
  unfold Leaves at hx ⊢
  unfold collecting Vm.collecting
  dsimp only
  split at hx
  · rename_i heq
    rw [heq]
    exact ⟨hx.1.1, trivial⟩
  · rename_i heq
    rw [heq]
    exact hx.1

theorem leaves_forceCollection (hs : r.Sound) :
    Leaves r forceCollection Sound fun _ _ => True :=
  leaves_collecting (Environment.leaves_force hs)

theorem leaves_requestCollection (hs : r.Sound) :
    Leaves r requestCollection Sound fun _ _ => True :=
  leaves_collecting (Environment.leaves_request hs)

theorem leaves_safePoint (hs : r.Sound) : Leaves r safePoint Sound fun _ _ => True := by
  unfold safePoint
  rw [leaves_get_bind]
  split
  · exact (leaves_requestCollection hs).bind fun _ r₁ hs₁ _ => leaves_pure hs₁ trivial
  · exact leaves_pure hs trivial

theorem leaves_dispose (hs : r.Sound) : Leaves r dispose Sound fun _ _ => True := by
  have hreset : ∀ t ∈ (r.vm.threads.map Thread.reset).toList, t.roots = [] := by
    intro t ht
    rw [Array.toList_map, List.mem_map] at ht
    obtain ⟨u, -, rfl⟩ := ht
    rfl
  -- a thread that is reset holds nothing
  have hempty : Sound { r with vm := r.vm.resetThreads } := by
    refine Environment.sound_of_good hs.goodEnvironment fun t ht => ?_
    rw [Vm.resetThreads, Array.toList_map, List.mem_map] at ht
    obtain ⟨u, -, rfl⟩ := ht
    exact { goodThread_new r.vm.env.heap 0 with }
  -- the threads are reset before anything is collected
  have hdispose : Leaves r (collecting Vm.dispose) Sound fun _ _ => True := by
    have hvm : Vm.dispose r.vm = Vm.collecting Environment.dispose r.vm.resetThreads := rfl
    have hrun : collecting Vm.dispose r = collecting (Vm.collecting Environment.dispose)
        { r with vm := r.vm.resetThreads } := by
      obtain ⟨vm, config⟩ := r
      dsimp only [collecting] at hvm ⊢
      rw [hvm]
    unfold Leaves
    rw [hrun]
    exact leaves_collecting (Environment.leaves_dispose hempty hreset)
  refine hdispose.bind fun _ r₁ hs₁ _ => ?_
  have hforgotten : Environment.Sound { r₁.vm.env with loader := r₁.vm.env.loader.map Loader.clear }
      r₁.vm.threads.toList := Environment.Sound.of_subset hs₁ rfl rfl fun _ hh => hh
  exact (leaves_mapEnvironment hforgotten).bind fun _ r₂ hs₂ _ => leaves_report hs₂ _ _

/-! ### Loading -/

theorem leaves_loading {x : Load Bool} (hs : r.Sound) (what : String)
    (hx : ∀ m, alive.GoodMachine m → m.env = r.vm.env → alive.Safe m x fun _ _ => True) :
    Leaves r (loading what x) Sound fun _ _ => True := by
  refine (leaves_attempt_onMain hs hx).bind fun result r₁ hs₁ _ => ?_
  cases result with
  | ok loaded => exact leaves_pure hs₁ trivial
  | error e => exact (leaves_report hs₁ _ _).bind fun _ r₂ hs₂ _ => leaves_pure hs₂ trivial

theorem leaves_loadScript (hs : r.Sound) (fuel : Nat) (file : UInt32) :
    Leaves r (loadScript fuel file) Sound fun _ _ => True := by
  refine (leaves_loading hs _ fun m hm _ => ?_).bind fun loaded r₁ hs₁ _ => ?_
  · exact safe_loadScript hm (safeExecutor_execute fuel) file
  · exact (leaves_safePoint hs₁).bind fun _ r₂ hs₂ _ => leaves_pure hs₂ trivial

theorem leaves_loadClass (hs : r.Sound) (fuel : Nat) (name : String) :
    Leaves r (loadClass fuel name) Sound fun _ _ => True := by
  refine (leaves_loading hs _ fun m hm _ => ?_).bind fun loaded r₁ hs₁ _ => ?_
  · exact safe_loadClass hm (safeExecutor_execute fuel) name
  · exact (leaves_safePoint hs₁).bind fun _ r₂ hs₂ _ => leaves_pure hs₂ trivial

theorem leaves_loadAll (fuel : Nat) (files : List UInt32) (count : Nat) (hs : r.Sound) :
    Leaves r (loadAll fuel files count) Sound fun _ _ => True := by
  induction files generalizing count r with
  | nil => exact leaves_pure hs trivial
  | cons file rest ih =>
    refine (leaves_attempt_onMain hs fun m hm _ =>
      safe_loadScript hm (safeExecutor_execute fuel) file).bind fun result r₁ hs₁ _ => ?_
    match result with
    | .ok true => exact ih (count + 1) hs₁
    | .ok false => exact (leaves_report hs₁ _ _).bind fun _ r₂ hs₂ _ => ih count hs₂
    | .error e => exact (leaves_report hs₁ _ _).bind fun _ r₂ hs₂ _ => ih count hs₂

theorem leaves_loadClasses (hs : r.Sound) (fuel : Nat) :
    Leaves r (loadClasses fuel) Sound fun _ _ => True := by
  have hload : ∀ files, Leaves r (do
      let count ← loadAll fuel files 0
      let _ ← forceCollection
      return count) Sound fun _ _ => True := fun files =>
    (leaves_loadAll fuel files 0 hs).bind fun count r₁ hs₁ _ =>
      (leaves_forceCollection hs₁).bind fun _ r₂ hs₂ _ => leaves_pure hs₂ trivial
  exact hload _

theorem leaves_runBytecode (hs : r.Sound) (fuel : Nat) (bytes : List UInt8) (file : UInt32) :
    Leaves r (runBytecode fuel bytes file) Sound fun _ _ => True := by
  refine (leaves_attempt_onMain hs fun m hm _ =>
    safe_runFile hm (safeExecutor_execute fuel) bytes file).bind fun result r₁ hs₁ _ => ?_
  refine (leaves_safePoint hs₁).bind fun _ r₂ hs₂ _ => ?_
  cases result with
  | ok _ => exact ⟨hs₂, trivial⟩
  | error e => exact hs₂

/-! ### Calls -/

theorem leaves_callFunction (hs : r.Sound) (fuel : Nat) (name : String) :
    Leaves r (callFunction fuel name) Sound fun _ _ => True := by
  have hcall : ∀ callee, r.vm.env.global? name = some callee → Leaves r (do
      let result ← attempt (onMain (.ofExec (Exec.runValue (Exec.execute fuel) callee [])))
      safePoint
      return result.isOk) Sound fun _ _ => True := by
    intro callee hglobal
    refine (leaves_attempt_onMain hs fun m hm henv => ?_).bind fun result r₁ hs₁ _ => ?_
    · have hcallee : alive.Good m.env.heap callee :=
        hm.env.globals callee (Table.mem_values_of_get? (henv ▸ hglobal))
      exact (safe_ofExec (safe_runValue hm (safeExecutor_execute fuel) hcallee (by simp))).forget
    · exact (leaves_safePoint hs₁).bind fun _ r₂ hs₂ _ => leaves_pure hs₂ trivial
  unfold callFunction
  rw [leaves_environment_bind]
  split
  · exact leaves_pure hs trivial
  · rename_i callee hglobal
    split
    · exact hcall callee hglobal
    · exact leaves_pure hs trivial

/-- A new root that finds an object. -/
theorem leaves_addRoot {h : Handle} (hs : r.Sound) (hh : r.vm.env.heap.contains h = true) :
    Leaves r (do
      mapEnvironment (·.addRoot (.object h))
      return h) Sound fun _ _ => True := by
  refine (leaves_mapEnvironment ?_).bind fun _ r₁ hs₁ _ => leaves_pure hs₁ trivial
  have hg := hs.goodEnvironment
  refine Environment.sound_of_good ⟨hg.heap, hg.globals, hg.constants, hg.modules, hg.functions,
    hg.classes, hg.entityBase, ?_, hg.natives⟩ fun t ht => Environment.Sound.goodThread hs ht
  exact forall_mem_push hg.extraRoots (good_object.2 (finds_alive.2 hh))

theorem leaves_spawnEntity (hs : r.Sound) (fuel : Nat) (className : String) (e : EntityId) :
    Leaves r (spawnEntity fuel className e) Sound fun _ _ => True := by
  unfold spawnEntity
  rw [leaves_environment_bind]
  split
  · exact hs
  · rename_i k _
    refine (leaves_onMain (Q := fun h env => env.heap.contains h = true) hs fun m hm _ => ?_).bind
      fun h r₁ hs₁ hh => leaves_addRoot hs₁ hh
    exact (safe_ofExec (safe_spawn hm (safeExecutor_execute fuel) k e)).mono
      fun _ _ _ hq => finds_alive.1 hq

theorem leaves_cloneEntity (hs : r.Sound) (source : Handle) (e : EntityId) :
    Leaves r (cloneEntity source e) Sound fun _ _ => True := by
  refine (leaves_onMain (Q := fun h env => env.heap.contains h = true) hs fun m hm _ => ?_).bind
    fun h r₁ hs₁ hh => leaves_addRoot hs₁ hh
  exact (safe_ofExec (safe_cloneEntity hm source e)).mono fun _ _ _ hq => finds_alive.1 hq

theorem leaves_unlinkEntity (hs : r.Sound) (h : Handle) :
    Leaves r (unlinkEntity h) Sound fun _ _ => True := by
  refine leaves_mapEnvironment ?_
  have hunlinked := sound_of_evolves (f := (·.unlink h)) hs (hs.goodEnvironment.evolves_unlink h)
  refine hunlinked.of_subset rfl rfl (Environment.roots_subset (.refl _) (.refl _) (.refl _)
    (.refl _) (.refl _) (.refl _) fun k hk => ?_)
  obtain ⟨v, hv, hvk⟩ := List.mem_filterMap.1 hk
  rw [Array.toList_filter, List.mem_filter] at hv
  exact List.mem_filterMap.2 ⟨v, hv.1, hvk⟩

/-- Passing a fault on, or reporting it. -/
theorem leaves_shielded (hs : r.Sound) (fallback : α) (result : Except RegistryError α) :
    Leaves r (shielded fallback result) Sound fun _ _ => True := by
  unfold shielded
  split
  · exact leaves_pure hs trivial
  · split
    · exact hs
    · exact (leaves_report hs _ _).bind fun _ r₁ hs₁ _ => leaves_pure hs₁ trivial

theorem leaves_runEvent {args : List Value} (hs : r.Sound) (fuel : Nat) (h : Handle)
    (event : String) (hargs : ∀ k ∈ Obj.handlesOf args, r.vm.env.heap.contains k = true) :
    Leaves r (runEvent fuel h event args) Sound fun _ _ => True := by
  refine (leaves_attempt_onMain hs fun m hm henv => ?_).bind fun result r₁ hs₁ _ => ?_
  · have hgood : ∀ w ∈ args, alive.Good m.env.heap w :=
      forall_handlesOf.1 fun k hk => finds_alive.2 (henv ▸ hargs k hk)
    exact safe_ofExec (safe_runEvent hm (safeExecutor_execute fuel) h _ hgood)
  · exact (leaves_safePoint hs₁).bind fun _ r₂ hs₂ _ => leaves_shielded hs₂ false result

theorem leaves_invokeWithDefault {h : Handle} {args : List Value} (hs : r.Sound) (fuel : Nat)
    (event native : String) (hh : r.vm.env.heap.contains h = true)
    (hargs : ∀ k ∈ Obj.handlesOf args, r.vm.env.heap.contains k = true) :
    Leaves r (invokeWithDefault fuel h event native args) Sound fun _ _ => True := by
  refine (leaves_attempt_onMain hs fun m hm henv => ?_).bind fun result r₁ hs₁ _ => ?_
  · have hgood : ∀ w ∈ args, alive.Good m.env.heap w :=
      forall_handlesOf.1 fun k hk => finds_alive.2 (henv ▸ hargs k hk)
    exact (safe_ofExec (safe_invokeWithDefault hm (safeExecutor_execute fuel) _ native
      (finds_alive.2 (henv ▸ hh)) hgood)).forget
  · exact (leaves_safePoint hs₁).bind fun _ r₂ hs₂ _ => leaves_shielded hs₂ .null result

end Registry
end ScriptVm
