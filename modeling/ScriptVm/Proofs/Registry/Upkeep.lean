import ScriptVm.Proofs.Heap.Generations
import ScriptVm.Proofs.Registry.EntityLifetime

/-!
# Registries in order

Whatever a host does with a registry, and whatever scripts do, the accounts of its heap agree with
the objects there are, and its natives, its loader and its threads stay.

* `Environment.InOrder` and `Registry.InOrder` say so. The first lemmas are about the elements of
  operations: runs, collections, and the binding and unlinking of instances.
* `Managed` are the registries that a host comes to by requests and by nearly anything else between
  them; `Managed.inOrder` is the result for them.
-/

namespace ScriptVm

variable {natives : Natives}

/-- Slots and accounts stay in order. -/
theorem Heap.inOrder_run (ops : List Heap.Operation) {heap : Heap} (hs : heap.Slotted)
    (ha : heap.Accounted) : (heap.run ops).Slotted ∧ (heap.run ops).Accounted := by
  induction ops generalizing heap with
  | nil => exact ⟨hs, ha⟩
  | cons op rest ih =>
    cases op with
    | alloc o => exact ih (slotted_alloc hs o) (accounted_alloc hs ha o)
    | free h =>
      rcases ha.release_cases h with heq | ⟨o, hfree⟩
      · have hsame : heap.operate (.free h) = heap := heq
        rw [run, hsame]
        exact ih hs ha
      · exact ih (slotted_free hs hfree) (accounted_free ha hfree)
    | collect roots => exact ih (slotted_collect hs roots) (accounted_collect hs ha roots)
    | modify h f hf => exact ih (slotted_modify hs h f) (accounted_modify ha fun o _ => hf o)

/-! ### Environments -/

namespace Environment

variable {env env' : Environment} {roots : List Handle} {threads : List Thread}

/-- Slots and accounts are in order, the natives are those of the host, and there is a loader. -/
structure InOrder (natives : Natives) (env : Environment) : Prop where
  slotted : env.heap.Slotted
  accounted : env.heap.Accounted
  natives_eq : env.natives = natives
  loader : env.loader.isSome = true

theorem InOrder.steady (h : env.InOrder natives) (hst : env.Steady env') :
    env'.InOrder natives where
  slotted := hst.memory.heap.slotted h.slotted
  accounted := hst.memory.heap.accounted h.slotted h.accounted
  natives_eq := hst.natives.trans h.natives_eq
  loader := by
    have hsome := congrArg Option.isSome hst.classMap
    rw [Option.isSome_map, Option.isSome_map] at hsome
    exact hsome.trans h.loader

theorem InOrder.chatter (h : env.InOrder natives) (hc : env.Chatter env') :
    env'.InOrder natives := by
  obtain ⟨log, -, rfl⟩ := hc
  exact ⟨h.slotted, h.accounted, h.natives_eq, h.loader⟩

theorem InOrder.purged (h : env.InOrder natives) (hp : env.Purged roots env') :
    env'.InOrder natives := by
  have hheap := heap_collect_memory env.memory roots
  have hcollected : InOrder natives { env with memory := (env.memory.collect roots).2 } := by
    refine ⟨?_, ?_, h.natives_eq, h.loader⟩
    · show (env.memory.collect roots).2.heap.Slotted
      exact hheap ▸ Heap.slotted_collect h.slotted roots
    · show (env.memory.collect roots).2.heap.Accounted
      exact hheap ▸ Heap.accounted_collect h.slotted h.accounted roots
  exact hcollected.chatter hp

theorem InOrder.tidied (h : env.InOrder natives) (ht : env.Tidied threads env') :
    env'.InOrder natives :=
  ht.elim h.chatter h.purged

theorem InOrder.alloc (h : env.InOrder natives) (o : Obj) : (env.alloc o).2.InOrder natives :=
  ⟨Heap.slotted_alloc h.slotted o, Heap.accounted_alloc h.slotted h.accounted o, h.natives_eq,
    h.loader⟩

theorem InOrder.newEntity (h : env.InOrder natives) (c : Handle) (e : EntityId) :
    (env.newEntity c e).2.InOrder natives :=
  (h.alloc _).steady (env.steady_newEntity c e)

theorem InOrder.unlink (h : env.InOrder natives) (k : Handle) : (env.unlink k).InOrder natives where
  slotted := Heap.slotted_modify h.slotted k _
  accounted := Heap.accounted_modify h.accounted fun o _ => by cases o <;> rfl
  natives_eq := h.natives_eq
  loader := h.loader

end Environment

/-! ### Runs -/

namespace Machine

variable {m m' m'' : Machine}

/-- The thread is the same one, and the environment stays in order. -/
structure Orders (natives : Natives) (m m' : Machine) : Prop where
  id : m'.thread.id = m.thread.id
  env : m.env.InOrder natives → m'.env.InOrder natives

theorem Steady.orders (hn : natives.Steady) (h : m.Steady m') : m.Orders natives m' :=
  ⟨h.id, fun henv => henv.steady (h.env (henv.natives_eq ▸ hn))⟩

/-- With steady natives, what is allowed to be steady is allowed to keep things in order. -/
theorem admitsRuns_orders (hn : natives.Steady) : AdmitsRuns (Orders natives) where
  trans _ _ _ h h' := ⟨h'.id.trans h.id, fun henv => h'.env (h.env henv)⟩
  refl m := (Admits.refl (R := Steady) m).orders hn
  stack m g := (Admits.stack (R := Steady) m g).orders hn
  register m v := (Admits.register (R := Steady) m v).orders hn
  enter m f := (Admits.enter (R := Steady) m f).orders hn
  edit m env h := (Admits.edit (R := Steady) m env h).orders hn
  native m name args := (AdmitsNatives.native (R := Steady) m name args).orders hn
  thread m t h := (AdmitsRuns.thread (R := Steady) m t h).orders hn
  loaded m loader classes h := (AdmitsRuns.loaded (R := Steady) m loader classes h).orders hn

end Machine

namespace Exec

open Machine (Orders Steady)

/-- What is steady keeps things in order. -/
theorem Keeps.orders {ε α : Type} {x : EStateM (Halt ε) Machine α} (hn : natives.Steady)
    (hx : Keeps Steady x) : Keeps (Orders natives) x :=
  hx.mono fun _ _ h => h.orders hn

theorem orders_newEntity (c : Handle) (e : EntityId) :
    Keeps (Orders natives) (onEnvironment (·.newEntity c e)) :=
  fun _ => ⟨rfl, fun henv => henv.newEntity c e⟩

end Exec

/-! ### Requests -/

namespace Registry

variable {r r' : Registry}

/-- The environment is in order, and the threads are those that the configuration asks for. -/
structure InOrder (natives : Natives) (r : Registry) : Prop where
  env : r.vm.env.InOrder natives
  threads : r.vm.threads.toList.map Thread.id = List.range r.config.threads

theorem InOrder.withEnv (h : r.InOrder natives) {env : Environment} (henv : env.InOrder natives) :
    (r.withEnv env).InOrder natives :=
  ⟨henv, h.threads⟩

theorem InOrder.ran (h : r.InOrder natives) {m : Machine} (hm : r.main.Orders natives m) :
    (r.ran m).InOrder natives := by
  refine ⟨hm.env h.env, Eq.trans ?_ h.threads⟩
  have hid := hm.id
  unfold Registry.ran
  unfold Registry.main at hid
  rw [Array.toList_setIfInBounds, List.map_set, hid, ← Array.getElem?_toList]
  cases r.vm.threads.toList with
  | nil => rfl
  | cons t rest => rfl

/-- Being in order is a matter of memory, natives and loader, and of the numbers of the threads. -/
theorem lasting_inOrder : Lasting (InOrder natives) where
  environment h hmemory hnatives hloader := h.withEnv
    ⟨by rw [Environment.heap, hmemory]; exact h.env.slotted,
      by rw [Environment.heap, hmemory]; exact h.env.accounted,
      hnatives.trans h.env.natives_eq, hloader.trans h.env.loader⟩
  collected roots h := h.withEnv (h.env.purged (.refl _))
  unlinked k h := h.withEnv (h.env.unlink k)
  reset {r} h := by
    refine ⟨h.env, Eq.trans ?_ h.threads⟩
    show (r.vm.threads.map Thread.reset).toList.map Thread.id = _
    rw [Array.toList_map, List.map_map]
    rfl

theorem upheld_inOrder : Upheld (Machine.Orders natives) (InOrder natives) :=
  { lasting_inOrder with run := fun h hm => h.ran hm }

theorem orderly_dispose : dispose.Upholds (InOrder natives) := lasting_inOrder.dispose

theorem orderly_operation (hn : natives.Steady) (q : Request) :
    q.operation.Upholds (InOrder natives) := by
  have := Machine.admitsRuns_orders hn
  refine upheld_inOrder.operation (fun fuel => (Exec.keeps_steady_execute fuel).orders hn)
    Exec.orders_newEntity (fun h fields => ?_) q
  exact (Exec.keeps_steady_mapEnvironment (steady_addMissingFields h fields)).orders hn

theorem InOrder.after (hn : natives.Steady) (h : r.InOrder natives) (q : Request) :
    (q.after r).InOrder natives :=
  (orderly_operation hn q).after h

/-! ### What hosts do -/

/-- What a host does between requests: anything, but that natives, configuration and the number of
threads stay, and there is a loader. -/
structure Minds (r r' : Registry) : Prop where
  heap : ∃ ops, r'.vm.env.heap = r.vm.env.heap.run ops
  natives : r'.vm.env.natives = r.vm.env.natives
  loader : r'.vm.env.loader.isSome = true
  config : r'.config = r.config
  threads : r'.vm.threads.toList.map Thread.id = r.vm.threads.toList.map Thread.id

/-- The registries that a host comes to. -/
inductive Managed (natives : Natives) : Registry → Prop
  | new (config : Config) (source : Source) (log : Log) :
    Managed natives (Registry.new config source natives log)
  | request {r : Registry} (q : Request) : Managed natives r → Managed natives (q.after r)
  | host {r r' : Registry} : Managed natives r → r.Minds r' → Managed natives r'

theorem inOrder_new (config : Config) (source : Source) (log : Log) :
    (Registry.new config source natives log).InOrder natives := by
  refine ⟨⟨Heap.slotted_withThreshold _ _, Heap.accounted_withThreshold _ _, rfl, rfl⟩, ?_⟩
  show (((Array.range config.threads).map Thread.new).map _).toList.map Thread.id = _
  rw [Array.toList_map, Array.toList_map, List.map_map, List.map_map, Array.toList_range]
  exact List.map_id _

/-- **All registries that a host comes to are in order.** -/
theorem Managed.inOrder (hn : natives.Steady) (hr : Managed natives r) : r.InOrder natives := by
  induction hr with
  | new config source log => exact inOrder_new config source log
  | request q _ ih => exact ih.after hn q
  | host _ hminds ih =>
    obtain ⟨ops, hheap⟩ := hminds.heap
    obtain ⟨hslotted, haccounted⟩ := Heap.inOrder_run ops ih.env.slotted ih.env.accounted
    refine ⟨⟨hheap ▸ hslotted, hheap ▸ haccounted, hminds.natives.trans ih.env.natives_eq,
      hminds.loader⟩, ?_⟩
    rw [hminds.threads, hminds.config, ih.threads]

end Registry
end ScriptVm
