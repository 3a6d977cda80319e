import ScriptVm.Machine.Entity
import ScriptVm.Native.Catalog
import ScriptVm.Proofs.Machine.WholeRuns

/-!
# Runs bind nothing to native objects

Whatever scripts do, no object is removed while they run, no instance is bound to a native
object and none is let go. The extra roots of the host and the class map of its scripts are out
of their reach.

* `Memory.Steady` says so of the memory, `Environment.Steady` also of what belongs to the host.
* `Natives.Steady` is what is asked of natives; `Native.steady_standard` says that those of the
  catalogue meet it.
* `keeps_steady_execute` is the result for whole runs; the lemmas after it are the ways in which a
  host starts one. They hold for every relation that allows runs.
-/

namespace ScriptVm

/-- The heap is steady, and native objects are told nothing. -/
structure Memory.Steady (mem mem' : Memory) : Prop where
  heap : mem.heap.Steady mem'.heap
  entities : mem.entities.size ≤ mem'.entities.size
  count_eq : ∀ e, mem'.reclaimedCount e = mem.reclaimedCount e

theorem Memory.Steady.refl (mem : Memory) : mem.Steady mem := ⟨.refl _, Nat.le_refl _, fun _ => rfl⟩

theorem Memory.Steady.trans {mem mem' mem'' : Memory} (h : mem.Steady mem')
    (h' : mem'.Steady mem'') : mem.Steady mem'' :=
  ⟨h.heap.trans h'.heap, Nat.le_trans h.entities h'.entities,
    fun e => (h'.count_eq e).trans (h.count_eq e)⟩

/-- Natives may place and change objects, but bind none to native objects and let none go. -/
def Natives.Steady (natives : Natives) : Prop :=
  ∀ name (mem : Memory) args, mem.Steady (natives name mem args).2

theorem Memory.steady_alloc (mem : Memory) {o : Obj} (ho : Heap.reclaimedEntity? o = none) :
    mem.Steady (mem.alloc o).2 :=
  ⟨mem.heap.steady_alloc ho, Nat.le_refl _, fun _ => rfl⟩

/-- A native object that is new has been told nothing. -/
theorem Memory.steady_newEntity (mem : Memory) (fields : List (String × Link)) :
    mem.Steady (mem.newEntity fields).2 := by
  refine ⟨.refl _, ?_, fun e => ?_⟩
  · show mem.entities.size ≤ (mem.entities.push ⟨fields, 0⟩).size
    rw [Array.size_push]
    exact Nat.le_succ _
  · show (((mem.entities.push ⟨fields, 0⟩)[e.index]?).map (·.reclaimed)).getD 0 = _
    unfold reclaimedCount
    rw [Array.getElem?_push]
    split
    · rename_i heq
      rw [heq, Array.getElem?_eq_none (Nat.le_refl _)]
      rfl
    · rfl

/-- The natives of the catalogue place objects at most. -/
theorem Native.steady_standard : Natives.Steady standard := by
  have hcatalog : ∀ p ∈ catalog, ∀ (mem : Memory) args, mem.Steady (p.2 mem args).2 := by
    simp only [catalog, List.forall_mem_cons]
    refine ⟨?_, ?_, ?_, ?_, ?_, ?_, ?_, ?_, ?_, ?_, ?_, ?_, fun _ hp => absurd hp List.not_mem_nil⟩
    case refine_8 => exact fun mem args => mem.steady_alloc rfl
    case refine_9 => exact fun mem args => mem.steady_alloc rfl
    all_goals exact fun mem _ => .refl mem
  intro name
  unfold standard
  cases hf : catalog.lookup name with
  | none => exact fun mem _ => .refl mem
  | some f =>
    obtain ⟨before, rest, hsplit, -⟩ := List.lookup_eq_some_iff.1 hf
    exact hcatalog (name, f) (by rw [hsplit]; simp)

namespace Environment

variable {env env' env'' : Environment}

/-- The memory is steady, and what belongs to the host stays. -/
structure Steady (env env' : Environment) : Prop where
  memory : env.memory.Steady env'.memory
  extraRoots : env'.extraRoots = env.extraRoots
  natives : env'.natives = env.natives
  activeThreads : env'.activeThreads = env.activeThreads
  classMap : env'.loader.map (·.source.classMap) = env.loader.map (·.source.classMap)

theorem Steady.refl (env : Environment) : env.Steady env := ⟨.refl _, rfl, rfl, rfl, rfl⟩

theorem Steady.trans (h : env.Steady env') (h' : env'.Steady env'') : env.Steady env'' :=
  ⟨h.memory.trans h'.memory, h'.extraRoots.trans h.extraRoots, h'.natives.trans h.natives,
    h'.activeThreads.trans h.activeThreads, h'.classMap.trans h.classMap⟩

/-- A change of the heap alone. -/
theorem steady_mapHeap (env : Environment) {f : Heap → Heap} (hf : env.heap.Steady (f env.heap)) :
    env.Steady (env.mapHeap f) :=
  ⟨⟨hf, Nat.le_refl _, fun _ => rfl⟩, rfl, rfl, rfl, rfl⟩

theorem PlainEdit.steadily (h : env.PlainEdit env') : env.Steady env' := by
  have hheap := h.steady
  cases h.edit with
  | report level text => exact ⟨.refl _, rfl, rfl, rfl, rfl⟩
  | alloc o => exact ⟨⟨hheap, Nat.le_refl _, fun _ => rfl⟩, rfl, rfl, rfl, rfl⟩
  | modify k hf => exact env.steady_mapHeap hheap
  | constant hash v => exact ⟨.refl _, rfl, rfl, rfl, rfl⟩
  | listing tokens modules functions => exact ⟨.refl _, rfl, rfl, rfl, rfl⟩

end Environment

namespace Machine

/-- The thread is the same one, and with steady natives the environment is steady. -/
structure Steady (m m' : Machine) : Prop where
  id : m'.thread.id = m.thread.id
  env : m.env.natives.Steady → m.env.Steady m'.env

theorem Steady.refl (m : Machine) : m.Steady m := ⟨rfl, fun _ => .refl m.env⟩

theorem Steady.trans {m m' m'' : Machine} (h : m.Steady m') (h' : m'.Steady m'') :
    m.Steady m'' := by
  refine ⟨h'.id.trans h.id, fun hn => ?_⟩
  have hfirst := h.env hn
  exact hfirst.trans (h'.env (hfirst.natives ▸ hn))

instance : AdmitsRuns Steady where
  trans _ _ _ := Steady.trans
  refl := .refl
  stack m _ := ⟨rfl, fun _ => .refl m.env⟩
  register m _ := ⟨rfl, fun _ => .refl m.env⟩
  enter m _ := ⟨rfl, fun _ => .refl m.env⟩
  edit _ _ h := ⟨rfl, fun _ => h.steadily⟩
  native m name args := ⟨rfl, fun hn => ⟨hn name m.env.memory args, rfl, rfl, rfl, rfl⟩⟩
  thread m _ hid := ⟨hid, fun _ => .refl m.env⟩
  loaded _ _ _ hmap := ⟨rfl, fun _ => ⟨.refl _, rfl, rfl, rfl, hmap⟩⟩

end Machine

namespace Exec

open Machine (Steady)

/-- A steady change of the environment. -/
theorem keeps_steady_mapEnvironment {g : Environment → Environment}
    (hg : ∀ env : Environment, env.Steady (g env)) : Keeps Steady (mapEnvironment g) :=
  fun m => ⟨rfl, fun _ => hg m.env⟩

/-! ### Writes -/

theorem keeps_steady_mapCells (g : Cells → Cells) : Keeps Steady (mapCells g) :=
  keeps_steady_mapEnvironment fun _ => ⟨⟨.refl _, Nat.le_refl _, fun _ => rfl⟩, rfl, rfl, rfl, rfl⟩

theorem keeps_steady_insertGlobal (hash : UInt32) (v : Value) :
    Keeps Steady (insertGlobal hash v) :=
  keeps_steady_mapEnvironment fun _ => ⟨.refl _, rfl, rfl, rfl, rfl⟩

theorem keeps_steady_insertField (hash : UInt32) (h : Handle) (v : Value) :
    Keeps Steady (mapHeap (·.modify h (insertField hash v))) := by
  refine keeps_steady_mapEnvironment fun env => env.steady_mapHeap (env.heap.steady_modify h ?_ ?_)
  · exact fun o => by cases o <;> rfl
  · exact fun o => by cases o <;> rfl

theorem keeps_steady_defineConstant (hash : UInt32) (v : Value) :
    Keeps Steady (defineConstant hash v) :=
  keeps_steady_mapEnvironment fun _ => ⟨.refl _, rfl, rfl, rfl, rfl⟩

/-- Runs are steady. -/
theorem keeps_steady_execute (fuel : Nat) : Keeps Steady (execute fuel) := by
  rw [← watch_true]
  refine keeps_watch (fun hash v => ?_) (fun _ hash _ _ v => keeps_steady_insertGlobal hash v)
    (fun _ hash m _ _ => keeps_pop.bind (keeps_steady_defineConstant hash) m)
    (fun object hash v => ?_) fuel
  · exact keeps_setGlobal_of keeps_steady_mapCells (keeps_steady_insertGlobal hash v)
  · exact keeps_setProperty_of keeps_steady_mapCells (keeps_steady_insertField hash) object

/-! ### How hosts start runs -/

variable {R : Machine → Machine → Prop} [Machine.AdmitsRuns R] {executor : Exec Unit}

theorem keeps_invokeForObject (he : Keeps R executor) (callable receiver : Value)
    (args : List Value) : Keeps R (invokeForObject executor callable receiver args) :=
  keeps_runProtected <| (keeps_push receiver).bind fun _ => (keeps_pushAll args).bind fun _ =>
    (keeps_callForObject callable args.length).bind fun _ => he

theorem keeps_callInitializer (he : Keeps R executor) (h : Handle) :
    Keeps R (callInitializer executor h) := by
  refine keeps_environment.bind fun env => (keeps_ofOption _ _).bind fun i => ?_
  split
  · exact keeps_pure ()
  · split
    · split
      · exact (keeps_invokeForObject he _ _ []).bind fun _ => keeps_pure ()
      · exact keeps_fault _
    · exact (keeps_invokeForObject he _ _ []).bind fun _ => keeps_pure ()

theorem keeps_loadScript (he : Keeps R executor) (file : UInt32) :
    Keeps R (Load.loadScript executor file) := by
  refine (keeps_fetch file).bind fun found => ?_
  cases found with
  | cached => exact keeps_pure true
  | absent => exact (keeps_loadReport _ _).bind fun _ => keeps_pure false
  | fresh bytes => exact (keeps_runFile he bytes file).bind fun _ => keeps_pure true

theorem keeps_eventCallable (h : Handle) (hash : UInt32) :
    Keeps R (onEnvironment (·.callable h hash)) := by
  refine keeps_onEnvironment fun env => ?_
  unfold Environment.callable
  split
  · exact .refl
  · split
    · exact .refl
    · exact env.edits_findMember _ hash

theorem keeps_runEvent (he : Keeps R executor) (h : Handle) (hash : UInt32) (args : List Value) :
    Keeps R (runEvent executor h hash args) := by
  refine (keeps_eventCallable h hash).bind fun found => ?_
  split
  · exact keeps_pure false
  · exact (keeps_invokeForObject he _ _ args).bind fun _ => keeps_pure true

/-- A native that is run at once is one of the machine that it changes. -/
theorem keeps_hostNative (name : String) (args : Array Value) : Keeps R (runNative name args) := by
  intro m
  have hnative : R m (after (onMemory fun mem => m.env.natives name mem args) m) :=
    Machine.AdmitsNatives.native m name args
  unfold runNative
  rw [after_bind_of_ok (show environment m = .ok m.env m from rfl)]
  exact after_bind (R := R) (S := R) hnative (fun result => keeps_ofExcept result)
    (fun _ _ _ h h' => IsTrans.trans _ _ _ h h') fun _ _ h => h

theorem keeps_invokeWithDefault (he : Keeps R executor) (h : Handle) (hash : UInt32)
    (native : String) (args : List Value) :
    Keeps R (invokeWithDefault executor h hash native args) := by
  refine (keeps_eventCallable h hash).bind fun found => ?_
  split
  · exact keeps_hostNative native _
  · refine keeps_environment.bind fun env => ?_
    dsimp only
    split
    · exact keeps_hostNative native _
    · exact keeps_invokeForObject he _ _ args

theorem keeps_spawn (he : Keeps R executor)
    (hnew : ∀ c e, Keeps R (onEnvironment (·.newEntity c e))) (c : Handle) (e : EntityId) :
    Keeps R (spawn executor c e) := by
  refine keeps_environment.bind fun env => ?_
  split
  · refine (hnew c e).bind fun h => keeps_environment.bind fun env => ?_
    exact (keeps_report _ _).bind fun _ => (keeps_callInitializer he h).bind fun _ => keeps_pure h
  · exact keeps_fault _

theorem keeps_cloneEntity (hnew : ∀ c e, Keeps R (onEnvironment (·.newEntity c e)))
    (hfields : ∀ h fields, Keeps R (mapEnvironment (Environment.addMissingFields h fields)))
    (source : Handle) (e : EntityId) : Keeps R (cloneEntity source e) := by
  refine keeps_environment.bind fun env => (keeps_ofOption _ _).bind fun i => ?_
  exact (hnew _ e).bind fun h => (hfields h _).bind fun _ => keeps_pure h

end Exec
end ScriptVm
