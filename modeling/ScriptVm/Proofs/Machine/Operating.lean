import ScriptVm.Proofs.Heap.Generations
import ScriptVm.Proofs.Machine.Steadiness

/-!
# Runs work on the heap by its operations

Whatever scripts do, the heap changes by the operations that it has: objects are placed and removed,
changed in place, and collected.

* `Heap.Leads` says that operations lead from one heap to another, `Environment.Operates` that they
  do so while the natives stay.
* `Natives.Operate` asks the same of natives; `Native.operate_standard` says that those of the
  catalogue do so.
* `Machine.Operates` is the relation between machines, and `keeps_operates_execute` the result
  for whole runs.
-/

namespace ScriptVm
namespace Heap

variable {heap heap' heap'' : Heap}

theorem run_append (heap : Heap) (ops later : List Operation) :
    heap.run (ops ++ later) = (heap.run ops).run later := by
  induction ops generalizing heap with
  | nil => rfl
  | cons op ops ih => exact ih (heap.operate op)

/-- Operations lead from one heap to another. -/
def Leads (heap heap' : Heap) : Prop := ∃ ops, heap' = heap.run ops

theorem Leads.refl (heap : Heap) : heap.Leads heap := ⟨[], rfl⟩

theorem Leads.trans (h : heap.Leads heap') (h' : heap'.Leads heap'') : heap.Leads heap'' := by
  obtain ⟨ops, rfl⟩ := h
  obtain ⟨later, rfl⟩ := h'
  exact ⟨ops ++ later, (heap.run_append ops later).symm⟩

theorem leads_operate (heap : Heap) (op : Operation) : heap.Leads (heap.operate op) := ⟨[op], rfl⟩

theorem leads_modify (heap : Heap) (h : Handle) {f : Obj → Obj} (hf : ∀ o, (f o).kind = o.kind) :
    heap.Leads (heap.modify h f) :=
  heap.leads_operate (.modify h f hf)

theorem leads_modifyClass (heap : Heap) (h : Handle) (f : ClassObject → ClassObject) :
    heap.Leads (heap.modifyClass h f) :=
  heap.leads_modify h fun o => by cases o <;> rfl

theorem leads_modifyInstance (heap : Heap) (h : Handle) (f : InstanceObject → InstanceObject) :
    heap.Leads (heap.modifyInstance h f) :=
  heap.leads_modify h fun o => by cases o <;> rfl

end Heap

/-- Natives that work on the heap by its operations. -/
def Natives.Operate (natives : Natives) : Prop :=
  ∀ name (mem : Memory) args, mem.heap.Leads (natives name mem args).2.heap

/-- The natives of the catalogue place objects at most. -/
theorem Native.operate_standard : Natives.Operate standard := by
  have hcatalog : ∀ p ∈ catalog, ∀ (mem : Memory) args, mem.heap.Leads (p.2 mem args).2.heap := by
    simp only [catalog, List.forall_mem_cons]
    refine ⟨?_, ?_, ?_, ?_, ?_, ?_, ?_, ?_, ?_, ?_, ?_, ?_, fun _ hp => absurd hp List.not_mem_nil⟩
    case refine_8 => exact fun mem args => mem.heap.leads_operate (.alloc _)
    case refine_9 => exact fun mem args => mem.heap.leads_operate (.alloc _)
    all_goals exact fun mem _ => .refl mem.heap
  intro name
  unfold standard
  cases hf : catalog.lookup name with
  | none => exact fun mem _ => .refl mem.heap
  | some f =>
    obtain ⟨before, rest, hsplit, -⟩ := List.lookup_eq_some_iff.1 hf
    exact hcatalog (name, f) (by rw [hsplit]; simp)

namespace Environment

variable {env env' env'' : Environment}

/-- Operations lead from the heap of one environment to that of another, with the same natives. -/
structure Operates (env env' : Environment) : Prop where
  natives : env'.natives = env.natives
  heap : env.heap.Leads env'.heap

theorem Operates.refl (env : Environment) : env.Operates env := ⟨rfl, .refl _⟩

theorem Operates.trans (h : env.Operates env') (h' : env'.Operates env'') : env.Operates env'' :=
  ⟨h'.natives.trans h.natives, h.heap.trans h'.heap⟩

/-- A change of the heap alone. -/
theorem operates_mapHeap (env : Environment) {f : Heap → Heap} (hf : env.heap.Leads (f env.heap)) :
    env.Operates (env.mapHeap f) :=
  ⟨rfl, hf⟩

theorem Edit.operates (h : env.Edit env') : env.Operates env' := by
  cases h with
  | report level text => exact ⟨rfl, .refl _⟩
  | alloc o => exact ⟨rfl, env.heap.leads_operate (.alloc o)⟩
  | modify h hf => exact env.operates_mapHeap (env.heap.leads_modify h fun o => (hf o).kind)
  | constant hash v => exact ⟨rfl, .refl _⟩
  | listing tokens modules functions => exact ⟨rfl, .refl _⟩

theorem operates_linkFields (h : Handle) (fields : List (String × Link)) (env : Environment) :
    env.Operates (linkFields h fields env) := by
  induction fields generalizing env with
  | nil => exact .refl env
  | cons f rest ih =>
    have htoken : env.Operates (env.addToken f.1).2 := ⟨rfl, .refl _⟩
    exact htoken.trans ((operates_mapHeap _ (Heap.leads_modifyInstance _ h _)).trans (ih _))

/-- Making an instance for a native object is placing it and changing it and its class. -/
theorem operates_newEntity (env : Environment) (c : Handle) (e : EntityId) :
    env.Operates (env.newEntity c e).2 := by
  let o : Obj := .inst { InstanceObject.ofClass c with entity := some e }
  have hplaced : env.Operates (env.alloc o).2 := ⟨rfl, env.heap.leads_operate (.alloc o)⟩
  refine hplaced.trans ((operates_mapHeap _ ?_).trans (operates_linkFields _ _ _))
  exact Heap.leads_modifyClass _ c _

theorem operates_addMissingFields (h : Handle) (fields : List (UInt32 × Value))
    (env : Environment) : env.Operates (addMissingFields h fields env) :=
  env.operates_mapHeap (env.heap.leads_modifyInstance h _)

theorem operates_unlink (env : Environment) (h : Handle) : env.Operates (env.unlink h) :=
  env.operates_mapHeap (env.heap.leads_modifyInstance h _)

end Environment

namespace Machine

/-- With natives that work by operations, a machine works on its heap by operations. -/
def Operates (m m' : Machine) : Prop := m.env.natives.Operate → m.env.Operates m'.env

instance : AdmitsRuns Operates where
  trans _ _ _ h h' hn := (h hn).trans (h' ((h hn).natives ▸ hn))
  refl m _ := .refl m.env
  stack m _ _ := .refl m.env
  register m _ _ := .refl m.env
  enter m _ _ := .refl m.env
  edit _ _ h _ := h.edit.operates
  native m name args hn := ⟨rfl, hn name m.env.memory args⟩
  thread m _ _ _ := .refl m.env
  loaded _ _ _ _ _ := ⟨rfl, .refl _⟩

end Machine

namespace Exec

open Machine (Operates)

theorem keeps_operates_mapEnvironment {g : Environment → Environment}
    (hg : ∀ env : Environment, env.Operates (g env)) : Keeps Operates (mapEnvironment g) :=
  fun m _ => hg m.env

theorem keeps_operates_insertGlobal (hash : UInt32) (v : Value) :
    Keeps Operates (insertGlobal hash v) :=
  keeps_operates_mapEnvironment fun _ => ⟨rfl, .refl _⟩

theorem keeps_operates_newEntity (c : Handle) (e : EntityId) :
    Keeps Operates (onEnvironment (·.newEntity c e)) :=
  fun m _ => m.env.operates_newEntity c e

/-- Runs work on the heap by its operations. -/
theorem keeps_operates_execute (fuel : Nat) : Keeps Operates (execute fuel) := by
  have hcells : ∀ g : Cells → Cells, Keeps Operates (mapCells g) := fun g =>
    keeps_operates_mapEnvironment fun _ => ⟨rfl, .refl _⟩
  have hconstant (hash : UInt32) (v : Value) : Keeps Operates (defineConstant hash v) :=
    keeps_operates_mapEnvironment fun _ => ⟨rfl, .refl _⟩
  have hfield (hash : UInt32) (h : Handle) (v : Value) :
      Keeps Operates (mapHeap (·.modify h (insertField hash v))) :=
    keeps_operates_mapEnvironment fun env =>
      env.operates_mapHeap (env.heap.leads_modify h fun o => by cases o <;> rfl)
  rw [← watch_true]
  refine keeps_watch (fun hash v => ?_) (fun _ hash _ _ v => keeps_operates_insertGlobal hash v)
    (fun _ hash m _ _ => keeps_pop.bind (hconstant hash) m) (fun object hash v => ?_) fuel
  · exact keeps_setGlobal_of hcells (keeps_operates_insertGlobal hash v)
  · exact keeps_setProperty_of hcells (hfield hash) object

end Exec
end ScriptVm
