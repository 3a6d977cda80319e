import ScriptVm.Proofs.Machine.Blindness

/-!
# Calls and names without line tables

There is one lemma for each way of calling a value and of reading or writing what scripts name. The
objects that are found on the heap are split into their kinds: a function is called by its arity and
its code, and nothing else has a line table.
-/

namespace ScriptVm
namespace Exec

/-! ### Calls -/

theorem blind_callNative (name : String) (passed consumed : Nat) :
    Blind (callNative name passed consumed) := by
  refine (blind_heightBelow passed).bind fun start => ?_
  refine (blind_heightBelow consumed).bind fun base => ?_
  refine (blind_valuesFrom start).bind fun args => ?_
  refine blind_native name args fun result => ?_
  refine (blind_ofExcept result).bind fun v => ?_
  exact (blind_truncate base).bind fun _ => blind_push v

theorem blind_call (function : Handle) (argc : Nat) : Blind (call function argc) := by
  refine blind_get (fun earlier env t => ?_) fun m => ?_
  · rw [Environment.heap_stripped, Heap.function?_stripped]
    cases env.heap.function? function <;> rfl
  · refine (blind_ofOption _ _).bind fun f => ?_
    split
    · exact blind_fault _
    · split
      · exact blind_fault _
      · refine (blind_size _).bind fun count => ?_
        exact (blind_heightBelow count).bind fun slots => blind_enter _

theorem blind_callCallee (callee : Value) (argc : Nat) : Blind (callCallee callee argc) := by
  unfold callCallee
  cases callee with
  | object h =>
    refine blind_environment (fun earlier env => ?_) fun env => ?_
    · dsimp only [Environment.heap_stripped]
      rw [Heap.get?_stripped]
      cases env.heap.get? h with
      | none => rfl
      | some o => cases o <;> rfl
    · dsimp only
      split
      · exact (blind_setPeek argc _).bind fun _ => blind_call _ argc
      · exact blind_call h argc
      · exact blind_callNative _ _ _
      · exact blind_fault _
  | _ => exact blind_environment (fun _ _ => rfl) fun _ => blind_fault _

theorem blind_callValue (argc : Nat) : Blind (callValue argc) :=
  (blind_peek argc).bind fun callee => blind_callCallee callee argc

theorem blind_callForObject (callable : Value) (argc : Nat) :
    Blind (callForObject callable argc) := by
  unfold callForObject
  cases callable with
  | object h =>
    refine blind_environment (fun earlier env => ?_) fun env => ?_
    · dsimp only [Environment.heap_stripped]
      rw [Heap.get?_stripped]
      cases env.heap.get? h with
      | none => rfl
      | some o => cases o <;> rfl
    · dsimp only
      split
      · exact blind_callNative _ _ _
      · exact blind_callCallee _ argc
  | _ => exact blind_environment (fun _ _ => rfl) fun _ => blind_fault _

theorem blind_invokeFromClass (c : Handle) (hash : UInt32) (argc : Nat) :
    Blind (invokeFromClass c hash argc) := by
  refine (blind_findMember c hash).bind fun found => ?_
  cases found with
  | some method => exact blind_cells.bind fun cells => blind_callForObject _ argc
  | none => exact blind_environment (fun _ _ => rfl) fun _ => blind_fault _

theorem blind_invokeOnInstance (i : InstanceObject) (hash : UInt32) (argc : Nat) (isSuper : Bool) :
    Blind (invokeOnInstance i hash argc isSuper) := by
  unfold invokeOnInstance
  split
  · refine (blind_resolveParent i.classHandle).bind fun parent => ?_
    cases parent with
    | some parent => exact blind_invokeFromClass parent hash argc
    | none => exact blind_fault _
  · split
    · exact blind_cells.bind fun cells => blind_callCallee _ argc
    · exact blind_invokeFromClass i.classHandle hash argc

theorem blind_invokeOnClass (c : Handle) (hash : UInt32) (argc : Nat) :
    Blind (invokeOnClass c hash argc) := by
  refine (blind_findMember c hash).bind fun found => ?_
  cases found with
  | some method => exact blind_cells.bind fun cells => blind_callCallee _ argc
  | none =>
    refine blind_environment (fun earlier env => ?_) fun _ => blind_fault _
    simp

theorem blind_invoke (hash : UInt32) (argc : Nat) (isSuper : Bool) :
    Blind (invoke hash argc isSuper) := by
  refine (blind_peek argc).bind fun v => ?_
  cases v with
  | object h =>
    refine blind_environment (fun earlier env => ?_) fun env => ?_
    · rw [Environment.heap_stripped, Heap.get?_stripped]
      cases env.heap.get? h with
      | none => rfl
      | some o => cases o <;> rfl
    · split
      · exact blind_invokeOnInstance _ hash argc isSuper
      · exact blind_invokeOnClass h hash argc
      · exact blind_fault _
  | _ => exact blind_fault _

@[simp] theorem asClass?_stripped (heap : Heap) : asClass? heap.stripped = asClass? heap := by
  funext v
  unfold asClass?
  rw [Heap.isClass_stripped]

theorem blind_instantiate (argc : Nat) : Blind (instantiate argc) := by
  refine (blind_peek argc).bind fun callee => ?_
  refine blind_environment (fun earlier env => ?_) fun env => ?_
  · simp
  · refine (blind_ofOption _ _).bind fun c => ?_
    refine (blind_alloc rfl).bind fun h => ?_
    refine (blind_setPeek argc _).bind fun _ => ?_
    refine blind_environment (fun earlier env => ?_) fun env => ?_
    · simp
    · split
      · exact blind_callForObject _ argc
      · split
        · exact blind_pure ()
        · exact blind_fault _

/-! ### Globals -/

theorem blind_writeThrough (slot v : Value) : Blind (writeThrough slot v) := by
  refine blind_memory (fun mem => ?_) fun mem => ?_
  · simp
  · cases slot with
    | linkedInteger l =>
      refine (blind_ofOption _ _).bind fun n => ?_
      exact (blind_mapCells _).bind fun _ => blind_pure true
    | linkedDecimal l =>
      refine (blind_ofOption _ _).bind fun d => ?_
      exact (blind_mapCells _).bind fun _ => blind_pure true
    | _ => exact blind_pure false

theorem blind_insertGlobal (hash : UInt32) (v : Value) : Blind (insertGlobal hash v) :=
  blind_mapEnvironment
    (u := fun env => { env with globals := env.globals.insert hash (v.delink env.memory.cells) })
    (fun _ _ => rfl) fun _ => rfl

theorem blind_defineConstant (hash : UInt32) (v : Value) : Blind (defineConstant hash v) :=
  blind_mapEnvironment
    (u := fun env =>
      { env with constants := env.constants.insert hash (v.delink env.memory.cells) })
    (fun _ _ => rfl) fun _ => rfl

theorem blind_getGlobal (hash : UInt32) : Blind (getGlobal hash) := by
  refine blind_environment (fun _ _ => rfl) fun env => ?_
  dsimp only
  split
  · exact blind_pure _
  · exact blind_fault _

theorem blind_setGlobal (hash : UInt32) (v : Value) : Blind (setGlobal hash v) := by
  refine blind_environment (fun _ _ => rfl) fun env => ?_
  split
  · refine (blind_writeThrough _ v).bind fun linked => ?_
    split
    · exact blind_pure ()
    · exact blind_insertGlobal hash v
  · split
    · exact blind_fault _
    · exact blind_fault _

theorem blind_extendClass (extension target : Handle) :
    Blind (mapEnvironment (·.extendClass extension target)) :=
  blind_mapEnvironment (fun earlier env => env.extendClass_stripped earlier extension target)
    fun env => env.natives_extendClass extension target

theorem blind_defineGlobal (hash : UInt32) (v : Value) : Blind (defineGlobal hash v) := by
  refine blind_environment (fun earlier env => ?_) fun env => ?_
  · simp
  · dsimp only
    split
    · split
      · exact blind_extendClass _ _
      · exact blind_insertGlobal hash v
    · split
      · split
        · exact blind_extendClass _ _
        · exact blind_fault _
      · exact blind_insertGlobal hash v

/-! ### Properties -/

theorem blind_bindMethod (receiver method : Value) : Blind (bindMethod receiver method) := by
  refine blind_environment (fun earlier env => ?_) fun env => ?_
  · simp
  · dsimp only
    split
    · exact (blind_alloc rfl).bind fun b => blind_pure _
    · exact blind_cells.bind fun cells => blind_pure _

theorem blind_getProperty (object : Value) (hash : UInt32) : Blind (getProperty object hash) := by
  refine blind_environment (fun earlier env => ?_) fun env => ?_
  · rw [Environment.heap_stripped, Heap.bind_get?_stripped]
    cases object.object?.bind env.heap.get? with
    | none => rfl
    | some o => cases o <;> rfl
  · split
    · split
      · exact blind_pure _
      · refine (blind_findMember _ hash).bind fun found => ?_
        cases found with
        | some method => exact blind_bindMethod object method
        | none => exact blind_fault _
    · refine (blind_findMember _ hash).bind fun found => ?_
      cases found with
      | some v => exact blind_pure _
      | none => exact blind_fault _
    · exact blind_fault _

theorem blind_hasProperty (object : Value) (hash : UInt32) : Blind (hasProperty object hash) := by
  unfold hasProperty
  cases object with
  | object h =>
    refine blind_environment (fun earlier env => ?_) fun env => ?_
    · rw [Environment.heap_stripped, Heap.get?_stripped]
      cases env.heap.get? h with
      | none => rfl
      | some o => cases o <;> rfl
    · split
      · split
        · exact blind_pure true
        · exact blind_hasMember _ hash
      · exact blind_hasMember h hash
      · exact blind_pure false
  | _ => exact blind_pure false

@[simp] theorem fieldsOf?_stripped (o : Obj) : fieldsOf? o.stripped = fieldsOf? o := by
  cases o <;> rfl

theorem insertField_stripped (hash : UInt32) (v : Value) (o : Obj) :
    insertField hash v o.stripped = (insertField hash v o).stripped := by
  cases o <;> rfl

theorem blind_modifyObject {h : Handle} {f : Obj → Obj}
    (hf : ∀ o : Obj, f o.stripped = (f o).stripped) : Blind (mapHeap (·.modify h f)) :=
  blind_mapHeap fun heap => heap.modify_stripped h hf

theorem blind_setProperty (object : Value) (hash : UInt32) (v : Value) :
    Blind (setProperty object hash v) := by
  unfold setProperty
  cases object with
  | object h =>
    refine blind_environment (fun earlier env => ?_) fun env => ?_
    · rw [Environment.heap_stripped, Heap.get?_stripped]
      cases env.heap.get? h with
      | none => rfl
      | some o => simp
    · dsimp only
      split
      · exact blind_fault _
      -- what is done after a linked slot was written or not
      · have hstore : ∀ linked : Bool, Blind
            (if linked then pure () else do
              let plain := v.delink (← cells)
              mapHeap (·.modify h (insertField hash plain))) := by
          intro linked
          split
          · exact blind_pure ()
          · exact blind_cells.bind fun cells => blind_modifyObject (insertField_stripped hash _)
        split
        · exact (blind_writeThrough _ v).bind hstore
        · exact (blind_pure false).bind hstore
  | _ => exact blind_fault _

/-! ### Elements -/

theorem blind_getElement (object position : Value) : Blind (getElement object position) := by
  refine blind_memory (fun mem => ?_) fun mem => ?_
  · rw [Memory.heap_stripped, Heap.bind_get?_stripped]
    cases object.object?.bind mem.heap.get? with
    | none => rfl
    | some o => cases o <;> simp [Obj.stripped, elementKey]
  · split
    · exact (blind_ofExcept _).bind fun index => blind_pure _
    · exact (blind_ofExcept _).bind fun key => blind_pure _
    · exact blind_fault _
    · exact blind_fault _

@[simp] theorem elementStore_stripped (mem : Memory) :
    elementStore mem.stripped = elementStore mem := by
  funext object position v
  unfold elementStore
  rw [Memory.heap_stripped, Heap.bind_get?_stripped]
  cases object.object?.bind mem.heap.get? with
  | none => rfl
  | some o => cases o <;> simp [Obj.stripped, elementKey]

theorem storeIndex_stripped (index : Nat) (v : Value) (o : Obj) :
    storeIndex index v o.stripped = (storeIndex index v o).stripped := by
  cases o <;> rfl

theorem storeKey_stripped (key : String) (v : Value) (o : Obj) :
    storeKey key v o.stripped = (storeKey key v o).stripped := by
  cases o <;> rfl

/-- Storing an element may come before the line tables are taken away or after it. -/
theorem store_stripped {mem : Memory} {object position v : Value} {store : Obj → Obj}
    (h : elementStore mem object position v = .ok store) (o : Obj) :
    store o.stripped = (store o).stripped := by
  have hmap : ∀ {α : Type} {r : Except Cause α} {f : α → Obj → Obj},
      (∀ a, f a o.stripped = (f a o).stripped) → r.map f = .ok store →
      store o.stripped = (store o).stripped := by
    intro α r f hf hr
    cases r with
    | error c => cases hr
    | ok a =>
      cases hr
      exact hf a
  unfold elementStore at h
  split at h
  · exact hmap (fun index => storeIndex_stripped index v o) h
  · exact hmap (fun key => storeKey_stripped key v o) h
  · cases h
  · cases h

theorem blind_setElement (object position v : Value) : Blind (setElement object position v) := by
  refine blind_memory (fun mem => ?_) fun mem => ?_
  · simp
  · cases hstore : elementStore mem object position v with
    | error c => exact blind_fault c
    | ok store =>
      cases object with
      | object h => exact blind_modifyObject (store_stripped hstore)
      | _ => exact blind_pure ()

end Exec
end ScriptVm
