import ScriptVm.Machine.Property
import ScriptVm.Proofs.Machine.Calls

/-!
# Safe names, properties and elements

The instructions that read and write what scripts name store good values only, give good values,
and leave the thread alone.
-/

namespace ScriptVm
namespace Contract

open Exec

variable {c : Contract} {m : Machine} {v object position : Value}

/-- The object that a value finds is good. -/
theorem GoodMachine.goodObject (hm : c.GoodMachine m) {o : Obj}
    (ho : v.object?.bind m.env.heap.get? = some o) : c.GoodObject m.env.heap o := by
  obtain ⟨h, -, hget⟩ := Option.bind_eq_some_iff.1 ho
  exact hm.env.heap.objects h o hget

theorem safe_writeThrough (hm : c.GoodMachine m) (slot value : Value) :
    c.Safe m (writeThrough slot value) fun _ m' => m'.thread = m.thread := by
  unfold writeThrough
  rw [safe_memory_bind]
  split
  · refine safe_ofOption_bind hm _ fun n _ => ?_
    exact (safe_mapCells hm _).bind fun _ m₁ hm₁ _ hq => safe_pure hm₁ hq
  · refine safe_ofOption_bind hm _ fun d _ => ?_
    exact (safe_mapCells hm _).bind fun _ m₁ hm₁ _ hq => safe_pure hm₁ hq
  · exact safe_pure hm rfl

/-! ### Globals -/

theorem safe_insertGlobal (hm : c.GoodMachine m) (hash : UInt32) (hv : c.Good m.env.heap v) :
    c.Safe m (insertGlobal hash v) fun _ m' => m'.thread = m.thread :=
  (safe_mapEnvironment hm (hm.env.evolves_globals hash (hv.delink _))).mono fun _ _ _ hq => hq.2

theorem safe_getGlobal (hm : c.GoodMachine m) (hash : UInt32) :
    c.Safe m (getGlobal hash) fun v m' => c.Good m'.env.heap v ∧ m'.thread = m.thread := by
  unfold getGlobal
  rw [safe_environment_bind]
  dsimp only
  split
  · rename_i v hv
    refine safe_pure hm ⟨Good.delink ?_ _, rfl⟩
    split at hv
    · rename_i w hw
      cases hv
      exact hm.env.globals _ (Table.mem_values_of_get? hw)
    · exact hm.env.constants v (Table.mem_values_of_get? hv)
  · exact safe_fault hm _

theorem safe_setGlobal (hm : c.GoodMachine m) (hash : UInt32) (hv : c.Good m.env.heap v) :
    c.Safe m (setGlobal hash v) fun _ m' => m'.thread = m.thread := by
  unfold setGlobal
  rw [safe_environment_bind]
  split
  · refine (safe_writeThrough hm _ v).bind fun linked m₁ hm₁ hc₁ hthread => ?_
    split
    · exact safe_pure hm₁ hthread
    · exact (safe_insertGlobal hm₁ hash (hv.mono hc₁.grows)).mono
        fun _ _ _ hq => hq.trans hthread
  · split <;> exact safe_fault hm _

theorem safe_defineGlobal (hm : c.GoodMachine m) (hash : UInt32) (hv : c.Good m.env.heap v) :
    c.Safe m (defineGlobal hash v) fun _ m' => m'.thread = m.thread := by
  have hextend : ∀ extension target,
      c.Safe m (mapEnvironment (·.extendClass extension target)) fun _ m' =>
        m'.thread = m.thread := fun extension target =>
    (safe_mapEnvironment hm (hm.env.evolves_extendClass extension target)).mono
      fun _ _ _ hq => hq.2
  unfold defineGlobal
  rw [safe_environment_bind]
  dsimp only
  split
  · split
    · exact hextend _ _
    · exact safe_insertGlobal hm hash hv
  · split
    · split
      · exact hextend _ _
      · exact safe_fault hm _
    · exact safe_insertGlobal hm hash hv

theorem safe_defineConstant (hm : c.GoodMachine m) (hash : UInt32) (hv : c.Good m.env.heap v) :
    c.Safe m (defineConstant hash v) fun _ m' => m'.thread = m.thread :=
  (safe_mapEnvironment hm (hm.env.evolves_constants hash (hv.delink _))).mono fun _ _ _ hq => hq.2

/-! ### Properties -/

theorem safe_bindMethod (hm : c.GoodMachine m) {receiver method : Value}
    (hr : c.Good m.env.heap receiver) (hv : c.Good m.env.heap method) :
    c.Safe m (bindMethod receiver method) fun v m' =>
      c.Good m'.env.heap v ∧ m'.thread = m.thread := by
  unfold bindMethod
  rw [safe_environment_bind]
  dsimp only
  split
  · rename_i function hf
    have hfinds : c.Finds m.env.heap function := hv function (Option.filter_eq_some_iff.1 hf).1
    refine (safe_alloc hm (goodObject_boundMethod.2 ⟨hr, hfinds⟩)).bind
      fun h m₁ hm₁ _ hq => ?_
    exact safe_pure hm₁ ⟨good_object.2 hq.1, hq.2⟩
  · rw [safe_cells_bind]
    exact safe_pure hm ⟨hv.delink _, rfl⟩

theorem safe_getProperty (hm : c.GoodMachine m) (hash : UInt32) (ho : c.Good m.env.heap object) :
    c.Safe m (getProperty object hash) fun v m' =>
      c.Good m'.env.heap v ∧ m'.thread = m.thread := by
  unfold getProperty
  rw [safe_environment_bind]
  split
  · rename_i i hget
    obtain ⟨-, hfields⟩ := goodObject_inst.1 (hm.goodObject hget)
    split
    · rename_i field hfield
      exact safe_pure hm ⟨(hfields field (Table.mem_values_of_get? hfield)).delink _, rfl⟩
    · refine (safe_findMember hm _ hash).bind fun r m₁ hm₁ hc₁ hq => ?_
      obtain ⟨hfound, hthread⟩ := hq
      cases r with
      | none => exact safe_fault hm₁ _
      | some method =>
        refine (safe_bindMethod hm₁ (ho.mono hc₁.grows) (hfound method rfl)).mono ?_
        exact fun _ _ _ hq => ⟨hq.1, hq.2.trans hthread⟩
  · refine (safe_findMember hm _ hash).bind fun r m₁ hm₁ _ hq => ?_
    obtain ⟨hfound, hthread⟩ := hq
    cases r with
    | none => exact safe_fault hm₁ _
    | some v => exact safe_pure hm₁ ⟨(hfound v rfl).delink _, hthread⟩
  · exact safe_fault hm _

theorem safe_hasMember (hm : c.GoodMachine m) (h : Handle) (hash : UInt32) :
    c.Safe m (onEnvironment (·.hasMember h hash)) fun _ m' => m'.thread = m.thread :=
  (safe_onEnvironment hm (hm.env.evolves_findMember h hash).1).mono fun _ _ _ hq => hq.2.2

theorem safe_hasProperty (hm : c.GoodMachine m) (object : Value) (hash : UInt32) :
    c.Safe m (hasProperty object hash) fun _ m' => m'.thread = m.thread := by
  unfold hasProperty
  cases object with
  | object h =>
    dsimp only
    rw [safe_environment_bind]
    split
    · split
      · exact safe_pure hm rfl
      · exact safe_hasMember hm _ hash
    · exact safe_hasMember hm h hash
    · exact safe_pure hm rfl
  | _ => exact safe_pure hm rfl

theorem goodObject_insertField {heap : Heap} {o : Obj} (hash : UInt32) (ho : c.GoodObject heap o)
    (hv : c.Good heap v) : c.GoodObject heap (insertField hash v o) := by
  cases o with
  | inst i =>
    obtain ⟨hclass, hfields⟩ := goodObject_inst.1 ho
    exact goodObject_inst.2 ⟨hclass, good_insert hfields hv⟩
  | scriptClass k =>
    obtain ⟨hname, hmethods, hfields, hinit, hparent⟩ := goodObject_class.1 ho
    exact goodObject_class.2 ⟨hname, hmethods, good_insert hfields hv, hinit, hparent⟩
  | _ => exact ho

theorem safe_mapHeap_modify (hm : c.GoodMachine m) (h : Handle) {g : Obj → Obj}
    (hg : ∀ o, m.env.heap.get? h = some o → c.GoodObject m.env.heap o →
      c.GoodObject m.env.heap (g o)) :
    c.Safe m (mapHeap (·.modify h g)) fun _ m' => m'.thread = m.thread :=
  (safe_mapEnvironment hm (hm.env.evolves_modify h hg)).mono fun _ _ _ hq => hq.2

theorem safe_setProperty (hm : c.GoodMachine m) (object : Value) (hash : UInt32)
    (hv : c.Good m.env.heap v) :
    c.Safe m (setProperty object hash v) fun _ m' => m'.thread = m.thread := by
  have hstore : ∀ (h : Handle) {m₁ : Machine}, c.GoodMachine m₁ → c.Continues m m₁ →
      c.Safe m₁ (do
        let plain := v.delink (← cells)
        mapHeap (·.modify h (insertField hash plain))) fun _ m' => m'.thread = m₁.thread := by
    intro h m₁ hm₁ hc₁
    rw [safe_cells_bind]
    refine safe_mapHeap_modify hm₁ h fun o _ ho => ?_
    exact goodObject_insertField hash ho ((hv.mono hc₁.grows).delink _)
  unfold setProperty
  cases object with
  | object h =>
    dsimp only
    rw [safe_environment_bind]
    split
    · exact safe_fault hm _
    · split
      · refine (safe_writeThrough hm _ v).bind fun linked m₁ hm₁ hc₁ hthread => ?_
        split
        · exact safe_pure hm₁ hthread
        · exact (hstore h hm₁ hc₁).mono fun _ _ _ hq => hq.trans hthread
      · exact hstore h hm (.refl c m)
  | _ => exact safe_fault hm _

/-! ### Elements -/

theorem safe_getElement (hm : c.GoodMachine m) (object position : Value) :
    c.Safe m (getElement object position) fun v m' => c.Good m'.env.heap v ∧ m = m' := by
  unfold getElement
  rw [safe_memory_bind]
  split
  · rename_i values hget
    have hvalues := goodObject_array.1 (hm.goodObject hget)
    refine safe_ofExcept_bind hm fun index _ => safe_pure hm ⟨?_, rfl⟩
    cases hi : values[index]? with
    | none => exact good_null
    | some v => exact hvalues v (Array.mem_of_getElem? hi)
  · rename_i entries hget
    have hentries := goodObject_map.1 (hm.goodObject hget)
    refine safe_ofExcept_bind hm fun key _ => safe_pure hm ⟨?_, rfl⟩
    cases hk : entries.get? key with
    | none => exact good_null
    | some v =>
      obtain ⟨e, he, rfl⟩ := Option.map_eq_some_iff.1 hk
      exact hentries e (Table.mem_values_of_get? he)
  · exact safe_fault hm _
  · exact safe_fault hm _

theorem goodObject_put {heap : Heap} {entries : MapObject} (key : String)
    (he : c.GoodObject heap (.map entries)) (hv : c.Good heap v) :
    c.GoodObject heap (.map (entries.put key v)) := by
  refine goodObject_map.2 fun e hm => ?_
  rcases Table.mem_values_insert hm with rfl | hold
  · exact hv
  · exact goodObject_map.1 he e hold

theorem goodObject_elementStore {mem : Memory} {store : Obj → Obj} {o : Obj}
    (hs : elementStore mem object position v = .ok store) (ho : c.GoodObject mem.heap o)
    (hv : c.Good mem.heap v) : c.GoodObject mem.heap (store o) := by
  unfold elementStore at hs
  split at hs
  · cases hi : elementIndex .write mem.cells _ position with
    | error e =>
      rw [hi] at hs
      cases hs
    | ok index =>
      rw [hi] at hs
      cases hs
      cases o with
      | array values =>
        refine goodObject_array.2 fun w hw => ?_
        rcases Array.mem_or_eq_of_mem_setIfInBounds hw with hw | rfl
        · exact goodObject_array.1 ho w hw
        · exact hv
      | _ => exact ho
  · cases hk : elementKey .write mem.heap position with
    | error e =>
      rw [hk] at hs
      cases hs
    | ok key =>
      rw [hk] at hs
      cases hs
      cases o with
      | map entries => exact goodObject_put key ho hv
      | _ => exact ho
  · cases hs
  · cases hs

theorem safe_setElement (hm : c.GoodMachine m) (object position : Value)
    (hv : c.Good m.env.heap v) :
    c.Safe m (setElement object position v) fun _ m' => m'.thread = m.thread := by
  unfold setElement
  rw [safe_memory_bind]
  refine safe_ofExcept_bind hm fun store hs => ?_
  cases object with
  | object h =>
    exact safe_mapHeap_modify hm h fun o _ ho => goodObject_elementStore hs ho hv
  | _ => exact safe_pure hm rfl

end Contract
end ScriptVm
