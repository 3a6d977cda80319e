import ScriptVm.Machine.Property
import ScriptVm.Proofs.Machine.Parallel

/-!
# Calls, names and properties in parallel

* `parallel_callNative` is where natives must be faithful. The other calls follow what the callee
  is, which is the same on both sides.
* The rest are the actions on globals, properties and elements. What they store mirrors each other,
  so the objects that they change still do.
-/

namespace ScriptVm
namespace Pairing

open Exec

variable {p q : Pairing} {v v' w w' : Value} {h h' c c' : Handle}

/-! ### Calls -/

theorem parallel_native {f : NativeFunction} (hf : f.Faithful p.callable) {args args' : Array Value}
    (hargs : List.Forall₂ (Value.Mirrors p) args.toList args'.toList) :
    p.Parallel (fun q => ExceptRel (Value.Mirrors q)) (onMemory fun mem => f mem args)
      (onMemory fun mem => f mem args') := by
  refine parallel_onEnvironment fun q hq env env' henv => ?_
  obtain ⟨r, hr, hmem, hresult⟩ := hf q env.memory env'.memory args args' (callable_eq hq)
    henv.memory (mirrors_mono hargs hq)
  exact ⟨r, hr, henv.withMemory hr hmem, hresult⟩

theorem parallel_ofExcept_mirrors {r r' : Except Cause Value}
    (h : ExceptRel (Value.Mirrors p) r r') :
    p.Parallel (fun q => Value.Mirrors q) (ofExcept r) (ofExcept r') := by
  refine parallel_ofExcept fun q hq => ?_
  cases h with
  | ok hv => exact .ok (hv.mono hq)
  | error e => exact .error e

theorem parallel_callNative {name : String} (hname : p.callable name) (passed consumed : Nat) :
    p.Parallel Same (callNative name passed consumed) (callNative name passed consumed) := by
  refine (parallel_heightBelow passed).bind_same fun q₁ h₁ start => ?_
  refine (parallel_heightBelow consumed).bind_same fun q₂ h₂ base => ?_
  refine (parallel_valuesFrom start).bind fun q₃ h₃ args args' hargs => ?_
  refine parallel_environment.bind fun q₄ h₄ env env' henv => ?_
  have hcallable : q₄.callable name := by rwa [callable_eq (h₁.trans (h₂.trans (h₃.trans h₄)))]
  rw [henv.natives]
  refine (parallel_native (henv.faithful name hcallable) (mirrors_mono hargs h₄)).bind
    fun q₅ _ r r' hr => ?_
  refine (parallel_ofExcept_mirrors hr).bind fun q₆ _ v v' hv => ?_
  exact (parallel_truncate base).bind_same fun q₇ h₇ _ => parallel_push (hv.mono h₇)

theorem parallel_call (hf : p.pairs h h') (argc : Nat) :
    p.Parallel Same (call h argc) (call h' argc) := by
  refine parallel_get.bind fun q hq m m' hm => ?_
  have hpair := hq.1 _ _ hf
  refine (parallel_ofOption (Q := fun _ => FunctionObject.Mirrors q) _ fun _ _ =>
    hm.env.heap.function? hpair).bind fun q₁ h₁ f f' hfunction => ?_
  rw [hfunction.arity, hfunction.code, hm.thread.frames_size]
  split
  · exact parallel_fault _
  · split
    · exact parallel_fault _
    · refine (parallel_size _).bind_same fun q₂ h₂ count => ?_
      refine (parallel_heightBelow count).bind_same fun q₃ h₃ slots => ?_
      have hle := h₁.trans (h₂.trans h₃)
      exact parallel_enter ⟨hle.1 _ _ hpair, rel_mono hfunction.module hle, rfl, rfl, rfl, rfl, rfl⟩

theorem parallel_callCallee (hv : v.Mirrors p v') (argc : Nat) :
    p.Parallel Same (callCallee v argc) (callCallee v' argc) := by
  refine parallel_environment.bind fun q hq env env' henv => ?_
  cases hv with
  | object hp =>
    obtain ⟨o, o', ho, ho', hmirrors⟩ := henv.heap.object (hq.1 _ _ hp)
    simp only [ho, ho']
    cases hmirrors with
    | boundMethod hreceiver hmethod =>
      exact (parallel_setPeek argc hreceiver).bind_same fun r hr _ =>
        parallel_call (hr.1 _ _ hmethod) argc
    | function _ => exact parallel_call (hq.1 _ _ hp) argc
    | native hname => exact parallel_callNative hname _ _
    | _ => exact parallel_fault _
  | _ => exact parallel_fault _

theorem parallel_callValue (argc : Nat) : p.Parallel Same (callValue argc) (callValue argc) :=
  (parallel_peek argc).bind fun _ _ _ _ hv => parallel_callCallee hv argc

theorem parallel_callForObject (hv : v.Mirrors p v') (argc : Nat) :
    p.Parallel Same (callForObject v argc) (callForObject v' argc) := by
  refine parallel_environment.bind fun q hq env env' henv => ?_
  have hcallee := parallel_callCallee (hv.mono hq) argc
  cases hv with
  | object hp =>
    obtain ⟨o, o', ho, ho', hmirrors⟩ := henv.heap.object (hq.1 _ _ hp)
    simp only [ho, ho']
    cases hmirrors with
    | native hname => exact parallel_callNative hname _ _
    | _ => exact hcallee
  | _ => exact parallel_fault _

theorem parallel_findMember (hp : p.pairs c c') (hash : UInt32) :
    p.Parallel (fun q => Option.Rel (Value.Mirrors q)) (onEnvironment (·.findMember c hash))
      (onEnvironment (·.findMember c' hash)) :=
  parallel_onEnvironment fun _ hq _ _ henv => henv.findMember (hq.1 _ _ hp) hash

theorem parallel_resolveParent (hp : p.pairs c c') :
    p.Parallel (fun q => Option.Rel q.pairs) (onEnvironment (·.resolveParent c))
      (onEnvironment (·.resolveParent c')) :=
  parallel_onEnvironment fun _ hq _ _ henv => henv.resolveParent (hq.1 _ _ hp)

theorem parallel_hasMember (hp : p.pairs c c') (hash : UInt32) :
    p.Parallel Same (onEnvironment (·.hasMember c hash)) (onEnvironment (·.hasMember c' hash)) :=
  parallel_onEnvironment fun _ hq _ _ henv => henv.hasMember (hq.1 _ _ hp) hash

theorem parallel_invokeFromClass (hp : p.pairs c c') (hash : UInt32) (argc : Nat) :
    p.Parallel Same (invokeFromClass c hash argc) (invokeFromClass c' hash argc) := by
  refine (parallel_findMember hp hash).bind fun q hq found found' hfound => ?_
  cases hfound with
  | some hv =>
    exact parallel_cells.bind_same fun r hr cells =>
      parallel_callForObject ((hv.mono hr).delink cells) argc
  | none =>
    refine parallel_environment.bind fun r hr env env' henv => ?_
    rw [henv.variableName_eq]
    exact parallel_fault _

theorem parallel_invokeOnInstance {i i' : InstanceObject} (hi : i.Mirrors p i') (hash : UInt32)
    (argc : Nat) (isSuper : Bool) :
    p.Parallel Same (invokeOnInstance i hash argc isSuper)
      (invokeOnInstance i' hash argc isSuper) := by
  unfold invokeOnInstance
  split
  · refine (parallel_resolveParent hi.classHandle).bind fun q hq parent parent' hparent => ?_
    cases hparent with
    | some hp => exact parallel_invokeFromClass hp hash argc
    | none => exact parallel_fault _
  · have hfield := hi.fields.get? hash
    generalize i.fields.get? hash = field, i'.fields.get? hash = field' at hfield
    cases hfield with
    | some hv =>
      exact parallel_cells.bind_same fun r hr cells =>
        parallel_callCallee ((hv.mono hr).delink cells) argc
    | none => exact parallel_invokeFromClass hi.classHandle hash argc

theorem parallel_invokeOnClass (hp : p.pairs c c') (hash : UInt32) (argc : Nat) :
    p.Parallel Same (invokeOnClass c hash argc) (invokeOnClass c' hash argc) := by
  refine (parallel_findMember hp hash).bind fun q hq found found' hfound => ?_
  cases hfound with
  | some hv =>
    exact parallel_cells.bind_same fun r hr cells =>
      parallel_callCallee ((hv.mono hr).delink cells) argc
  | none =>
    refine parallel_environment.bind fun r hr env env' henv => ?_
    rw [henv.variableName_eq, henv.className_eq (hr.1 _ _ (hq.1 _ _ hp))]
    exact parallel_fault _

theorem parallel_invoke (hash : UInt32) (argc : Nat) (isSuper : Bool) :
    p.Parallel Same (invoke hash argc isSuper) (invoke hash argc isSuper) := by
  refine (parallel_peek argc).bind fun q _ v v' hv => ?_
  cases hv with
  | object hp =>
    refine parallel_environment.bind fun r hr env env' henv => ?_
    obtain ⟨o, o', ho, ho', hmirrors⟩ := henv.heap.object (hr.1 _ _ hp)
    simp only [ho, ho']
    cases hmirrors with
    | inst hi => exact parallel_invokeOnInstance hi hash argc isSuper
    | scriptClass _ => exact parallel_invokeOnClass (hr.1 _ _ hp) hash argc
    | _ => exact parallel_fault _
  | _ => exact parallel_fault _

theorem rel_asClass? {heap heap' : Heap} (hm : heap.Mirrors p heap') (hv : v.Mirrors p v') :
    Option.Rel p.pairs (asClass? heap v) (asClass? heap' v') :=
  rel_filter hv.object? fun _ _ hp => hm.isClass hp

theorem parallel_instantiate (argc : Nat) :
    p.Parallel Same (instantiate argc) (instantiate argc) := by
  refine (parallel_peek argc).bind fun q₁ _ v v' hv => ?_
  refine parallel_environment.bind fun q₂ h₂ env env' henv => ?_
  refine (parallel_ofOption (Q := fun _ => q₂.pairs) _ fun _ _ =>
    rel_asClass? henv.heap (hv.mono h₂)).bind fun q₃ h₃ c c' hc => ?_
  have hclass := h₃.1 _ _ hc
  have hinst : (InstanceObject.ofClass c).Mirrors q₃ (.ofClass c') :=
    ⟨hclass, Table.mirrors_empty, rfl⟩
  refine (parallel_alloc (.inst hinst)).bind fun q₄ h₄ i i' hi => ?_
  refine (parallel_setPeek argc (.object hi)).bind_same fun q₅ h₅ _ => ?_
  refine parallel_environment.bind fun q₆ h₆ env₁ env₁' henv₁ => ?_
  have hinit := rel_bind (henv₁.heap.class? (h₆.1 _ _ (h₅.1 _ _ (h₄.1 _ _ hclass)))) fun _ _ hk =>
    hk.initializer
  generalize (env₁.heap.class? c).bind (·.initializer) = init,
    (env₁'.heap.class? c').bind (·.initializer) = init' at hinit
  cases hinit with
  | some hv => exact parallel_callForObject hv argc
  | none =>
    dsimp only
    split
    · exact parallel_done
    · exact parallel_fault _

/-! ### Globals -/

theorem parallel_writeThrough (hv : v.Mirrors p v') (hw : w.Mirrors p w') :
    p.Parallel Same (writeThrough v w) (writeThrough v' w') := by
  refine parallel_memory.bind fun q hq mem mem' hmem => ?_
  rw [← hmem.typeName_eq (hw.mono hq), hmem.cells, ← hw.castInteger? mem.cells,
    ← hw.castDecimal? mem.cells]
  cases hv with
  | linkedInteger l =>
    refine (parallel_ofOption_same _ _).bind_same fun _ _ n => ?_
    exact (parallel_mapCells _).bind_same fun _ _ _ => parallel_pure fun _ _ => rfl
  | linkedDecimal l =>
    refine (parallel_ofOption_same _ _).bind_same fun _ _ d => ?_
    exact (parallel_mapCells _).bind_same fun _ _ _ => parallel_pure fun _ _ => rfl
  | _ => exact parallel_pure fun _ _ => rfl

theorem parallel_insertGlobal (hash : UInt32) (hv : v.Mirrors p v') :
    p.Parallel Same (insertGlobal hash v) (insertGlobal hash v') := by
  refine parallel_mapEnvironment fun q hq env env' henv => ?_
  rw [henv.memory.cells]
  exact { henv with globals := henv.globals.insert hash ((hv.mono hq).delink _) }

theorem parallel_getGlobal (hash : UInt32) :
    p.Parallel (fun q => Value.Mirrors q) (getGlobal hash) (getGlobal hash) := by
  refine parallel_environment.bind fun q hq env env' henv => ?_
  have hglobal := henv.globals.get? hash
  have hconstant := henv.constants.get? hash
  rw [henv.memory.cells, henv.variableName_eq]
  generalize env.globals.get? hash = g, env'.globals.get? hash = g' at hglobal
  generalize env.constants.get? hash = k, env'.constants.get? hash = k' at hconstant
  cases hglobal with
  | some hv => exact parallel_pure fun r hr => (hv.mono hr).delink _
  | none =>
    cases hconstant with
    | some hv => exact parallel_pure fun r hr => (hv.mono hr).delink _
    | none => exact parallel_fault _

theorem parallel_setGlobal (hash : UInt32) (hv : v.Mirrors p v') :
    p.Parallel Same (setGlobal hash v) (setGlobal hash v') := by
  refine parallel_environment.bind fun q hq env env' henv => ?_
  have hglobal := henv.globals.get? hash
  rw [henv.variableName_eq, henv.constants.contains hash]
  generalize env.globals.get? hash = g, env'.globals.get? hash = g' at hglobal
  cases hglobal with
  | some hslot =>
    refine (parallel_writeThrough hslot (hv.mono hq)).bind_same fun r hr linked => ?_
    split
    · exact parallel_done
    · exact parallel_insertGlobal hash (hv.mono (hq.trans hr))
  | none =>
    dsimp only
    split <;> exact parallel_fault _

theorem parallel_extendClass (hp : p.pairs c c') (hq : p.pairs h h') :
    p.Parallel Same (mapEnvironment (·.extendClass c h)) (mapEnvironment (·.extendClass c' h')) :=
  parallel_mapEnvironment fun _ hle _ _ henv => henv.extendClass (hle.1 _ _ hp) (hle.1 _ _ hq)

/-- A class under the name of a class extends it; anything else goes another way. -/
theorem parallel_merge {i i' t t' : Option Handle} {x x' : Exec Unit} :
    Option.Rel p.pairs i i' → Option.Rel p.pairs t t' → p.Parallel Same x x' →
      p.Parallel Same
        (match i, t with
          | some extension, some target => mapEnvironment (·.extendClass extension target)
          | _, _ => x)
        (match i', t' with
          | some extension, some target => mapEnvironment (·.extendClass extension target)
          | _, _ => x') := by
  intro hi ht hx
  cases hi with
  | none => exact hx
  | some hextension =>
    cases ht with
    | none => exact hx
    | some htarget => exact parallel_extendClass hextension htarget

theorem parallel_defineGlobal (hash : UInt32) (hv : v.Mirrors p v') :
    p.Parallel Same (defineGlobal hash v) (defineGlobal hash v') := by
  refine parallel_environment.bind fun q hq env env' henv => ?_
  have hinsert := parallel_insertGlobal hash (hv.mono hq)
  have hincoming := rel_asClass? henv.heap (hv.mono hq)
  have hglobal := henv.globals.get? hash
  have hconstant := henv.constants.get? hash
  rw [henv.variableName_eq]
  generalize env.globals.get? hash = g, env'.globals.get? hash = g' at hglobal
  generalize env.constants.get? hash = k, env'.constants.get? hash = k' at hconstant
  cases hglobal with
  | some he => exact parallel_merge hincoming (rel_asClass? henv.heap he) hinsert
  | none =>
    cases hconstant with
    | some he => exact parallel_merge hincoming (rel_asClass? henv.heap he) (parallel_fault _)
    | none => exact hinsert

theorem parallel_defineConstant (hash : UInt32) (hv : v.Mirrors p v') :
    p.Parallel Same (defineConstant hash v) (defineConstant hash v') := by
  refine parallel_mapEnvironment fun q hq env env' henv => ?_
  rw [henv.memory.cells]
  exact { henv with constants := henv.constants.insert hash ((hv.mono hq).delink _) }

/-! ### Properties -/

theorem parallel_bindMethod (hv : v.Mirrors p v') (hw : w.Mirrors p w') :
    p.Parallel (fun q => Value.Mirrors q) (bindMethod v w) (bindMethod v' w') := by
  refine parallel_environment.bind fun q hq env env' henv => ?_
  have hfunction := rel_filter (hw.mono hq).object?
    (f := fun k => (env.heap.function? k).isSome) (g := fun k => (env'.heap.function? k).isSome)
    fun _ _ hp => isSome_eq_of_rel (henv.heap.function? hp)
  dsimp only
  generalize w.object?.filter _ = f, w'.object?.filter _ = f' at hfunction
  cases hfunction with
  | some hf =>
    refine (parallel_alloc (.boundMethod (hv.mono hq) hf)).bind fun r hr b b' hb => ?_
    exact parallel_pure fun s hs => .object (hs.1 _ _ hb)
  | none =>
    refine parallel_cells.bind_same fun r hr cells => ?_
    exact parallel_pure fun s hs => (hw.mono (hq.trans (hr.trans hs))).delink cells

theorem parallel_getProperty (hv : v.Mirrors p v') (hash : UInt32) :
    p.Parallel (fun q => Value.Mirrors q) (getProperty v hash) (getProperty v' hash) := by
  refine parallel_environment.bind fun q hq env env' henv => ?_
  rw [henv.memory.cells, henv.variableName_eq]
  have hobject := hv.mono hq
  cases hv with
  | object hp =>
    obtain ⟨o, o', ho, ho', hmirrors⟩ := henv.heap.object (hq.1 _ _ hp)
    simp only [Value.object?, Option.bind_some, ho, ho', Option.getD_some]
    cases hmirrors with
    | @inst i i' hi =>
      have hfield := hi.fields.get? hash
      dsimp only
      generalize i.fields.get? hash = f, i'.fields.get? hash = f' at hfield
      cases hfield with
      | some hf => exact parallel_pure fun r hr => (hf.mono hr).delink _
      | none =>
        refine (parallel_findMember hi.classHandle hash).bind fun r hr found found' hfound => ?_
        cases hfound with
        | some hmember => exact parallel_bindMethod (hobject.mono hr) hmember
        | none => exact parallel_fault _
    | scriptClass _ =>
      refine (parallel_findMember (hq.1 _ _ hp) hash).bind fun r hr found found' hfound => ?_
      cases hfound with
      | some hmember => exact parallel_pure fun s hs => (hmember.mono hs).delink _
      | none => exact parallel_fault _
    | _ => exact parallel_fault _
  | _ => exact parallel_fault _

theorem parallel_hasProperty (hv : v.Mirrors p v') (hash : UInt32) :
    p.Parallel Same (hasProperty v hash) (hasProperty v' hash) := by
  cases hv with
  | object hp =>
    refine parallel_environment.bind fun q hq env env' henv => ?_
    obtain ⟨o, o', ho, ho', hmirrors⟩ := henv.heap.object (hq.1 _ _ hp)
    simp only [ho, ho']
    cases hmirrors with
    | inst hi =>
      simp only [hi.fields.contains hash]
      split
      · exact parallel_pure fun _ _ => rfl
      · exact parallel_hasMember hi.classHandle hash
    | scriptClass _ => exact parallel_hasMember (hq.1 _ _ hp) hash
    | _ => exact parallel_pure fun _ _ => rfl
  | _ => exact parallel_pure fun _ _ => rfl

theorem rel_fieldsOf? {o o' : Obj} (ho : o.Mirrors p o') :
    Option.Rel (Table.Mirrors (Value.Mirrors p)) (fieldsOf? o) (fieldsOf? o') := by
  cases ho with
  | inst hi => exact .some hi.fields
  | scriptClass hc => exact .some hc.fields
  | _ => exact .none

theorem mirrors_insertField {o o' : Obj} (ho : o.Mirrors p o') (hash : UInt32)
    (hv : v.Mirrors p v') : (insertField hash v o).Mirrors p (insertField hash v' o') := by
  have hsame := ho
  cases ho with
  | inst hi => exact .inst { hi with fields := hi.fields.insert hash hv }
  | scriptClass hc => exact .scriptClass { hc with fields := hc.fields.insert hash hv }
  | _ => exact hsame

theorem parallel_setProperty (hv : v.Mirrors p v') (hash : UInt32) (hw : w.Mirrors p w') :
    p.Parallel Same (setProperty v hash w) (setProperty v' hash w') := by
  cases hv with
  | @object k k' hp =>
    refine parallel_environment.bind fun q hq env env' henv => ?_
    obtain ⟨o, o', ho, ho', hmirrors⟩ := henv.heap.object (hq.1 _ _ hp)
    have hfields := rel_fieldsOf? hmirrors
    simp only [ho, ho', Option.bind_some]
    generalize fieldsOf? o = t, fieldsOf? o' = t' at hfields
    cases hfields with
    | none => exact parallel_fault _
    | @some t t' ht =>
      have hslot := ht.get? hash
      dsimp only
      generalize t.get? hash = s, t'.get? hash = s' at hslot
      -- what is done after a linked slot was written or not
      have hstore : ∀ r, q ≤ r → ∀ linked : Bool, r.Parallel Same
          (if linked then pure () else do
            let plain := w.delink (← cells)
            mapHeap (·.modify k (insertField hash plain)))
          (if linked then pure () else do
            let plain := w'.delink (← cells)
            mapHeap (·.modify k' (insertField hash plain))) := by
        intro r hr linked
        split
        · exact parallel_done
        · refine parallel_cells.bind_same fun s hs cells => ?_
          refine parallel_modifyHeap (hs.1 _ _ (hr.1 _ _ (hq.1 _ _ hp))) fun u hu o o' ho => ?_
          exact mirrors_insertField ho hash
            ((hw.mono (hq.trans (hr.trans (hs.trans hu)))).delink cells)
      cases hslot with
      | some hs => exact (parallel_writeThrough hs (hw.mono hq)).bind_same hstore
      | none => exact (parallel_pure fun _ _ => rfl).bind_same hstore
  | _ => exact parallel_fault _

/-! ### Elements -/

theorem elementIndex_eq (access : Access) (cells : Cells) (size : Nat) (hv : v.Mirrors p v') :
    elementIndex access cells size v = elementIndex access cells size v' := by
  unfold elementIndex
  rw [hv.integer? cells]

theorem elementKey_eq {heap heap' : Heap} (hm : heap.Mirrors p heap') (access : Access)
    (hv : v.Mirrors p v') : elementKey access heap v = elementKey access heap' v' := by
  unfold elementKey
  rw [hm.text? hv]

theorem rel_mapGet? {m m' : MapObject} (hm : Table.Mirrors (MapObject.Entry p) m.entries m'.entries)
    (key : String) : Option.Rel (Value.Mirrors p) (m.get? key) (m'.get? key) := by
  have hentry := hm.get? (hashName key)
  unfold MapObject.get?
  generalize m.entries.get? (hashName key) = e, m'.entries.get? (hashName key) = e' at hentry
  cases hentry with
  | none => exact .none
  | some he => exact .some he.2

theorem mirrors_getD {o o' : Option Value} (h : Option.Rel (Value.Mirrors p) o o') :
    (o.getD .null).Mirrors p (o'.getD .null) := by
  cases h with
  | none => exact .null
  | some hv => exact hv

theorem parallel_getElement (hv : v.Mirrors p v') (hw : w.Mirrors p w') :
    p.Parallel (fun q => Value.Mirrors q) (getElement v w) (getElement v' w') := by
  refine parallel_memory.bind fun q hq mem mem' hmem => ?_
  have hobject := hmem.heap.find (hv.mono hq)
  rw [hmem.cells]
  generalize v.object?.bind mem.heap.get? = o, v'.object?.bind mem'.heap.get? = o' at hobject
  cases hobject with
  | none => exact parallel_fault _
  | some ho =>
    cases ho with
    | @array vs vs' hvs =>
      have hsize : vs'.size = vs.size := hvs.length_eq.symm
      dsimp only
      rw [hsize, ← elementIndex_eq _ _ _ hw]
      refine (parallel_ofExcept_same _).bind_same fun r hr index => ?_
      refine parallel_pure fun s hs => mirrors_getD ?_
      rw [← Array.getElem?_toList, ← Array.getElem?_toList]
      exact forall₂_getElem? (mirrors_mono hvs (hr.trans hs)) index
    | map hentries =>
      dsimp only
      rw [← elementKey_eq hmem.heap _ (hw.mono hq)]
      refine (parallel_ofExcept_same _).bind_same fun r hr key => ?_
      exact parallel_pure fun s hs => (mirrors_getD (rel_mapGet? hentries key)).mono (hr.trans hs)
    | _ => exact parallel_fault _

theorem mirrors_storeIndex {o o' : Obj} (ho : o.Mirrors p o') (index : Nat) (hv : v.Mirrors p v') :
    (storeIndex index v o).Mirrors p (storeIndex index v' o') := by
  have hsame := ho
  cases ho with
  | array hvs =>
    refine .array ?_
    rw [Array.toList_setIfInBounds, Array.toList_setIfInBounds]
    exact forall₂_set hvs index hv
  | _ => exact hsame

theorem mirrors_storeKey {o o' : Obj} (ho : o.Mirrors p o') (key : String) (hv : v.Mirrors p v') :
    (storeKey key v o).Mirrors p (storeKey key v' o') := by
  have hsame := ho
  cases ho with
  | map hentries => exact .map (hentries.insert _ ⟨rfl, hv⟩)
  | _ => exact hsame

variable {u u' : Value}

/-- Objects that mirror each other still do when both are changed. -/
def Rewrites (p : Pairing) (g g' : Obj → Obj) : Prop :=
  ∀ q, p ≤ q → ∀ o o', o.Mirrors q o' → (g o).Mirrors q (g' o')

theorem rel_elementStore {mem mem' : Memory} (hm : mem.Mirrors p mem') (hv : v.Mirrors p v')
    (hw : w.Mirrors p w') (hu : u.Mirrors p u') :
    ExceptRel p.Rewrites (elementStore mem v w u) (elementStore mem' v' w' u') := by
  have hobject := hm.heap.find hv
  unfold elementStore
  rw [hm.cells]
  generalize v.object?.bind mem.heap.get? = o, v'.object?.bind mem'.heap.get? = o' at hobject
  cases hobject with
  | none => exact .error _
  | some ho =>
    cases ho with
    | @array vs vs' hvs =>
      have hsize : vs'.size = vs.size := hvs.length_eq.symm
      dsimp only
      rw [hsize, ← elementIndex_eq _ _ _ hw]
      cases elementIndex .write mem.cells vs.size w with
      | error c => exact .error c
      | ok index => exact .ok fun q hq _ _ ho => mirrors_storeIndex ho index (hu.mono hq)
    | map _ =>
      dsimp only
      rw [← elementKey_eq hm.heap _ hw]
      cases elementKey .write mem.heap w with
      | error c => exact .error c
      | ok key => exact .ok fun q hq _ _ ho => mirrors_storeKey ho key (hu.mono hq)
    | _ => exact .error _

theorem parallel_setElement (hv : v.Mirrors p v') (hw : w.Mirrors p w') (hu : u.Mirrors p u') :
    p.Parallel Same (setElement v w u) (setElement v' w' u') := by
  refine parallel_memory.bind fun q hq mem mem' hmem => ?_
  refine (parallel_ofExcept (Q := fun _ g g' => q.Rewrites g g') fun _ _ => ?_).bind
    fun r hr store store' hstore => ?_
  · exact rel_elementStore hmem (hv.mono hq) (hw.mono hq) (hu.mono hq)
  · cases hv with
    | object hp =>
      exact parallel_modifyHeap (hr.1 _ _ (hq.1 _ _ hp)) fun s hs => hstore s (hr.trans hs)
    | _ => exact parallel_done

end Pairing
end ScriptVm
