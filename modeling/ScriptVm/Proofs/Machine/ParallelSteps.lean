import ScriptVm.Machine.Execute
import ScriptVm.Proofs.Machine.Landing
import ScriptVm.Proofs.Machine.ParallelLoads

/-!
# Steps in parallel

* There is one lemma for each instruction. What an instruction reads off the stacks, the functions
  and the modules mirrors each other, so it pushes, stores and prints the same up to handles.
* `parallel_step` puts them together: the current calls have the same code and the same offset.
* `parallel_execute` is the run lemma, by induction on the fuel. No debugger breaks in, since the
  functions that are called are there.
-/

namespace ScriptVm
namespace Pairing

open Exec

variable {p q : Pairing} {v v' w w' : Value}

/-! ### The current call -/

theorem parallel_constantAt (index : Nat) :
    p.Parallel (fun q => Value.Mirrors q) (constantAt index) (constantAt index) := by
  refine parallel_frame.bind fun q₁ h₁ f f' hf => ?_
  refine parallel_environment.bind fun q₂ h₂ env env' henv => ?_
  refine parallel_ofOption _ fun q₃ h₃ => ?_
  refine rel_bind (henv.heap.function? (h₂.1 _ _ hf.function)) fun k k' hk => ?_
  rw [← Array.getElem?_toList, ← Array.getElem?_toList]
  exact forall₂_getElem? (mirrors_mono hk.constants h₃) index

theorem parallel_localIndex (slot : UInt8) :
    p.Parallel Same (localIndex slot) (localIndex slot) := by
  refine parallel_frame.bind fun q₁ h₁ f f' hf => ?_
  rw [hf.slots]
  refine (parallel_size _).bind_same fun q₂ h₂ index => ?_
  refine parallel_get.bind fun q₃ h₃ m m' hm => ?_
  rw [hm.thread.stack_size]
  split
  · exact parallel_pure fun _ _ => rfl
  · exact parallel_fault _

theorem parallel_currentModule :
    p.Parallel (fun q r r' => q.pairs r.1 r'.1 ∧ r.2.Mirrors q r'.2) currentModule
      currentModule := by
  refine parallel_frame.bind fun q₁ h₁ f f' hf => ?_
  refine parallel_environment.bind fun q₂ h₂ env env' henv => ?_
  refine parallel_ofOption _ fun q₃ h₃ => ?_
  refine rel_bind (rel_mono hf.module h₂) fun h h' hp => ?_
  have hmodule := henv.heap.module? hp
  generalize env.heap.module? h = k, env'.heap.module? h' = k' at hmodule
  cases hmodule with
  | none => exact .none
  | some hk =>
    exact .some ⟨h₃.1 _ _ hp, hk.functions.imp h₃.1, mirrors_mono hk.locals h₃,
      rel_mono hk.sourceFilename h₃⟩

/-! ### Locals -/

theorem parallel_getLocal (slot : UInt8) : p.Parallel Same (getLocal slot) (getLocal slot) :=
  (parallel_localIndex slot).bind_same fun _ _ index =>
    (parallel_valueAt index).bind fun _ _ _ _ hv => parallel_push hv

theorem parallel_setLocal (slot : UInt8) : p.Parallel Same (setLocal slot) (setLocal slot) :=
  (parallel_localIndex slot).bind_same fun _ _ index =>
    (parallel_peek 0).bind fun _ _ _ _ hv => parallel_setValueAt index hv

theorem parallel_modifyModule {h h' : Handle} (hp : p.pairs h h')
    {g g' : ModuleObject → ModuleObject}
    (hg : ∀ q, p ≤ q → ∀ k k', k.Mirrors q k' → (g k).Mirrors q (g' k')) :
    p.Parallel Same (mapHeap (·.modifyModule h g)) (mapHeap (·.modifyModule h' g')) :=
  parallel_mapEnvironment fun q hq _ _ henv => henv.modifyModule (hq.1 _ _ hp) (hg q hq)

theorem parallel_modifyClass {c c' : Handle} (hp : p.pairs c c') {g g' : ClassObject → ClassObject}
    (hg : ∀ q, p ≤ q → ∀ k k', k.Mirrors q k' → (g k).Mirrors q (g' k')) :
    p.Parallel Same (mapHeap (·.modifyClass c g)) (mapHeap (·.modifyClass c' g')) :=
  parallel_mapEnvironment fun q hq _ _ henv => henv.modifyClass (hq.1 _ _ hp) (hg q hq)

theorem parallel_defineModuleLocal : p.Parallel Same defineModuleLocal defineModuleLocal := by
  refine parallel_pop.bind fun q₁ h₁ v v' hv => ?_
  refine parallel_currentModule.bind fun q₂ h₂ r r' hr => ?_
  refine parallel_cells.bind_same fun q₃ h₃ cells => ?_
  refine parallel_modifyModule (h₃.1 _ _ hr.1) fun q₄ h₄ k k' hk => ?_
  exact { hk with
    locals := forall₂_push hk.locals ((hv.mono (h₂.trans (h₃.trans h₄))).delink cells) }

theorem parallel_getModuleLocal (slot : UInt16) :
    p.Parallel Same (getModuleLocal slot) (getModuleLocal slot) := by
  refine parallel_currentModule.bind fun q₁ h₁ r r' hr => ?_
  refine (parallel_ofOption (Q := fun q => Value.Mirrors q) _ fun q₂ h₂ => ?_).bind
    fun _ _ _ _ hv => parallel_push hv
  rw [← Array.getElem?_toList, ← Array.getElem?_toList]
  exact forall₂_getElem? (mirrors_mono hr.2.locals h₂) slot.toNat

theorem parallel_setModuleLocal (slot : UInt16) :
    p.Parallel Same (setModuleLocal slot) (setModuleLocal slot) := by
  refine (parallel_peek 0).bind fun q₁ h₁ v v' hv => ?_
  refine parallel_cells.bind_same fun q₂ h₂ cells => ?_
  refine parallel_currentModule.bind fun q₃ h₃ r r' hr => ?_
  obtain ⟨h, k⟩ := r
  obtain ⟨h', k'⟩ := r'
  have hsize : k'.locals.size = k.locals.size := hr.2.locals.length_eq.symm
  dsimp only
  rw [hsize]
  split
  · refine parallel_modifyModule hr.1 fun q₄ h₄ n n' hn => ?_
    refine { hn with locals := ?_ }
    rw [Array.toList_setIfInBounds, Array.toList_setIfInBounds]
    exact forall₂_set hn.locals _ ((hv.mono (h₂.trans (h₃.trans h₄))).delink cells)
  · exact parallel_fault _

/-! ### Containers -/

theorem parallel_newArray (count : Nat) : p.Parallel Same (newArray count) (newArray count) := by
  refine (parallel_heightBelow count).bind_same fun q₁ h₁ start => ?_
  refine parallel_cells.bind_same fun q₂ h₂ cells => ?_
  refine (parallel_valuesFrom start).bind fun q₃ h₃ vs vs' hvs => ?_
  refine (parallel_truncate start).bind_same fun q₄ h₄ _ => ?_
  have hplain : List.Forall₂ (Value.Mirrors q₄) (vs.map (·.delink cells)).toList
      (vs'.map (·.delink cells)).toList := by
    rw [Array.toList_map, Array.toList_map]
    refine List.forall₂_map_left_iff.2 (List.forall₂_map_right_iff.2 (hvs.imp fun v v' hv => ?_))
    exact (hv.mono h₄).delink cells
  exact (parallel_alloc (.array hplain)).bind fun _ _ _ _ hp => parallel_push (.object hp)

/-- Both sides fill their maps with the same keys, or fail with the same cause. -/
theorem rel_fillMap {mem mem' : Memory} (hm : mem.Mirrors p mem') {vs vs' : List Value}
    (hvs : List.Forall₂ (Value.Mirrors p) vs vs') {k k' : MapObject}
    (hk : Table.Mirrors (MapObject.Entry p) k.entries k'.entries) :
    ExceptRel (fun k k' => Table.Mirrors (MapObject.Entry p) k.entries k'.entries)
      (fillMap mem vs k) (fillMap mem' vs' k') := by
  fun_induction fillMap mem vs k generalizing vs' k' with
  | case1 k key v rest text htext ih =>
    obtain ⟨key', _, hkey, htail, rfl⟩ := List.forall₂_cons_left_iff.1 hvs
    obtain ⟨v', rest', hv, hrest, rfl⟩ := List.forall₂_cons_left_iff.1 htail
    rw [hm.heap.text? hkey] at htext
    simp only [fillMap, htext, hm.cells]
    exact ih hrest (hk.insert _ ⟨rfl, hv.delink _⟩)
  | case2 k key v rest hnone =>
    obtain ⟨key', _, hkey, htail, rfl⟩ := List.forall₂_cons_left_iff.1 hvs
    obtain ⟨v', rest', hv, hrest, rfl⟩ := List.forall₂_cons_left_iff.1 htail
    rw [hm.heap.text? hkey] at hnone
    simp only [fillMap, hnone, hm.typeName_eq hkey]
    exact .error _
  | case3 vs k hshort =>
    cases hvs with
    | nil => exact .ok hk
    | cons hkey htail =>
      cases htail with
      | nil => exact .ok hk
      | cons _ _ => exact absurd rfl (hshort _ _ _)

theorem parallel_newMap (count : Nat) : p.Parallel Same (newMap count) (newMap count) := by
  refine (parallel_size _).bind_same fun q₁ h₁ length => ?_
  refine (parallel_heightBelow length).bind_same fun q₂ h₂ start => ?_
  refine (parallel_valuesFrom start).bind fun q₃ h₃ vs vs' hvs => ?_
  refine parallel_memory.bind fun q₄ h₄ mem mem' hmem => ?_
  refine (parallel_ofExcept
    (Q := fun _ k k' => Table.Mirrors (MapObject.Entry q₄) k.entries k'.entries)
    fun _ _ => rel_fillMap hmem (mirrors_mono hvs h₄) Table.mirrors_empty).bind fun q₅ h₅ k k' hk =>
      ?_
  refine (parallel_truncate start).bind_same fun q₆ h₆ _ => ?_
  have hmap : Obj.Mirrors q₄ (.map k) (.map k') := .map hk
  exact (parallel_alloc (hmap.mono (h₅.trans h₆))).bind fun _ _ _ _ hp => parallel_push (.object hp)

theorem parallel_copyValues (depth left : Nat) :
    p.Parallel Same (copyValues depth left) (copyValues depth left) := by
  induction left generalizing p with
  | zero => exact parallel_done
  | succ left ih =>
    refine (parallel_peek depth).bind fun q₁ h₁ v v' hv => ?_
    exact (parallel_push hv).bind_same fun _ _ _ => ih

theorem parallel_copyTop (count : Nat) : p.Parallel Same (copyTop count) (copyTop count) := by
  unfold copyTop
  split
  · exact parallel_done
  · exact (parallel_difference _ _).bind_same fun _ _ depth => parallel_copyValues depth count

/-! ### Arithmetic -/

theorem parallel_concatenate (hv : v.Mirrors p v') (hw : w.Mirrors p w') :
    p.Parallel (fun q h h' => q.pairs h h') (onMemory (·.concatenate v w))
      (onMemory (·.concatenate v' w')) := by
  refine parallel_onEnvironment fun q hq env env' henv => ?_
  have htext : env.memory.format v ++ env.memory.format w = env'.memory.format v' ++
      env'.memory.format w' := by
    rw [henv.memory.format_eq (hv.mono hq), henv.memory.format_eq (hw.mono hq)]
  show q.Follows _ (env.newString (env.memory.format v ++ env.memory.format w))
    (env'.newString (env'.memory.format v' ++ env'.memory.format w'))
  rw [htext]
  exact henv.newString _

/-- The result of an operation on numbers holds no handle. -/
theorem parallel_result {r : Except Cause Value} (hr : ∀ v, r = .ok v → v.object? = none) :
    p.Parallel (fun q => Value.Mirrors q) (ofExcept r) (ofExcept r) := by
  cases r with
  | ok v => exact parallel_pure fun _ _ => .refl_of_plain (hr v rfl)
  | error c => exact parallel_fault c

theorem parallel_applyBinary {mem mem' : Memory} (hm : mem.Mirrors p mem') (op : BinaryOp)
    (hv : v.Mirrors p v') (hw : w.Mirrors p w') :
    p.Parallel (fun q => Value.Mirrors q) (ofExcept (mem.applyBinary op v w))
      (ofExcept (mem'.applyBinary op v' w')) := by
  rw [hm.applyBinary_eq op hv hw]
  exact parallel_result fun _ => Memory.object?_applyBinary

theorem parallel_add : p.Parallel Same Exec.add Exec.add := by
  refine (parallel_peek 0).bind fun q₁ h₁ b b' hb => ?_
  refine (parallel_peek 1).bind fun q₂ h₂ a a' ha => ?_
  refine parallel_memory.bind fun q₃ h₃ mem mem' hmem => ?_
  have ha₃ := ha.mono h₃
  have hb₃ := hb.mono (h₂.trans h₃)
  -- what is done with the result
  have hstore : ∀ q, q₃ ≤ q → ∀ v v', v.Mirrors q v' → q.Parallel Same
      (do let _ ← pop; setPeek 0 v) (do let _ ← pop; setPeek 0 v') := by
    intro q hq v v' hv
    exact parallel_pop.bind fun r hr _ _ _ => parallel_setPeek 0 (hv.mono hr)
  rw [← hmem.heap.kind? ha₃, ← hmem.heap.kind? hb₃]
  split
  · exact ((parallel_concatenate ha₃ hb₃).imp fun q _ h h' hp => .object hp).map.bind hstore
  · exact (parallel_applyBinary hmem .add ha₃ hb₃).bind hstore

theorem parallel_binary (op : BinaryOp) : p.Parallel Same (binary op) (binary op) := by
  refine parallel_pop.bind fun q₁ h₁ b b' hb => ?_
  refine parallel_pop.bind fun q₂ h₂ a a' ha => ?_
  refine parallel_memory.bind fun q₃ h₃ mem mem' hmem => ?_
  exact (parallel_applyBinary hmem op (ha.mono h₃) (hb.mono (h₂.trans h₃))).bind
    fun _ _ _ _ hv => parallel_push hv

theorem parallel_unary (op : UnaryOp) : p.Parallel Same (unary op) (unary op) := by
  refine parallel_pop.bind fun q₁ h₁ a a' ha => ?_
  refine parallel_memory.bind fun q₂ h₂ mem mem' hmem => ?_
  rw [hmem.applyUnary_eq op (ha.mono h₂)]
  exact (parallel_result fun _ => Memory.object?_applyUnary).bind fun _ _ _ _ hv => parallel_push hv

theorem parallel_compare (expected : Bool) :
    p.Parallel Same (Exec.compare expected) (Exec.compare expected) := by
  refine parallel_pop.bind fun q₁ h₁ b b' hb => ?_
  refine parallel_pop.bind fun q₂ h₂ a a' ha => ?_
  refine parallel_memory.bind fun q₃ h₃ mem mem' hmem => ?_
  rw [hmem.looselyEqual_eq (ha.mono h₃) (hb.mono (h₂.trans h₃))]
  exact parallel_push (.integer _)

/-! ### Control -/

theorem parallel_ofExcept_of_eq {α : Type} {r r' : Except Cause α} (h : r = r') :
    p.Parallel Same (ofExcept r) (ofExcept r') :=
  h ▸ parallel_ofExcept_same r

theorem parallel_switchTable (count : UInt16) :
    p.Parallel Same (switchTable count) (switchTable count) := by
  refine parallel_pop.bind fun q₁ h₁ v v' hv => ?_
  refine parallel_frame.bind fun q₂ h₂ f f' hf => ?_
  refine parallel_memory.bind fun q₃ h₃ mem mem' hmem => ?_
  have hfunction := hmem.heap.function? (h₃.1 _ _ hf.function)
  have hvalue := hv.mono (h₂.trans h₃)
  have hconstants : List.Forall₂ (Value.Mirrors q₃)
      (((mem.heap.function? f.function).map (·.constants)).getD #[]).toList
      (((mem'.heap.function? f'.function).map (·.constants)).getD #[]).toList := by
    generalize mem.heap.function? f.function = k, mem'.heap.function? f'.function = k' at hfunction
    cases hfunction with
    | none => exact .nil
    | some hk => exact hk.constants
  generalize ((mem.heap.function? f.function).map (·.constants)).getD #[] = ks at hconstants ⊢
  generalize ((mem'.heap.function? f'.function).map (·.constants)).getD #[] = ks' at hconstants ⊢
  dsimp only
  rw [hf.ip, hf.code]
  refine (parallel_size _).bind_same fun q₄ h₄ stop => ?_
  refine (parallel_ofExcept_of_eq ?_).bind_same fun q₅ h₅ found => ?_
  -- the entries of the table are compared alike
  · congr 1
    funext index
    have hconstant := forall₂_getElem? hconstants index
    rw [Array.getElem?_toList, Array.getElem?_toList] at hconstant
    generalize ks[index]? = k, ks'[index]? = k' at hconstant
    cases hconstant with
    | none => rfl
    | some hk => exact congrArg Except.ok (hmem.looselyEqual_eq hvalue hk)
  refine (parallel_moveTo _).bind_same fun q₆ h₆ _ => ?_
  cases found.1 with
  | none => exact parallel_done
  | some distance =>
    refine (parallel_size _).bind_same fun q₇ h₇ target => ?_
    exact (parallel_offset _).bind_same fun _ _ step => parallel_jump step

theorem parallel_ret : p.Parallel Same ret ret := by
  refine parallel_pop.bind fun q₁ h₁ v v' hv => ?_
  refine parallel_frame.bind fun q₂ h₂ f f' hf => ?_
  rw [hf.slots]
  refine (parallel_modify fun q hq m m' hm =>
    hm.mapFrames (g := (·.pop)) (k := (·.pop)) ?_).bind_same
    fun q₃ h₃ _ => ?_
  · rw [Array.toList_pop, Array.toList_pop]
    exact forall₂_dropLast hm.thread.frames
  · exact (parallel_truncate _).bind_same fun q₄ h₄ _ =>
      parallel_push (hv.mono (h₂.trans (h₃.trans h₄)))

/-! ### Classes -/

theorem parallel_newClass (hash : UInt32) (kind : UInt8) :
    p.Parallel Same (newClass hash kind) (newClass hash kind) := by
  refine parallel_environment.bind fun q₁ h₁ env env' henv => ?_
  rw [henv.token?_eq]
  refine (parallel_alloc (.string _)).bind fun q₂ h₂ text text' htext => ?_
  have hclass : Obj.Mirrors q₂
      (.scriptClass { ClassObject.ofHash hash with
        name := some text, kind := if kind = 1 then .extended else .normal })
      (.scriptClass { ClassObject.ofHash hash with
        name := some text', kind := if kind = 1 then .extended else .normal }) :=
    .scriptClass
      { hash := rfl, kind := rfl, parentHash := rfl, entityBound := rfl, name := .some htext
        methods := Table.mirrors_empty, fields := Table.mirrors_empty, initializer := .none
        parent := .none }
  exact (parallel_alloc hclass).bind fun _ _ _ _ hp => parallel_push (.object hp)

theorem parallel_inherit (hash : UInt32) :
    p.Parallel Same (Exec.inherit hash) (Exec.inherit hash) := by
  refine (parallel_peek 0).bind fun q₁ h₁ v v' hv => ?_
  refine parallel_environment.bind fun q₂ h₂ env env' henv => ?_
  have hclass := rel_asClass? henv.heap (hv.mono h₂)
  generalize asClass? env.heap v = c, asClass? env'.heap v' = c' at hclass
  cases hclass with
  | none => exact parallel_fault _
  | some hp =>
    exact parallel_modifyClass hp fun _ _ _ _ hk => { hk with parentHash := rfl, parent := .none }

/-- Looking at the stack leaves the machines as they are. -/
theorem outcome_peek {α β : Type} {R : Pairing → α → β → Prop} {m m' : Machine}
    (hm : m.Mirrors p m') (depth : Nat) {g : Value → Exec α} {g' : Value → Exec β}
    (hg : ∀ q, p ≤ q → m.Mirrors q m' → ∀ v v', v.Mirrors q v' → q.Outcome R (g v m) (g' v' m')) :
    p.Outcome R ((peek depth >>= g) m) ((peek depth >>= g') m') := by
  have hout := parallel_peek depth p le_rfl m m' hm
  show p.Outcome R (EStateM.bind (peek depth) g m) (EStateM.bind (peek depth) g' m')
  unfold EStateM.bind
  generalize hr : peek depth m = r, hr' : peek depth m' = r' at hout
  cases hout with
  | ok hle hm₁ hv =>
    obtain ⟨-, -, rfl⟩ := peek_eq_ok hr
    obtain ⟨-, -, rfl⟩ := peek_eq_ok hr'
    exact (hg _ hle hm₁ _ _ hv).mono_left hle
  | error e hle hm₁ => exact .error e hle hm₁

theorem parallel_method (index : UInt8) (hash : UInt32) :
    p.Parallel Same (method index hash) (method index hash) := by
  refine parallel_frame.bind fun q₁ h₁ f f' hf => ?_
  intro q₂ h₂ m m' hm
  -- the function is looked up in the heap that the class is looked up in
  have hfunction : Option.Rel q₂.pairs
      ((f.module.bind m.env.heap.module?).bind (·.functions[index.toNat]?))
      ((f'.module.bind m'.env.heap.module?).bind (·.functions[index.toNat]?)) := by
    refine rel_bind (rel_bind (rel_mono hf.module h₂) fun _ _ hp => hm.env.heap.module? hp)
      fun k k' hk => ?_
    rw [← Array.getElem?_toList, ← Array.getElem?_toList]
    exact forall₂_getElem? hk.functions _
  show q₂.Outcome Same
    ((ofOption _ ((f.module.bind m.env.heap.module?).bind (·.functions[index.toNat]?)) >>= _) m)
    ((ofOption _ ((f'.module.bind m'.env.heap.module?).bind (·.functions[index.toNat]?)) >>= _) m')
  generalize (f.module.bind m.env.heap.module?).bind (·.functions[index.toNat]?) = k,
    (f'.module.bind m'.env.heap.module?).bind (·.functions[index.toNat]?) = k' at hfunction
  cases hfunction with
  | none => exact .error _ le_rfl hm
  | some hp =>
    refine outcome_peek hm 0 fun q₃ h₃ hm₃ v v' hv => ?_
    refine ((parallel_ofOption (Q := fun _ => q₃.pairs) _ fun _ _ =>
      rel_asClass? hm₃.env.heap hv).bind fun q₄ h₄ c c' hc => ?_) q₃ le_rfl m m' hm₃
    refine (parallel_mapEnvironment fun q₅ h₅ _ _ henv => ?_).bind_same fun q₅ h₅ _ => ?_
    · exact henv.defineMethod (h₅.1 _ _ (h₄.1 _ _ hc)) (h₅.1 _ _ (h₄.1 _ _ (h₃.1 _ _ hp))) hash
    · exact parallel_pop.bind fun _ _ _ _ _ => parallel_done

theorem parallel_getSuperclass : p.Parallel Same getSuperclass getSuperclass := by
  refine parallel_pop.bind fun q₁ h₁ v v' hv => ?_
  refine parallel_environment.bind fun q₂ h₂ env env' henv => ?_
  have hclass := henv.classOf? (hv.mono h₂)
  generalize env.classOf? v = c, env'.classOf? v' = c' at hclass
  cases hclass with
  | none => exact parallel_fault _
  | some hp =>
    refine (parallel_resolveParent hp).bind fun q₃ h₃ parent parent' hparent => ?_
    cases hparent with
    | some hparent => exact parallel_push (.object hparent)
    | none => exact parallel_fault _

/-! ### Dispatch -/

variable {executor : Exec Unit}

theorem parallel_importClass (hx : p.Parallel Same executor executor) (index : Nat) :
    p.Parallel Same (importClass executor index) (importClass executor index) := by
  refine (parallel_constantAt index).bind fun q₁ h₁ v v' hv => ?_
  refine parallel_memory.bind fun q₂ h₂ mem mem' hmem => ?_
  rw [← hmem.heap.text? (hv.mono h₂), ← hmem.typeName_eq (hv.mono h₂)]
  cases mem.heap.text? v with
  | none => exact parallel_fault _
  | some name =>
    refine (parallel_toExec (parallel_loadClass (hx.mono (h₁.trans h₂)) name)).bind_same
      fun _ _ loaded => ?_
    split
    · exact parallel_done
    · exact parallel_fault _

theorem stackText_eq {m m' : Machine} (hm : m.Mirrors p m') :
    m.thread.stackText m.env.memory = m'.thread.stackText m'.env.memory := by
  unfold Thread.stackText
  refine congrArg (fun lines => "Stack:\n" ++ String.join lines) (List.ext_getElem? fun i => ?_)
  rw [List.getElem?_mapIdx, List.getElem?_mapIdx]
  refine map_eq_of_rel (forall₂_getElem? (List.forall₂_reverse_iff.2 hm.thread.stack) i)
    fun v v' hv => ?_
  rw [hm.env.memory.format_eq hv]

/-- An instruction is the same on both sides. -/
theorem parallel_perform (hx : p.Parallel Same executor executor) (instruction : Instruction)
    (hi : instruction.IsDecoded) :
    p.Parallel Same (perform executor instruction) (perform executor instruction) := by
  cases instruction with
  | getGlobal hash => exact (parallel_getGlobal hash).bind fun _ _ _ _ hv => parallel_push hv
  | setGlobal hash => exact (parallel_peek 0).bind fun _ _ _ _ hv => parallel_setGlobal hash hv
  | defineGlobal hash =>
    refine (parallel_peek 0).bind fun _ _ _ _ hv => ?_
    exact (parallel_defineGlobal hash hv).bind_same fun _ _ _ => parallel_pop.bind fun _ _ _ _ _ =>
      parallel_done
  | defineConstant hash => exact parallel_pop.bind fun _ _ _ _ hv => parallel_defineConstant hash hv
  | getLocal slot => exact parallel_getLocal slot
  | setLocal slot => exact parallel_setLocal slot
  | defineModuleLocal => exact parallel_defineModuleLocal
  | getModuleLocal slot => exact parallel_getModuleLocal slot
  | setModuleLocal slot => exact parallel_setModuleLocal slot
  | getProperty hash =>
    refine (parallel_peek 0).bind fun _ _ _ _ hv => ?_
    exact (parallel_getProperty hv hash).bind fun _ _ _ _ hw => parallel_setPeek 0 hw
  | setProperty hash =>
    refine (parallel_peek 0).bind fun q₁ h₁ v v' hv => ?_
    refine (parallel_peek 1).bind fun q₂ h₂ o o' ho => ?_
    refine (parallel_setProperty ho hash (hv.mono h₂)).bind_same fun q₃ h₃ _ => ?_
    exact parallel_pop.bind fun q₄ h₄ _ _ _ => parallel_setPeek 0 (hv.mono (h₂.trans (h₃.trans h₄)))
  | hasProperty hash =>
    refine parallel_pop.bind fun _ _ _ _ hv => ?_
    exact (parallel_hasProperty hv hash).bind_same fun _ _ _ => parallel_push (.integer _)
  | getElement =>
    refine parallel_pop.bind fun q₁ h₁ k k' hk => ?_
    refine parallel_pop.bind fun q₂ h₂ o o' ho => ?_
    exact (parallel_getElement ho (hk.mono h₂)).bind fun _ _ _ _ hv => parallel_push hv
  | setElement =>
    refine (parallel_peek 0).bind fun q₁ h₁ v v' hv => ?_
    refine (parallel_peek 1).bind fun q₂ h₂ k k' hk => ?_
    refine (parallel_peek 2).bind fun q₃ h₃ o o' ho => ?_
    refine parallel_cells.bind_same fun q₄ h₄ cells => ?_
    have hv₄ := hv.mono (h₂.trans (h₃.trans h₄))
    refine (parallel_setElement (ho.mono h₄) (hk.mono (h₃.trans h₄)) (hv₄.delink cells)).bind_same
      fun q₅ h₅ _ => ?_
    exact (parallel_popMany 2).bind_same fun q₆ h₆ _ => parallel_setPeek 0 (hv₄.mono (h₅.trans h₆))
  | newArray count => exact parallel_newArray _
  | newMap count => exact parallel_newMap _
  | push v => exact parallel_push (.refl_of_plain hi)
  | constant index => exact (parallel_constantAt _).bind fun _ _ _ _ hv => parallel_push hv
  | pop => exact parallel_popMany 1
  | popN count => exact parallel_popMany _
  | copy count => exact parallel_copyTop _
  | saveValue =>
    refine parallel_pop.bind fun q₁ h₁ v v' hv => ?_
    exact parallel_modify fun q hq m m' hm => ⟨hm.env, { hm.thread with register := hv.mono hq }⟩
  | loadValue => exact parallel_get.bind fun _ _ _ _ hm => parallel_push hm.thread.register
  | print =>
    refine (parallel_peek 0).bind fun q₁ h₁ v v' hv => ?_
    refine parallel_memory.bind fun q₂ h₂ mem mem' hmem => ?_
    refine (parallel_report _ (hmem.format_eq (hv.mono h₂))).bind_same fun _ _ _ => ?_
    exact parallel_popMany 1
  | printStack => exact parallel_get.bind fun _ _ _ _ hm => parallel_report _ (stackText_eq hm)
  | jump distance => exact parallel_jump _
  | jumpIfFalse distance =>
    refine (parallel_peek 0).bind fun q₁ h₁ v v' hv => ?_
    refine parallel_cells.bind_same fun q₂ h₂ cells => ?_
    rw [hv.isFalsey cells]
    split
    · exact parallel_jump _
    · exact parallel_done
  | switchTable count => exact parallel_switchTable count
  | failsafe offset =>
    refine parallel_frame.bind fun q₁ h₁ f f' hf => ?_
    exact parallel_mapFrame fun _ _ _ _ hf => { hf with failsafe := rfl }
  | ret => exact parallel_ret
  | add => exact parallel_add
  | binary op => exact parallel_binary op
  | unary op => exact parallel_unary op
  | equal expected => exact parallel_compare expected
  | typeOf =>
    refine parallel_pop.bind fun q₁ h₁ v v' hv => ?_
    refine parallel_memory.bind fun q₂ h₂ mem mem' hmem => ?_
    rw [hmem.typeOf_eq (hv.mono h₂)]
    exact (parallel_alloc (.string _)).bind fun _ _ _ _ hp => parallel_push (.object hp)
  | newClass hash kind => exact parallel_newClass hash kind
  | inherit hash => exact parallel_inherit hash
  | method index hash => exact parallel_method index hash
  | getSuperclass => exact parallel_getSuperclass
  | call argc => exact parallel_callValue _
  | invoke argc hash isSuper => exact parallel_invoke hash _ isSuper
  | newInstance argc => exact parallel_instantiate _
  | importClass index => exact parallel_importClass hx _
  | invalid op => exact parallel_fault _
  | unsupported op => exact parallel_fault _

theorem parallel_fetchOpcode :
    p.Parallel (fun q r r' => r.1.Mirrors q r'.1 ∧ r.2 = r'.2 ∧ r.1.ip < r.1.code.size) fetchOpcode
      fetchOpcode := by
  refine parallel_frame.bind fun q₁ h₁ f f' hf => ?_
  refine (parallel_mapFrame (g := fun f => { f with ipLast := f.ip })
    (k := fun f => { f with ipLast := f.ip }) fun _ _ _ _ hg =>
      { hg with ipLast := hg.ip }).bind_same fun q₂ h₂ _ => ?_
  rw [hf.ip]
  refine (parallel_size _).bind_same fun q₃ h₃ _ => ?_
  rw [hf.code]
  cases hbyte : Code.byte? f.code f.ip with
  | none => exact parallel_fault _
  | some byte =>
    dsimp only
    cases Opcode.ofByte? byte with
    | none => exact parallel_fault _
    | some op =>
      exact parallel_pure fun q hq =>
        ⟨hf.mono (h₂.trans (h₃.trans hq)), rfl, Code.lt_size_of_byte? hbyte⟩

theorem parallel_step (hx : p.Parallel Same executor executor) :
    p.Parallel Same (step executor) (step executor) := by
  refine parallel_fetchOpcode.bind fun q₁ h₁ r r' hr => ?_
  obtain ⟨f, op⟩ := r
  obtain ⟨f', op'⟩ := r'
  obtain ⟨hf, rfl, hlt⟩ := hr
  refine parallel_get.bind fun q₂ h₂ m m' hm => ?_
  dsimp only at hf hlt ⊢
  rw [hm.thread.id, hf.ip, hf.code]
  refine (parallel_report _ rfl).bind_same fun q₃ h₃ _ => ?_
  refine (parallel_size _).bind_same fun q₄ h₄ _ => ?_
  cases hdecode : Instruction.decode? f.code (f.ip + 1) op with
  | none => exact parallel_fault _
  | some r =>
    obtain ⟨instruction, next⟩ := r
    dsimp only
    refine (parallel_mapFrame (g := fun f => { f with ip := next })
      (k := fun f => { f with ip := next }) fun _ _ _ _ hg => { hg with ip := rfl }).bind_same
        fun q₅ h₅ _ => ?_
    exact parallel_perform (hx.mono (h₁.trans (h₂.trans (h₃.trans (h₄.trans h₅))))) instruction
      (Instruction.decode?_eq_some hdecode hlt).1

/-! ### Runs -/

/-- A debugger does not break in before a function that it does not watch. -/
theorem checkBreakpoint_of_unwatched {m : Machine}
    (hback : ∀ f ∈ m.thread.frames.back?, m.thread.debug.shouldBreak f.function f.ip = false) :
    checkBreakpoint executor m = .ok () m := by
  have hread : (get : Exec Machine) m = .ok m m := rfl
  unfold checkBreakpoint
  rw [bind_of_ok hread]
  cases hf : m.thread.frames.back? with
  | none => rfl
  | some f =>
    cases m.thread.debug.debugger with
    | none => rfl
    | some d =>
      dsimp only
      rw [hback f hf]
      rfl

/-- The function of the current call is there, and breaks are at others. -/
theorem unwatched_of_mirrors {m m' : Machine} (hm : m.Mirrors p m') :
    ∀ f ∈ m.thread.frames.back?, m.thread.debug.shouldBreak f.function f.ip = false := by
  intro f hf
  have hframes := rel_back? hm.thread.frames
  rw [Option.mem_def.1 hf] at hframes
  generalize m'.thread.frames.back? = f' at hframes
  cases hframes with
  | some hframe =>
    have hgeneration := (hm.env.heap.generation_of_pairs hframe.function).1
    refine Bool.eq_false_iff.2 fun hbreak => ?_
    exact hm.thread.quiet _ _ (hm.thread.debug ▸ hbreak) hgeneration

theorem parallel_checkBreakpoint :
    p.Parallel Same (checkBreakpoint executor) (checkBreakpoint executor) := by
  intro q hq m m' hm
  rw [checkBreakpoint_of_unwatched (unwatched_of_mirrors hm),
    checkBreakpoint_of_unwatched (unwatched_of_mirrors hm.swap)]
  exact .ok le_rfl hm rfl

/-- **Whole runs in parallel.** -/
theorem parallel_execute (fuel : Nat) : p.Parallel Same (execute fuel) (execute fuel) := by
  induction fuel generalizing p with
  | zero =>
    intro q hq m m' hm
    unfold execute
    rw [hm.thread.isActive_eq]
    split
    · exact .error _ le_rfl hm
    · exact .ok le_rfl hm rfl
  | succ fuel ih =>
    intro q hq m m' hm
    unfold execute
    rw [hm.thread.isActive_eq]
    split
    · have hcheck : q.Outcome Same (checkBreakpoint (execute fuel) m)
          (checkBreakpoint (execute fuel) m') :=
        parallel_checkBreakpoint q le_rfl m m' hm
      generalize checkBreakpoint (execute fuel) m = r, checkBreakpoint (execute fuel) m' = r'
        at hcheck
      cases hcheck with
      | error e hle hm₁ => exact .error e hle hm₁
      | @ok q₁ _ _ m₁ m₁' h₁ hm₁ _ =>
        have hstep := parallel_step ih q₁ le_rfl m₁ m₁' hm₁
        dsimp only
        generalize step (execute fuel) m₁ = r, step (execute fuel) m₁' = r' at hstep
        cases hstep with
        | error e hle hm₂ => exact .error e (h₁.trans hle) hm₂
        | @ok q₂ _ _ m₂ m₂' h₂ hm₂ _ => exact (ih q₂ le_rfl m₂ m₂' hm₂).mono_left (h₁.trans h₂)
    · exact .ok le_rfl hm rfl

end Pairing
end ScriptVm
