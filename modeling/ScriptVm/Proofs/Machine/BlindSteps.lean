import ScriptVm.Proofs.Machine.BlindRuns
import ScriptVm.Proofs.Machine.Execution
import ScriptVm.Proofs.Machine.ParallelSteps

/-!
# Steps without line tables

* There is one lemma for each instruction, and `blind_step` puts them together.
* `blind_execute` is the run lemma, by induction on the fuel. No debugger breaks in where debugging
  is disabled.
-/

namespace ScriptVm

@[simp] theorem Thread.stackText_stripped (t : Thread) (mem : Memory) :
    t.stackText mem.stripped = t.stackText mem := by
  unfold Thread.stackText
  rw [Memory.format_stripped]

namespace Exec

/-! ### The current call -/

theorem blind_constantAt (index : Nat) : Blind (constantAt index) := by
  refine blind_frame.bind fun f => ?_
  refine blind_environment (fun earlier env => ?_) fun env => blind_ofOption _ _
  dsimp only [Environment.heap_stripped]
  rw [Heap.function?_stripped]
  cases env.heap.function? f.function <;> rfl

theorem blind_localIndex (slot : UInt8) : Blind (localIndex slot) := by
  refine blind_frame.bind fun f => ?_
  refine (blind_size _).bind fun index => ?_
  refine blind_get (fun _ _ _ => rfl) fun m => ?_
  split
  · exact blind_pure index
  · exact blind_fault _

theorem blind_currentModule : Blind currentModule := by
  refine blind_frame.bind fun f => ?_
  refine blind_environment (fun earlier env => ?_) fun env => blind_ofOption _ _
  simp

/-! ### Locals -/

theorem blind_getLocal (slot : UInt8) : Blind (getLocal slot) :=
  (blind_localIndex slot).bind fun index => (blind_valueAt index).bind fun v => blind_push v

theorem blind_setLocal (slot : UInt8) : Blind (setLocal slot) :=
  (blind_localIndex slot).bind fun index => (blind_peek 0).bind fun v => blind_setValueAt index v

theorem blind_defineModuleLocal : Blind defineModuleLocal :=
  blind_pop.bind fun _ => blind_currentModule.bind fun r => blind_cells.bind fun _ =>
    blind_modifyModule r.1 _

theorem blind_getModuleLocal (slot : UInt16) : Blind (getModuleLocal slot) :=
  blind_currentModule.bind fun _ => (blind_ofOption _ _).bind fun v => blind_push v

theorem blind_setModuleLocal (slot : UInt16) : Blind (setModuleLocal slot) := by
  refine (blind_peek 0).bind fun v => ?_
  refine blind_cells.bind fun cells => ?_
  refine blind_currentModule.bind fun r => ?_
  dsimp only
  split
  · exact blind_modifyModule r.1 _
  · exact blind_fault _

/-! ### Containers -/

theorem blind_newArray (count : Nat) : Blind (newArray count) := by
  refine (blind_heightBelow count).bind fun start => ?_
  refine blind_cells.bind fun cells => ?_
  refine (blind_valuesFrom start).bind fun values => ?_
  refine (blind_truncate start).bind fun _ => ?_
  exact (blind_alloc rfl).bind fun h => blind_push (.object h)

@[simp] theorem fillMap_stripped (mem : Memory) : fillMap mem.stripped = fillMap mem := by
  funext vs m
  fun_induction fillMap mem vs m with
  | case1 m key v rest text htext ih =>
    simp only [fillMap, Memory.heap_stripped, Heap.text?_stripped, htext, Memory.cells_stripped]
    exact ih
  | case2 m key v rest hnone =>
    simp only [fillMap, Memory.heap_stripped, Heap.text?_stripped, hnone, Memory.typeName_stripped]
  | case3 vs m hshort =>
    unfold fillMap
    split
    · exact absurd rfl (hshort _ _ _)
    · rfl

theorem blind_newMap (count : Nat) : Blind (newMap count) := by
  refine (blind_size _).bind fun length => ?_
  refine (blind_heightBelow length).bind fun start => ?_
  refine (blind_valuesFrom start).bind fun values => ?_
  refine blind_memory (fun mem => ?_) fun mem => ?_
  · simp
  · refine (blind_ofExcept _).bind fun map => ?_
    refine (blind_truncate start).bind fun _ => ?_
    exact (blind_alloc rfl).bind fun h => blind_push (.object h)

theorem blind_copyValues (depth left : Nat) : Blind (copyValues depth left) := by
  induction left with
  | zero => exact blind_pure ()
  | succ left ih => exact (blind_peek depth).bind fun v => (blind_push v).bind fun _ => ih

theorem blind_copyTop (count : Nat) : Blind (copyTop count) := by
  unfold copyTop
  split
  · exact blind_pure ()
  · exact (blind_difference _ _).bind fun depth => blind_copyValues depth count

/-! ### Arithmetic -/

theorem blind_add : Blind Exec.add := by
  refine (blind_peek 0).bind fun b => ?_
  refine (blind_peek 1).bind fun a => ?_
  refine blind_memory (fun mem => ?_) fun mem => ?_
  · simp
  · have hstore : ∀ v, Blind (do let _ ← pop; setPeek 0 v) :=
      fun v => blind_pop.bind fun _ => blind_setPeek 0 v
    split
    · exact ((blind_concatenate a b).map Value.object).bind hstore
    · exact (blind_ofExcept _).bind hstore

theorem blind_binary (op : BinaryOp) : Blind (binary op) := by
  refine blind_pop.bind fun b => ?_
  refine blind_pop.bind fun a => ?_
  refine blind_memory (fun mem => ?_) fun mem => ?_
  · simp
  · exact (blind_ofExcept _).bind fun v => blind_push v

theorem blind_unary (op : UnaryOp) : Blind (unary op) := by
  refine blind_pop.bind fun a => ?_
  refine blind_memory (fun mem => ?_) fun mem => ?_
  · simp
  · exact (blind_ofExcept _).bind fun v => blind_push v

theorem blind_compare (expected : Bool) : Blind (Exec.compare expected) := by
  refine blind_pop.bind fun b => ?_
  refine blind_pop.bind fun a => ?_
  refine blind_memory (fun mem => ?_) fun mem => blind_push _
  simp

/-! ### Control -/

theorem blind_switchTable (count : UInt16) : Blind (switchTable count) := by
  refine blind_pop.bind fun v => ?_
  refine blind_frame.bind fun f => ?_
  refine blind_memory (fun mem => ?_) fun mem => ?_
  · have hconstants : (mem.heap.stripped.function? f.function).map (·.constants) =
        (mem.heap.function? f.function).map (·.constants) := by
      rw [Heap.function?_stripped, Option.map_map]
      rfl
    simp only [Memory.heap_stripped, Memory.looselyEqual_stripped, hconstants]
  · refine (blind_size _).bind fun stop => ?_
    refine (blind_ofExcept _).bind fun found => ?_
    refine (blind_moveTo _).bind fun _ => ?_
    split
    · refine (blind_size _).bind fun target => ?_
      exact (blind_offset _).bind fun distance => blind_jump distance
    · exact blind_pure ()

theorem blind_ret : Blind ret := by
  refine blind_pop.bind fun result => ?_
  refine blind_frame.bind fun f => ?_
  refine (blind_modify fun _ _ hm => hm.mapFrames (·.pop)).bind fun _ => ?_
  exact (blind_truncate f.slots).bind fun _ => blind_push result

/-! ### Classes -/

theorem blind_newClass (hash : UInt32) (kind : UInt8) : Blind (newClass hash kind) := by
  refine blind_environment (fun _ _ => rfl) fun env => ?_
  refine (blind_alloc rfl).bind fun text => ?_
  exact (blind_alloc rfl).bind fun c => blind_push (.object c)

theorem blind_inherit (hash : UInt32) : Blind (Exec.inherit hash) := by
  refine (blind_peek 0).bind fun v => ?_
  refine blind_environment (fun earlier env => ?_) fun env => ?_
  · simp
  · split
    · exact blind_modifyClass _ _
    · exact blind_fault _

theorem blind_method (index : UInt8) (hash : UInt32) : Blind (method index hash) := by
  refine blind_frame.bind fun f => ?_
  refine blind_environment (fun earlier env => ?_) fun env => ?_
  · simp
  · refine (blind_ofOption _ _).bind fun function => ?_
    refine (blind_peek 0).bind fun v => ?_
    refine (blind_ofOption _ _).bind fun c => ?_
    refine (blind_mapEnvironment (u := (·.defineMethod c function hash))
      (fun earlier env => env.defineMethod_stripped earlier c function hash)
      fun env => env.natives_defineMethod c function hash).bind fun _ => ?_
    exact blind_pop.bind fun _ => blind_pure ()

theorem blind_getSuperclass : Blind getSuperclass := by
  refine blind_pop.bind fun v => ?_
  refine blind_environment (fun earlier env => ?_) fun env => ?_
  · simp
  · split
    · refine (blind_resolveParent _).bind fun parent => ?_
      cases parent with
      | some p => exact blind_push _
      | none => exact blind_fault _
    · exact blind_fault _

/-! ### Dispatch -/

variable {executor : Exec Unit}

theorem blind_importClass (hx : Blind executor) (index : Nat) :
    Blind (importClass executor index) := by
  refine (blind_constantAt index).bind fun v => ?_
  refine blind_memory (fun mem => ?_) fun mem => ?_
  · simp
  · split
    · exact blind_fault _
    · refine (blind_toExec (blind_loadClass hx _)).bind fun loaded => ?_
      split
      · exact blind_pure ()
      · exact blind_fault _

/-- No instruction looks at a line table. -/
theorem blind_perform (hx : Blind executor) (instruction : Instruction) :
    Blind (perform executor instruction) := by
  cases instruction with
  | getGlobal hash => exact (blind_getGlobal hash).bind fun v => blind_push v
  | setGlobal hash => exact (blind_peek 0).bind fun v => blind_setGlobal hash v
  | defineGlobal hash =>
    refine (blind_peek 0).bind fun v => ?_
    exact (blind_defineGlobal hash v).bind fun _ => blind_pop.bind fun _ => blind_pure ()
  | defineConstant hash => exact blind_pop.bind fun v => blind_defineConstant hash v
  | getLocal slot => exact blind_getLocal slot
  | setLocal slot => exact blind_setLocal slot
  | defineModuleLocal => exact blind_defineModuleLocal
  | getModuleLocal slot => exact blind_getModuleLocal slot
  | setModuleLocal slot => exact blind_setModuleLocal slot
  | getProperty hash =>
    refine (blind_peek 0).bind fun object => ?_
    exact (blind_getProperty object hash).bind fun v => blind_setPeek 0 v
  | setProperty hash =>
    refine (blind_peek 0).bind fun v => ?_
    refine (blind_peek 1).bind fun object => ?_
    refine (blind_setProperty object hash v).bind fun _ => ?_
    exact blind_pop.bind fun _ => blind_setPeek 0 v
  | hasProperty hash =>
    refine blind_pop.bind fun object => ?_
    exact (blind_hasProperty object hash).bind fun found => blind_push _
  | getElement =>
    refine blind_pop.bind fun position => ?_
    refine blind_pop.bind fun object => ?_
    exact (blind_getElement object position).bind fun v => blind_push v
  | setElement =>
    refine (blind_peek 0).bind fun v => ?_
    refine (blind_peek 1).bind fun position => ?_
    refine (blind_peek 2).bind fun object => ?_
    refine blind_cells.bind fun cells => ?_
    refine (blind_setElement object position _).bind fun _ => ?_
    exact (blind_popMany 2).bind fun _ => blind_setPeek 0 v
  | newArray count => exact blind_newArray _
  | newMap count => exact blind_newMap _
  | push v => exact blind_push v
  | constant index => exact (blind_constantAt _).bind fun v => blind_push v
  | pop => exact blind_popMany 1
  | popN count => exact blind_popMany _
  | copy count => exact blind_copyTop _
  | saveValue =>
    refine blind_pop.bind fun v => ?_
    exact blind_mapThread (u := fun t => { t with register := v }) fun _ => rfl
  | loadValue => exact blind_get (fun _ _ _ => rfl) fun m => blind_push m.thread.register
  | print =>
    refine (blind_peek 0).bind fun v => ?_
    refine blind_memory (fun mem => ?_) fun mem => ?_
    · simp
    · exact (blind_report _ _).bind fun _ => blind_popMany 1
  | printStack =>
    refine blind_get (fun earlier env t => ?_) fun m => blind_report _ _
    simp
  | jump distance => exact blind_jump _
  | jumpIfFalse distance =>
    refine (blind_peek 0).bind fun v => ?_
    refine blind_cells.bind fun cells => ?_
    split
    · exact blind_jump _
    · exact blind_pure ()
  | switchTable count => exact blind_switchTable count
  | failsafe offset => exact blind_frame.bind fun _ => blind_mapFrame _
  | ret => exact blind_ret
  | add => exact blind_add
  | binary op => exact blind_binary op
  | unary op => exact blind_unary op
  | equal expected => exact blind_compare expected
  | typeOf =>
    refine blind_pop.bind fun v => ?_
    refine blind_memory (fun mem => ?_) fun mem => ?_
    · simp
    · exact (blind_alloc rfl).bind fun h => blind_push (.object h)
  | newClass hash kind => exact blind_newClass hash kind
  | inherit hash => exact blind_inherit hash
  | method index hash => exact blind_method index hash
  | getSuperclass => exact blind_getSuperclass
  | call argc => exact blind_callValue _
  | invoke argc hash isSuper => exact blind_invoke hash _ isSuper
  | newInstance argc => exact blind_instantiate _
  | importClass index => exact blind_importClass hx _
  | invalid op => exact blind_fault _
  | unsupported op => exact blind_fault _

theorem blind_fetchOpcode : Blind fetchOpcode := by
  refine blind_frame.bind fun f => ?_
  refine (blind_mapFrame _).bind fun _ => ?_
  refine (blind_size _).bind fun _ => ?_
  split
  · exact blind_fault _
  · split
    · exact blind_fault _
    · exact blind_pure _

/-- No step looks at a line table, if what is run for it does not. -/
theorem blind_step (hx : Blind executor) : Blind (step executor) := by
  refine blind_fetchOpcode.bind fun r => ?_
  refine blind_get (fun _ _ _ => rfl) fun m => ?_
  refine (blind_report _ _).bind fun _ => ?_
  refine (blind_size _).bind fun _ => ?_
  split
  · exact blind_fault _
  · exact (blind_mapFrame _).bind fun _ => blind_perform hx _

/-! ### Whole runs -/

/-- Where debugging is disabled, nothing breaks in. -/
theorem blind_checkBreakpoint : Blind (checkBreakpoint executor) := by
  intro m m' hm
  have hquiet : ∀ m : Machine, m.thread.debug.enabled = false →
      checkBreakpoint executor m = .ok () m := by
    intro m hm
    refine Pairing.checkBreakpoint_of_unwatched fun f _ => ?_
    unfold DebugState.shouldBreak
    rw [hm]
    rfl
  rw [hquiet m hm.quiet, hquiet m' (hm.thread ▸ hm.quiet)]
  exact .ok () hm

/-- **No run looks at a line table.** -/
theorem blind_execute (fuel : Nat) : Blind (execute fuel) := by
  induction fuel with
  | zero =>
    intro m m' hm
    unfold execute
    rw [hm.thread]
    split
    · exact .same_error _ hm
    · exact .ok () hm
  | succ fuel ih =>
    rw [execute_succ]
    refine blind_get (fun _ _ _ => rfl) fun m => ?_
    split
    · exact blind_checkBreakpoint.bind fun _ => (blind_step ih).bind fun _ => ih
    · exact blind_pure ()

end Exec
end ScriptVm
