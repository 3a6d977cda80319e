import ScriptVm.Proofs.Heap.Bonds
import ScriptVm.Proofs.Machine.Reading

/-!
# What instructions leave alone

Most of a machine is out of the reach of most instructions, whether they succeed or not.

* `Edit` lists the elementary changes that instructions make to an environment, but for those that
  write a global, a field or a cell. But for definitions of constants they make only `PlainEdit`s,
  which leave constants as they are and bring no link to where there was none.
* `Admits R` says that a relation allows what every instruction may do; `AdmitsNatives R` that it
  also allows to call natives, `AdmitsMoves R` to move the current call and return from it,
  `AdmitsWrites R` to write anything but what is loaded.
* `Still` says that the loader, the list of classes, the debugging state and the mark of the current
  run are as they were; `Undisturbed` that also all calls are, but for new ones above them.
* `keeps_perform` and `keeps_perform_moving` are the result: an admitting relation is kept by every
  instruction that does not import a class, if what it writes or defines under a name is.
  `quiet_perform` and `still_perform` are the cases of the two relations above.
-/

namespace ScriptVm

/-- What is loaded is as it was. -/
structure Environment.SameLoads (env env' : Environment) : Prop where
  loader : env'.loader = env.loader
  classes : env'.classes = env.classes

/-- What only loading and debugging change is as it was. -/
structure Machine.Still (m m' : Machine) : Prop where
  loads : m.env.SameLoads m'.env
  debug : m'.thread.debug = m.thread.debug
  returnFrame : m'.thread.returnFrame = m.thread.returnFrame

/-- All calls are as they were, perhaps with new ones above. -/
structure Machine.Undisturbed (m m' : Machine) : Prop where
  still : m.Still m'
  frames : m.thread.frames.toList <+: m'.thread.frames.toList

namespace Environment

variable {env env' env'' : Environment}

theorem SameLoads.refl (env : Environment) : env.SameLoads env := ⟨rfl, rfl⟩

theorem SameLoads.trans (h : env.SameLoads env') (h' : env'.SameLoads env'') :
    env.SameLoads env'' :=
  ⟨h'.loader.trans h.loader, h'.classes.trans h.classes⟩

end Environment

/-! ### Elementary changes -/

/-- An object of the same kind with the same fields. -/
structure Obj.SameFields (o o' : Obj) : Prop where
  kind : o'.kind = o.kind
  fields : Exec.fieldsOf? o' = Exec.fieldsOf? o

namespace Environment

variable {env env' : Environment}

/-- An elementary change that an instruction or the reading of a file makes to an environment,
without writing a global, a field or a cell. -/
inductive Edit (env : Environment) : Environment → Prop
  | report (level : Level) (text : Unit → String) : env.Edit (env.report level text)
  | alloc (o : Obj) : env.Edit { env with memory := (env.memory.alloc o).2 }
  | modify (h : Handle) {f : Obj → Obj} (hf : ∀ o : Obj, o.SameFields (f o)) :
      env.Edit (env.mapHeap (·.modify h f))
  | constant (hash : UInt32) (v : Value) :
      env.Edit { env with constants := env.constants.insert hash (v.delink env.memory.cells) }
  | listing (tokens : Table String) (modules functions : Array Handle) :
      env.Edit { env with tokens, modules, functions }

/-- An elementary change after which links are only where they were before, and after which the same
instances are bound to native objects and the same constants are defined. -/
structure PlainEdit (env env' : Environment) : Prop where
  edit : env.Edit env'
  plain : env.NoNewLink env'
  steady : env.heap.Steady env'.heap
  constants : env'.constants = env.constants

/-- Several elementary changes. -/
abbrev Edits : Environment → Environment → Prop := Relation.ReflTransGen PlainEdit

/-- The environment after a native was called, which may do to the memory what it likes. -/
def afterNative (env : Environment) (name : String) (args : Array Value) : Environment :=
  { env with memory := (env.natives name env.memory args).2 }

theorem Edit.sameLoads (h : env.Edit env') : env.SameLoads env' := by
  cases h <;> exact ⟨rfl, rfl⟩

theorem Edits.sameLoads (h : env.Edits env') : env.SameLoads env' := by
  induction h with
  | refl => exact .refl env
  | tail _ hlast ih => exact ih.trans hlast.edit.sameLoads

theorem edit_report (env : Environment) (level : Level) (text : Unit → String) :
    env.PlainEdit (env.report level text) :=
  ⟨.report level text, noNewLink_of_heap rfl rfl fun _ _ _ h => h, .refl _, rfl⟩

theorem edit_listing (env : Environment) (tokens : Table String)
    (modules functions : Array Handle) : env.PlainEdit { env with tokens, modules, functions } :=
  ⟨.listing tokens modules functions, noNewLink_of_heap rfl rfl fun _ _ _ h => h, .refl _, rfl⟩

theorem edit_alloc (env : Environment) {o : Obj} (ho : o.Plain)
    (hloose : Heap.reclaimedEntity? o = none) :
    env.PlainEdit { env with memory := (env.memory.alloc o).2 } :=
  ⟨.alloc o, noNewLink_of_heap rfl rfl (env.heap.noNewLink_alloc ho), env.heap.steady_alloc hloose,
    rfl⟩

theorem edit_modify (env : Environment) (h : Handle) {f : Obj → Obj}
    (hf : ∀ o : Obj, o.SameFields (f o) ∧ o.NoNewLink (f o))
    (hbond : ∀ o : Obj, Heap.reclaimedEntity? (f o) = Heap.reclaimedEntity? o) :
    env.PlainEdit (env.mapHeap (·.modify h f)) :=
  ⟨.modify h fun o => (hf o).1,
    noNewLink_of_heap rfl rfl (env.heap.noNewLink_modify h fun o => (hf o).2),
    env.heap.steady_modify h (fun o => (hf o).1.kind) hbond, rfl⟩

theorem edit_modifyClass (env : Environment) (c : Handle) {f : ClassObject → ClassObject}
    (hf : ∀ k, (f k).fields = k.fields) : env.PlainEdit (env.mapHeap (·.modifyClass c f)) := by
  refine env.edit_modify c (fun o => ?_) fun o => by cases o <;> rfl
  cases o with
  | scriptClass k => exact ⟨⟨rfl, congrArg some (hf k)⟩, Obj.noNewLink_class (hf k)⟩
  | _ => exact ⟨⟨rfl, rfl⟩, .refl _⟩

theorem edit_modifyFunction (env : Environment) (h : Handle) {f : FunctionObject → FunctionObject}
    (hf : ∀ g, (f g).constants = g.constants) :
    env.PlainEdit (env.mapHeap (·.modifyFunction h f)) := by
  refine env.edit_modify h (fun o => ?_) fun o => by cases o <;> rfl
  cases o with
  | function g => exact ⟨⟨rfl, rfl⟩, Obj.noNewLink_function (hf g)⟩
  | _ => exact ⟨⟨rfl, rfl⟩, .refl _⟩

theorem edit_modifyModule (env : Environment) (h : Handle) {f : ModuleObject → ModuleObject}
    (hf : ∀ (m : ModuleObject) (i : Nat) v, (f m).locals[i]? = some v →
      m.locals[i]? = some v ∨ v.Plain) :
    env.PlainEdit (env.mapHeap (·.modifyModule h f)) := by
  refine env.edit_modify h (fun o => ?_) fun o => by cases o <;> rfl
  cases o with
  | module m => exact ⟨⟨rfl, rfl⟩, Obj.noNewLink_module (hf m)⟩
  | _ => exact ⟨⟨rfl, rfl⟩, .refl _⟩

theorem Search.edit (h : env.Search env') : env.PlainEdit env' := by
  cases h with
  | report level text => exact env.edit_report level text
  | alloc ho => exact env.edit_alloc ho.plain ho.loose
  | remember _ _ _ => exact env.edit_modifyClass _ fun _ => rfl

theorem edits_findMember (env : Environment) (c : Handle) (hash : UInt32) :
    env.Edits (env.findMember c hash).2 :=
  (env.searches_findMember c hash).lift id fun _ _ => Search.edit

theorem edits_defineMethod (env : Environment) (c function : Handle) (hash : UInt32) :
    env.Edits (env.defineMethod c function hash) := by
  unfold defineMethod
  split
  · exact .refl
  · refine .tail (.single ?_) (edit_modifyFunction _ function fun _ => rfl)
    exact env.edit_modifyClass c fun _ => rfl

theorem edits_extendClass (env : Environment) (extension target : Handle) :
    env.Edits (env.extendClass extension target) := by
  unfold extendClass
  split
  · exact .refl
  · split
    · exact .refl
    · refine .tail (.single ?_) (edit_modifyClass _ target ?_)
      · exact env.edit_modifyClass extension fun _ => rfl
      · exact fun _ => rfl

end Environment

namespace Machine

variable {m m' m'' : Machine}

theorem Still.refl (m : Machine) : m.Still m := ⟨.refl _, rfl, rfl⟩

theorem Still.trans (h : m.Still m') (h' : m'.Still m'') : m.Still m'' :=
  ⟨h.loads.trans h'.loads, h'.debug.trans h.debug, h'.returnFrame.trans h.returnFrame⟩

theorem Undisturbed.refl (m : Machine) : m.Undisturbed m := ⟨.refl m, List.prefix_rfl⟩

theorem Undisturbed.trans (h : m.Undisturbed m') (h' : m'.Undisturbed m'') : m.Undisturbed m'' :=
  ⟨h.still.trans h'.still, h.frames.trans h'.frames⟩

/-! ### Relations that allow what instructions do -/

/-- A relation between machines that allows elementary changes of the environment, any use of the
operand stack and the register, and new calls. -/
class Admits (R : Machine → Machine → Prop) : Prop extends IsTrans Machine R where
  refl (m : Machine) : R m m
  stack (m : Machine) (g : Array Value → Array Value) : R m (m.mapStack g)
  register (m : Machine) (v : Value) : R m (m.mapThread fun t => { t with register := v })
  enter (m : Machine) (f : Frame) : R m (m.mapFrames (·.push f))
  edit (m : Machine) (env : Environment) : m.env.PlainEdit env → R m { m with env }

/-- A relation that also allows calls of natives. -/
class AdmitsNatives (R : Machine → Machine → Prop) : Prop extends Admits R where
  native (m : Machine) (name : String) (args : Array Value) :
    R m { m with env := m.env.afterNative name args }

/-- A relation that also allows any change of the calls. -/
class AdmitsMoves (R : Machine → Machine → Prop) : Prop extends Admits R where
  frames (m : Machine) (g : Array Frame → Array Frame) : R m (m.mapFrames g)

/-- A relation that also allows any change of the environment but to what is loaded. -/
class AdmitsWrites (R : Machine → Machine → Prop) : Prop extends AdmitsNatives R where
  write (m : Machine) (env : Environment) : m.env.SameLoads env → R m { m with env }

theorem Admits.edits {R : Machine → Machine → Prop} [Admits R] (m : Machine) {env : Environment}
    (h : m.env.Edits env) : R m { m with env } := by
  induction h with
  | refl => exact refl m
  | @tail env₁ env₂ _ hlast ih =>
    exact IsTrans.trans _ _ _ ih (edit { m with env := env₁ } env₂ hlast)

instance {R : Machine → Machine → Prop} [Admits R] : AdmitsReads R where
  refl := Admits.refl
  stack := Admits.stack
  search m env h := Admits.edit m env h.edit

instance {R : Machine → Machine → Prop} [AdmitsMoves R] : AdmitsCurrent R where
  current m g _ := AdmitsMoves.frames m fun frames => frames.modify (frames.size - 1) g

instance : AdmitsMoves Still where
  trans _ _ _ := Still.trans
  refl := .refl
  stack _ _ := ⟨.refl _, rfl, rfl⟩
  register _ _ := ⟨.refl _, rfl, rfl⟩
  enter _ _ := ⟨.refl _, rfl, rfl⟩
  edit _ _ h := ⟨h.edit.sameLoads, rfl, rfl⟩
  frames _ _ := ⟨.refl _, rfl, rfl⟩

instance : AdmitsWrites Still where
  native _ _ _ := ⟨⟨rfl, rfl⟩, rfl, rfl⟩
  write _ _ h := ⟨h, rfl, rfl⟩

instance : AdmitsWrites Undisturbed where
  trans _ _ _ := Undisturbed.trans
  refl := .refl
  stack m _ := ⟨⟨.refl _, rfl, rfl⟩, List.prefix_rfl⟩
  register m _ := ⟨⟨.refl _, rfl, rfl⟩, List.prefix_rfl⟩
  enter m f := by
    refine ⟨⟨.refl _, rfl, rfl⟩, ?_⟩
    show _ <+: (m.thread.frames.push f).toList
    rw [Array.toList_push]
    exact List.prefix_append _ _
  edit _ _ h := ⟨⟨h.edit.sameLoads, rfl, rfl⟩, List.prefix_rfl⟩
  native _ _ _ := ⟨⟨⟨rfl, rfl⟩, rfl, rfl⟩, List.prefix_rfl⟩
  write _ _ h := ⟨⟨h, rfl, rfl⟩, List.prefix_rfl⟩

end Machine

namespace Exec

variable {ε δ α β : Type} {R S : Machine → Machine → Prop} {x : EStateM (Halt ε) Machine α}
  {g : α → EStateM (Halt ε) Machine β}

/-- An action that leaves the machine undisturbed. -/
abbrev Quiet (x : EStateM (Halt ε) Machine α) : Prop := Keeps Machine.Undisturbed x

section Admitted

variable [Machine.Admits R]

/-! ### Primitives -/

theorem keeps_enter (f : Frame) : Keeps R (enter f) := by
  intro m
  by_cases hlt : m.thread.frames.size < Thread.maxFrames
  · rw [after_of_ok (if_pos hlt)]
    exact Machine.Admits.enter m f
  · rw [after_of_error (if_neg hlt)]
    exact Machine.Admits.refl m

theorem keeps_setRegister (v : Value) :
    Keeps R (modify (·.mapThread fun t => { t with register := v }) : Exec PUnit) :=
  fun m => Machine.Admits.register m v

theorem keeps_onEnvironment {g : Environment → α × Environment}
    (hg : ∀ env : Environment, env.Edits (g env).2) : Keeps R (onEnvironment g) :=
  fun m => Machine.Admits.edits m (hg m.env)

theorem keeps_mapEnvironment {g : Environment → Environment}
    (hg : ∀ env : Environment, env.Edits (g env)) : Keeps R (mapEnvironment g) :=
  keeps_onEnvironment hg

theorem keeps_mapHeap {g : Heap → Heap}
    (hg : ∀ env : Environment, env.PlainEdit (env.mapHeap g)) : Keeps R (mapHeap g) :=
  keeps_mapEnvironment fun env => .single (hg env)

/-! ### Names, properties and elements -/

theorem keeps_extendClass (extension target : Handle) :
    Keeps R (mapEnvironment (·.extendClass extension target)) :=
  keeps_mapEnvironment fun env => env.edits_extendClass extension target

theorem keeps_defineGlobal {hash : UInt32} {v : Value} (hinsert : Keeps R (insertGlobal hash v)) :
    Keeps R (defineGlobal hash v) := by
  refine keeps_environment.bind fun env => ?_
  dsimp only
  split
  · split
    · exact keeps_extendClass _ _
    · exact hinsert
  · split
    · split
      · exact keeps_extendClass _ _
      · exact keeps_fault _
    · exact hinsert

/-- Elements are no fields, and a plain element brings no link. -/
theorem edit_elementStore {mem : Memory} {object position v : Value} {store : Obj → Obj}
    (hv : v.Plain) (hstore : elementStore mem object position v = .ok store) (o : Obj) :
    (o.SameFields (store o) ∧ o.NoNewLink (store o)) ∧
      Heap.reclaimedEntity? (store o) = Heap.reclaimedEntity? o := by
  unfold elementStore at hstore
  split at hstore
  · cases hindex : elementIndex .write mem.cells _ position with
    | error c =>
      rw [hindex] at hstore
      cases hstore
    | ok index =>
      rw [hindex] at hstore
      cases hstore
      refine ⟨⟨?_, Obj.noNewLink_storeIndex hv index o⟩, ?_⟩
      · cases o <;> exact ⟨rfl, rfl⟩
      · cases o <;> rfl
  · cases hkey : elementKey .write mem.heap position with
    | error c =>
      rw [hkey] at hstore
      cases hstore
    | ok key =>
      rw [hkey] at hstore
      cases hstore
      refine ⟨⟨?_, Obj.noNewLink_storeKey hv key o⟩, ?_⟩
      · cases o <;> exact ⟨rfl, rfl⟩
      · cases o <;> rfl
  · cases hstore
  · cases hstore

theorem keeps_setElement (object position : Value) {v : Value} (hv : v.Plain) :
    Keeps R (setElement object position v) := by
  refine keeps_memory.bind fun mem => ?_
  cases hstore : elementStore mem object position v with
  | error c => exact keeps_of_same fun m => after_of_error (bind_of_error rfl)
  | ok store =>
    cases object with
    | object h =>
      exact keeps_mapHeap fun env => env.edit_modify h (fun o => (edit_elementStore hv hstore o).1)
        fun o => (edit_elementStore hv hstore o).2
    | _ => exact keeps_pure ()

/-! ### Instructions -/

theorem keeps_defineModuleLocal : Keeps R defineModuleLocal := by
  refine keeps_pop.bind fun v => keeps_currentModule.bind fun p => keeps_cells.bind fun cells => ?_
  refine keeps_mapHeap fun env => env.edit_modifyModule _ fun m i w hw => ?_
  rw [Array.getElem?_push] at hw
  split at hw
  · cases hw
    exact .inr (v.plain_delink cells)
  · exact .inl hw

theorem keeps_setModuleLocal (slot : UInt16) : Keeps R (setModuleLocal slot) := by
  refine (keeps_peek 0).bind fun v => keeps_cells.bind fun cells => ?_
  refine keeps_currentModule.bind fun p => ?_
  dsimp only
  split
  · refine keeps_mapHeap fun env => env.edit_modifyModule _ fun m i w hw => ?_
    simp only [Array.getElem?_setIfInBounds] at hw
    split at hw
    · split at hw
      · cases hw
        exact .inr (v.plain_delink cells)
      · cases hw
    · exact .inl hw
  · exact keeps_fault _

theorem keeps_inherit (hash : UInt32) : Keeps R (inherit hash) := by
  refine (keeps_peek 0).bind fun v => keeps_environment.bind fun env => ?_
  split
  · exact keeps_mapHeap fun env => env.edit_modifyClass _ fun _ => rfl
  · exact keeps_fault _

theorem keeps_method (index : UInt8) (hash : UInt32) : Keeps R (method index hash) := by
  refine keeps_frame.bind fun f => keeps_environment.bind fun env => ?_
  refine (keeps_ofOption _ _).bind fun function => (keeps_peek 0).bind fun v => ?_
  refine (keeps_ofOption _ _).bind fun c => (keeps_mapEnvironment fun env => ?_).bind fun _ => ?_
  · exact env.edits_defineMethod c function hash
  · exact keeps_pop.bind fun _ => keeps_pure _

end Admitted

/-! ### Calls -/

section Called

variable [Machine.AdmitsNatives R]

theorem keeps_callNative (name : String) (passed consumed : Nat) :
    Keeps R (callNative name passed consumed) := by
  refine (keeps_heightBelow passed).bind fun start =>
    (keeps_heightBelow consumed).bind fun base => ?_
  refine (keeps_valuesFrom start).bind fun args m => ?_
  -- the native is one of the machine that it changes
  have hnative : R m (after (onMemory fun mem => m.env.natives name mem args) m) :=
    Machine.AdmitsNatives.native m name args
  rw [after_bind_of_ok (show environment m = .ok m.env m from rfl)]
  refine after_bind (R := R) (S := R) hnative (fun result => ?_)
    (fun _ _ _ h h' => IsTrans.trans _ _ _ h h') fun _ _ h => h
  refine (keeps_ofExcept result).bind fun v => ?_
  exact (keeps_truncate base).bind fun _ => keeps_push v

theorem keeps_call (function : Handle) (argc : Nat) : Keeps R (call function argc) := by
  refine keeps_get.bind fun m => (keeps_ofOption _ _).bind fun f => ?_
  split
  · exact keeps_fault _
  · split
    · exact keeps_fault _
    · refine (keeps_size _).bind fun count => (keeps_heightBelow count).bind fun slots => ?_
      exact keeps_enter _

theorem keeps_callCallee (callee : Value) (argc : Nat) : Keeps R (callCallee callee argc) := by
  refine keeps_environment.bind fun env => ?_
  cases callee with
  | object h =>
    dsimp only
    split
    · exact (keeps_setPeek argc _).bind fun _ => keeps_call _ argc
    · exact keeps_call h argc
    · exact keeps_callNative _ argc _
    · exact keeps_fault _
  | _ => exact keeps_fault _

theorem keeps_callValue (argc : Nat) : Keeps R (callValue argc) :=
  (keeps_peek argc).bind fun callee => keeps_callCallee callee argc

theorem keeps_callForObject (callable : Value) (argc : Nat) :
    Keeps R (callForObject callable argc) := by
  refine keeps_environment.bind fun env => ?_
  cases callable with
  | object h =>
    dsimp only
    split
    · exact keeps_callNative _ _ _
    · exact keeps_callCallee _ argc
  | _ => exact keeps_fault _

theorem keeps_invokeFromClass (c : Handle) (hash : UInt32) (argc : Nat) :
    Keeps R (invokeFromClass c hash argc) := by
  refine (keeps_findMember c hash).bind fun found => ?_
  split
  · exact keeps_cells.bind fun cells => keeps_callForObject _ argc
  · exact keeps_environment.bind fun env => keeps_fault _

theorem keeps_invokeOnInstance (i : InstanceObject) (hash : UInt32) (argc : Nat) (isSuper : Bool) :
    Keeps R (invokeOnInstance i hash argc isSuper) := by
  unfold invokeOnInstance
  split
  · refine (keeps_resolveParent _).bind fun parent => ?_
    split
    · exact keeps_invokeFromClass _ hash argc
    · exact keeps_fault _
  · split
    · exact keeps_cells.bind fun cells => keeps_callCallee _ argc
    · exact keeps_invokeFromClass _ hash argc

theorem keeps_invokeOnClass (c : Handle) (hash : UInt32) (argc : Nat) :
    Keeps R (invokeOnClass c hash argc) := by
  refine (keeps_findMember c hash).bind fun found => ?_
  split
  · exact keeps_cells.bind fun cells => keeps_callCallee _ argc
  · exact keeps_environment.bind fun env => keeps_fault _

theorem keeps_invoke (hash : UInt32) (argc : Nat) (isSuper : Bool) :
    Keeps R (invoke hash argc isSuper) := by
  refine (keeps_peek argc).bind fun receiver => ?_
  cases receiver with
  | object h =>
    refine keeps_environment.bind fun env => ?_
    split
    · exact keeps_invokeOnInstance _ hash argc isSuper
    · exact keeps_invokeOnClass h hash argc
    · exact keeps_fault _
  | _ => exact keeps_fault _

theorem keeps_instantiate (argc : Nat) : Keeps R (instantiate argc) := by
  refine (keeps_peek argc).bind fun callee => keeps_environment.bind fun env => ?_
  refine (keeps_ofOption _ _).bind fun c =>
    (keeps_alloc ((Obj.plain_instance c).fresh nofun rfl)).bind fun h => ?_
  refine (keeps_setPeek argc _).bind fun _ => keeps_environment.bind fun env => ?_
  split
  · exact keeps_callForObject _ argc
  · split
    · exact keeps_pure ()
    · exact keeps_fault _

end Called

/-! ### Writes -/

section Writing

variable [Machine.AdmitsReads R]

/-- Writing to a linked slot comes to writing to its cell. -/
theorem keeps_writeThrough_of (hcells : ∀ g : Cells → Cells, Keeps R (mapCells g))
    (slot value : Value) : Keeps R (writeThrough slot value) := by
  refine keeps_memory.bind fun mem => ?_
  split
  · exact (keeps_ofOption _ _).bind fun n => (hcells _).bind fun _ => keeps_pure true
  · exact (keeps_ofOption _ _).bind fun d => (hcells _).bind fun _ => keeps_pure true
  · exact keeps_pure false

theorem keeps_setGlobal_of (hcells : ∀ g : Cells → Cells, Keeps R (mapCells g)) {hash : UInt32}
    {v : Value} (hinsert : Keeps R (insertGlobal hash v)) : Keeps R (setGlobal hash v) := by
  refine keeps_environment.bind fun env => ?_
  split
  · refine (keeps_writeThrough_of hcells _ v).bind fun linked => ?_
    split
    · exact keeps_pure ()
    · exact hinsert
  · split <;> exact keeps_fault _

theorem keeps_setProperty_of (hcells : ∀ g : Cells → Cells, Keeps R (mapCells g)) {hash : UInt32}
    {v : Value} (hfield : ∀ h plain, Keeps R (mapHeap (·.modify h (insertField hash plain))))
    (object : Value) : Keeps R (setProperty object hash v) := by
  have hstore : ∀ h : Handle, Keeps R (do
      let plain := v.delink (← cells)
      mapHeap (·.modify h (insertField hash plain))) :=
    fun h => keeps_cells.bind fun cells => hfield h _
  unfold setProperty
  cases object with
  | object h =>
    refine keeps_environment.bind fun env => ?_
    split
    · exact keeps_fault _
    · split
      · refine (keeps_writeThrough_of hcells _ v).bind fun linked => ?_
        dsimp only
        split
        · exact keeps_pure ()
        · exact hstore h
      · exact hstore h
  | _ => exact keeps_fault _

end Writing

section Written

variable [Machine.AdmitsWrites R]

theorem keeps_write {g : Environment → Environment}
    (hg : ∀ env : Environment, env.SameLoads (g env)) : Keeps R (mapEnvironment g) :=
  fun m => Machine.AdmitsWrites.write m _ (hg m.env)

theorem keeps_mapCells (g : Cells → Cells) : Keeps R (mapCells g) := keeps_write fun _ => ⟨rfl, rfl⟩

theorem keeps_insertGlobal (hash : UInt32) (v : Value) : Keeps R (insertGlobal hash v) :=
  keeps_write fun _ => ⟨rfl, rfl⟩

theorem keeps_setGlobal (hash : UInt32) (v : Value) : Keeps R (setGlobal hash v) :=
  keeps_setGlobal_of keeps_mapCells (keeps_insertGlobal hash v)

theorem keeps_defineConstant (hash : UInt32) (v : Value) : Keeps R (defineConstant hash v) :=
  keeps_write fun _ => ⟨rfl, rfl⟩

theorem keeps_setProperty (object : Value) (hash : UInt32) (v : Value) :
    Keeps R (setProperty object hash v) :=
  keeps_setProperty_of keeps_mapCells (fun _ _ => keeps_write fun _ => ⟨rfl, rfl⟩) object

end Written
end Exec

/-- An instruction that may call a native. -/
def Instruction.Calls : Instruction → Prop
  | .call _ | .invoke _ _ _ | .newInstance _ => True
  | _ => False

/-- An instruction that neither moves the current call nor leaves it nor imports a class. -/
def Instruction.IsQuiet : Instruction → Prop
  | .jump _ | .jumpIfFalse _ | .switchTable _ | .failsafe _ | .ret | .importClass _ => False
  | _ => True

namespace Exec

variable {R : Machine → Machine → Prop} {i : Instruction}

/-- An instruction that does not move the current call keeps what allows elementary changes, if it
keeps it where it calls a native, writes a global or a property or defines a constant. -/
theorem keeps_perform [Machine.Admits R] (hi : i.IsQuiet)
    (hcall : i.Calls → Machine.AdmitsNatives R)
    (hset : ∀ hash v, i = .setGlobal hash → Keeps R (setGlobal hash v))
    (hdefine : ∀ hash v, i = .defineGlobal hash → Keeps R (insertGlobal hash v))
    (hconstant : ∀ hash v, i = .defineConstant hash → Keeps R (defineConstant hash v))
    (hproperty : ∀ object hash v, i = .setProperty hash → Keeps R (setProperty object hash v))
    (executor : Exec Unit) : Keeps R (perform executor i) := by
  cases i with
  | setGlobal hash => exact (keeps_peek 0).bind fun v => hset hash v rfl
  | defineGlobal hash =>
    refine (keeps_peek 0).bind fun v => (keeps_defineGlobal (hdefine hash v rfl)).bind fun _ => ?_
    exact keeps_pop.bind fun _ => keeps_pure _
  | defineConstant hash => exact keeps_pop.bind fun v => hconstant hash v rfl
  | defineModuleLocal => exact keeps_defineModuleLocal
  | setModuleLocal slot => exact keeps_setModuleLocal slot
  | setProperty hash =>
    refine (keeps_peek 0).bind fun v => (keeps_peek 1).bind fun object => ?_
    refine (hproperty object hash v rfl).bind fun _ => ?_
    exact keeps_pop.bind fun _ => keeps_setPeek 0 v
  | setElement =>
    refine (keeps_peek 0).bind fun v => (keeps_peek 1).bind fun position => ?_
    refine (keeps_peek 2).bind fun object => keeps_cells.bind fun cells => ?_
    refine (keeps_setElement object position (v.plain_delink cells)).bind fun _ => ?_
    exact (keeps_popMany 2).bind fun _ => keeps_setPeek 0 v
  | saveValue => exact keeps_pop.bind keeps_setRegister
  | inherit hash => exact keeps_inherit hash
  | method index hash => exact keeps_method index hash
  | call argc =>
    have := hcall trivial
    exact keeps_callValue argc.toNat
  | invoke argc hash isSuper =>
    have := hcall trivial
    exact keeps_invoke hash argc.toNat isSuper
  | newInstance argc =>
    have := hcall trivial
    exact keeps_instantiate argc.toNat
  | jump | jumpIfFalse | switchTable | failsafe | ret | importClass => exact hi.elim
  | _ =>
    refine keeps_perform_staying ?_ ?_ executor
    · exact trivial
    · exact trivial

/-- Instructions leave a machine undisturbed unless they move the current call, return from it or
load a class. -/
theorem quiet_perform (hi : i.IsQuiet) (executor : Exec Unit) : Quiet (perform executor i) :=
  keeps_perform hi (fun _ => inferInstance) (fun hash v _ => keeps_setGlobal hash v)
    (fun hash v _ => keeps_insertGlobal hash v) (fun hash v _ => keeps_defineConstant hash v)
    (fun object hash v _ => keeps_setProperty object hash v) executor

/-! ### Instructions that move the current call -/

section Moved

variable [Machine.AdmitsMoves R]

theorem keeps_modifyFrames (g : Array Frame → Array Frame) :
    Keeps R (modify (·.mapFrames g) : Exec PUnit) :=
  fun m => Machine.AdmitsMoves.frames m g

theorem keeps_ret : Keeps R ret := by
  refine keeps_pop.bind fun result => keeps_frame.bind fun f => ?_
  refine (keeps_modifyFrames _).bind fun _ => (keeps_truncate _).bind fun _ => ?_
  exact keeps_push result

/-- The same for all instructions but those that import a class. -/
theorem keeps_perform_moving (hi : ∀ index, i ≠ .importClass index)
    (hcall : i.Calls → Machine.AdmitsNatives R)
    (hset : ∀ hash v, i = .setGlobal hash → Keeps R (setGlobal hash v))
    (hdefine : ∀ hash v, i = .defineGlobal hash → Keeps R (insertGlobal hash v))
    (hconstant : ∀ hash v, i = .defineConstant hash → Keeps R (defineConstant hash v))
    (hproperty : ∀ object hash v, i = .setProperty hash → Keeps R (setProperty object hash v))
    (executor : Exec Unit) : Keeps R (perform executor i) := by
  cases i with
  | jump | jumpIfFalse | switchTable | failsafe =>
    refine keeps_perform_reading ?_ executor
    exact trivial
  | ret => exact keeps_ret
  | importClass index => exact absurd rfl (hi index)
  | _ =>
    refine keeps_perform ?_ hcall hset hdefine hconstant hproperty executor
    exact trivial

end Moved

/-- Nothing but an import changes what is loaded. -/
theorem still_perform (hi : ∀ index, i ≠ .importClass index) (executor : Exec Unit) :
    Keeps Machine.Still (perform executor i) :=
  keeps_perform_moving hi (fun _ => inferInstance) (fun hash v _ => keeps_setGlobal hash v)
    (fun hash v _ => keeps_insertGlobal hash v) (fun hash v _ => keeps_defineConstant hash v)
    (fun object hash v _ => keeps_setProperty object hash v) executor

end Exec
end ScriptVm
