import ScriptVm.Proofs.Machine.Ordinary

/-!
# Ordinary instructions

Every instruction but the import of a class is ordinary, and so is what loading a class does besides
running files.

* There is one lemma for each way of reading or writing what scripts name and for each instruction;
  `ordinary_perform` puts them together. Only calls add a call, and only one.
* `ordinary_advance` is the fetching of an instruction, which notes where the current call is.
* `ordinary_readModule` and `ordinary_fetch` are of loading, and `ordinary_bindMembers` of what the
  host adds to a class.
-/

namespace ScriptVm
namespace Exec

variable {n : Nat}

/-! ### Globals -/

theorem ordinary_writeThrough (slot v : Value) : Ordinary n (writeThrough slot v) := by
  refine ordinary_memory.bind fun mem => ?_
  cases slot with
  | linkedInteger l =>
    exact (ordinary_ofOption _ _).bind fun k => (ordinary_mapCells _).bind fun _ =>
      ordinary_pure true
  | linkedDecimal l =>
    exact (ordinary_ofOption _ _).bind fun d => (ordinary_mapCells _).bind fun _ =>
      ordinary_pure true
  | _ => exact ordinary_pure false

theorem ordinary_insertGlobal (hash : UInt32) (v : Value) : Ordinary n (insertGlobal hash v) :=
  ordinary_mapEnvironment
    (u := fun env => { env with globals := env.globals.insert hash (v.delink env.memory.cells) })
    (fun _ _ => rfl) fun _ => rfl

theorem ordinary_defineConstant (hash : UInt32) (v : Value) : Ordinary n (defineConstant hash v) :=
  ordinary_mapEnvironment
    (u := fun env =>
      { env with constants := env.constants.insert hash (v.delink env.memory.cells) })
    (fun _ _ => rfl) fun _ => rfl

theorem ordinary_getGlobal (hash : UInt32) : Ordinary n (getGlobal hash) := by
  refine ordinary_environment (fun _ _ => rfl) fun env => ?_
  dsimp only
  split
  · exact ordinary_pure _
  · exact ordinary_fault _

theorem ordinary_setGlobal (hash : UInt32) (v : Value) : Ordinary n (setGlobal hash v) := by
  refine ordinary_environment (fun _ _ => rfl) fun env => ?_
  split
  · refine (ordinary_writeThrough _ v).bind fun linked => ?_
    split
    · exact ordinary_pure ()
    · exact ordinary_insertGlobal hash v
  · split <;> exact ordinary_fault _

theorem ordinary_extendClass (extension target : Handle) :
    Ordinary n (mapEnvironment (·.extendClass extension target)) := by
  refine ordinary_mapEnvironment (fun lines env => ?_) fun env => ?_
  · unfold Environment.extendClass
    split
    · rfl
    · rw [Environment.heap_behind]
      cases env.heap.class? extension <;> rfl
  · unfold Environment.extendClass
    split
    · rfl
    · split <;> rfl

theorem ordinary_defineGlobal (hash : UInt32) (v : Value) : Ordinary n (defineGlobal hash v) := by
  refine ordinary_environment (fun _ _ => rfl) fun env => ?_
  dsimp only
  split
  · split
    · exact ordinary_extendClass _ _
    · exact ordinary_insertGlobal hash v
  · split
    · split
      · exact ordinary_extendClass _ _
      · exact ordinary_fault _
    · exact ordinary_insertGlobal hash v

/-! ### Properties and elements -/

theorem ordinary_bindMethod (receiver method : Value) :
    Ordinary n (bindMethod receiver method) := by
  refine ordinary_environment (fun _ _ => rfl) fun env => ?_
  dsimp only
  split
  · exact (ordinary_alloc _).bind fun b => ordinary_pure _
  · exact ordinary_cells.bind fun cells => ordinary_pure _

theorem ordinary_getProperty (object : Value) (hash : UInt32) :
    Ordinary n (getProperty object hash) := by
  refine ordinary_environment (fun _ _ => rfl) fun env => ?_
  split
  · split
    · exact ordinary_pure _
    · refine (ordinary_search _ hash).bind fun found => ?_
      cases found with
      | some method => exact ordinary_bindMethod object method
      | none => exact ordinary_fault _
  · refine (ordinary_search _ hash).bind fun found => ?_
    cases found with
    | some v => exact ordinary_pure _
    | none => exact ordinary_fault _
  · exact ordinary_fault _

theorem ordinary_ask (c : Handle) (hash : UInt32) :
    Ordinary n (onEnvironment (·.hasMember c hash)) :=
  ordinary_onEnvironment (Environment.ordinary_hasMember c hash)

theorem ordinary_hasProperty (object : Value) (hash : UInt32) :
    Ordinary n (hasProperty object hash) := by
  unfold hasProperty
  cases object with
  | object h =>
    refine ordinary_environment (fun _ _ => rfl) fun env => ?_
    split
    · split
      · exact ordinary_pure true
      · exact ordinary_ask _ hash
    · exact ordinary_ask h hash
    · exact ordinary_pure false
  | _ => exact ordinary_pure false

theorem ordinary_setProperty (object : Value) (hash : UInt32) (v : Value) :
    Ordinary n (setProperty object hash v) := by
  unfold setProperty
  cases object with
  | object h =>
    refine ordinary_environment (fun _ _ => rfl) fun env => ?_
    dsimp only
    split
    · exact ordinary_fault _
    -- what is done after a linked slot was written or not
    · have hstore : ∀ linked : Bool, Ordinary n
          (if linked then pure () else do
            let plain := v.delink (← cells)
            mapHeap (·.modify h (insertField hash plain))) := by
        intro linked
        split
        · exact ordinary_pure ()
        · exact ordinary_cells.bind fun cells => ordinary_mapHeap _
      split
      · exact (ordinary_writeThrough _ v).bind hstore
      · exact (ordinary_pure false).bind hstore
  | _ => exact ordinary_fault _

theorem ordinary_getElement (object position : Value) :
    Ordinary n (getElement object position) := by
  refine ordinary_memory.bind fun mem => ?_
  split
  · exact (ordinary_ofExcept _).bind fun index => ordinary_pure _
  · exact (ordinary_ofExcept _).bind fun key => ordinary_pure _
  · exact ordinary_fault _
  · exact ordinary_fault _

theorem ordinary_setElement (object position v : Value) :
    Ordinary n (setElement object position v) := by
  refine ordinary_memory.bind fun mem => (ordinary_ofExcept _).bind fun store => ?_
  cases object with
  | object h => exact ordinary_mapHeap _
  | _ => exact ordinary_pure ()

/-! ### The current call -/

theorem ordinary_constantAt (index : Nat) : Ordinary n (constantAt index) :=
  ordinary_frame.bind fun _ => ordinary_environment (fun _ _ => rfl) fun _ => ordinary_ofOption _ _

theorem ordinary_localIndex (slot : UInt8) : Ordinary n (localIndex slot) := by
  refine ordinary_frame.bind fun f => (ordinary_size _).bind fun index => ?_
  refine ordinary_get (fun _ _ => rfl) fun m => ?_
  split
  · exact ordinary_pure index
  · exact ordinary_fault _

theorem ordinary_currentModule : Ordinary n currentModule :=
  ordinary_frame.bind fun _ => ordinary_environment (fun _ _ => rfl) fun _ => ordinary_ofOption _ _

/-! ### Locals -/

theorem ordinary_getLocal (slot : UInt8) : Ordinary n (getLocal slot) :=
  (ordinary_localIndex slot).bind fun index => (ordinary_valueAt index).bind fun v =>
    ordinary_push v

theorem ordinary_setLocal (slot : UInt8) : Ordinary n (setLocal slot) :=
  (ordinary_localIndex slot).bind fun index => (ordinary_peek 0).bind fun v =>
    ordinary_setValueAt index v

theorem ordinary_defineModuleLocal : Ordinary n defineModuleLocal :=
  ordinary_pop.bind fun _ => ordinary_currentModule.bind fun _ => ordinary_cells.bind fun _ =>
    ordinary_mapHeap _

theorem ordinary_getModuleLocal (slot : UInt16) : Ordinary n (getModuleLocal slot) :=
  ordinary_currentModule.bind fun _ => (ordinary_ofOption _ _).bind fun v => ordinary_push v

theorem ordinary_setModuleLocal (slot : UInt16) : Ordinary n (setModuleLocal slot) := by
  refine (ordinary_peek 0).bind fun v => ordinary_cells.bind fun cells => ?_
  refine ordinary_currentModule.bind fun r => ?_
  dsimp only
  split
  · exact ordinary_mapHeap _
  · exact ordinary_fault _

/-! ### Containers -/

theorem ordinary_newArray (count : Nat) : Ordinary n (newArray count) := by
  refine (ordinary_heightBelow count).bind fun start => ordinary_cells.bind fun cells => ?_
  refine (ordinary_valuesFrom start).bind fun values => (ordinary_truncate start).bind fun _ => ?_
  exact (ordinary_alloc _).bind fun h => ordinary_push (.object h)

theorem ordinary_newMap (count : Nat) : Ordinary n (newMap count) := by
  refine (ordinary_size _).bind fun length => (ordinary_heightBelow length).bind fun start => ?_
  refine (ordinary_valuesFrom start).bind fun values => ordinary_memory.bind fun mem => ?_
  refine (ordinary_ofExcept _).bind fun map => (ordinary_truncate start).bind fun _ => ?_
  exact (ordinary_alloc _).bind fun h => ordinary_push (.object h)

theorem ordinary_copyValues (depth left : Nat) : Ordinary n (copyValues depth left) := by
  induction left with
  | zero => exact ordinary_pure ()
  | succ left ih => exact (ordinary_peek depth).bind fun v => (ordinary_push v).bind fun _ => ih

theorem ordinary_copyTop (count : Nat) : Ordinary n (copyTop count) := by
  unfold copyTop
  split
  · exact ordinary_pure ()
  · exact (ordinary_difference _ _).bind fun depth => ordinary_copyValues depth count

/-! ### Arithmetic -/

theorem ordinary_add : Ordinary n Exec.add := by
  refine (ordinary_peek 0).bind fun b => (ordinary_peek 1).bind fun a =>
    ordinary_memory.bind fun mem => ?_
  have hstore : ∀ v, Ordinary n (do let _ ← pop; setPeek 0 v) :=
    fun v => ordinary_pop.bind fun _ => ordinary_setPeek 0 v
  split
  · exact ((ordinary_onMemory _).map Value.object).bind hstore
  · exact (ordinary_ofExcept _).bind hstore

theorem ordinary_binary (op : BinaryOp) : Ordinary n (binary op) :=
  ordinary_pop.bind fun _ => ordinary_pop.bind fun _ => ordinary_memory.bind fun _ =>
    (ordinary_ofExcept _).bind fun v => ordinary_push v

theorem ordinary_unary (op : UnaryOp) : Ordinary n (unary op) :=
  ordinary_pop.bind fun _ => ordinary_memory.bind fun _ => (ordinary_ofExcept _).bind fun v =>
    ordinary_push v

theorem ordinary_compare (expected : Bool) : Ordinary n (Exec.compare expected) :=
  ordinary_pop.bind fun _ => ordinary_pop.bind fun _ => ordinary_memory.bind fun _ =>
    ordinary_push _

/-! ### Control -/

theorem ordinary_switchTable (count : UInt16) : Ordinary n (switchTable count) := by
  refine ordinary_pop.bind fun v => ordinary_frame.bind fun f => ordinary_memory.bind fun mem => ?_
  refine (ordinary_size _).bind fun stop => (ordinary_ofExcept _).bind fun found => ?_
  refine (ordinary_moveTo _).bind fun _ => ?_
  split
  · refine (ordinary_size _).bind fun target => ?_
    exact (ordinary_offset _).bind fun distance => ordinary_jump distance
  · exact ordinary_pure ()

theorem ordinary_ret : Ordinary n ret := by
  refine ordinary_pop.bind fun result => ordinary_frame.bind fun f => ?_
  refine (ordinary_modify (u := (·.mapFrames (·.pop))) (fun _ _ => rfl) (fun _ => rfl)
    fun m => ?_).bind fun _ => (ordinary_truncate f.slots).bind fun _ => ordinary_push result
  exact m.sameSites_pop

/-! ### Classes -/

theorem ordinary_newClass (hash : UInt32) (kind : UInt8) : Ordinary n (newClass hash kind) := by
  refine ordinary_environment (fun _ _ => rfl) fun env => ?_
  refine (ordinary_alloc _).bind fun text => ?_
  exact (ordinary_alloc _).bind fun c => ordinary_push (.object c)

theorem ordinary_inherit (hash : UInt32) : Ordinary n (Exec.inherit hash) := by
  refine (ordinary_peek 0).bind fun v => ordinary_environment (fun _ _ => rfl) fun env => ?_
  split
  · exact ordinary_mapHeap _
  · exact ordinary_fault _

theorem ordinary_defineMethod (c function : Handle) (hash : UInt32) :
    Ordinary n (mapEnvironment (·.defineMethod c function hash)) := by
  refine ordinary_mapEnvironment (fun lines env => ?_) fun env => ?_
  · unfold Environment.defineMethod
    dsimp only
    rw [Environment.heap_behind]
    cases env.heap.class? c <;> rfl
  · unfold Environment.defineMethod
    split <;> rfl

theorem ordinary_method (index : UInt8) (hash : UInt32) : Ordinary n (method index hash) := by
  refine ordinary_frame.bind fun f => ordinary_environment (fun _ _ => rfl) fun env => ?_
  refine (ordinary_ofOption _ _).bind fun function => (ordinary_peek 0).bind fun v => ?_
  refine (ordinary_ofOption _ _).bind fun c =>
    (ordinary_defineMethod c function hash).bind fun _ => ?_
  exact ordinary_pop.bind fun _ => ordinary_pure ()

theorem ordinary_getSuperclass : Ordinary n getSuperclass := by
  refine ordinary_pop.bind fun v => ordinary_environment (fun _ _ => rfl) fun env => ?_
  split
  · refine (ordinary_parent _).bind fun parent => ?_
    cases parent with
    | some p => exact ordinary_push _
    | none => exact ordinary_fault _
  · exact ordinary_fault _

end Exec

/-! ### Dispatch -/

/-- How many calls an instruction may add. -/
def Instruction.adds (i : Instruction) : Nat :=
  match i with
  | .call _ | .invoke _ _ _ | .newInstance _ => 1
  | _ => 0

namespace Exec

/-- Only an import is more than an ordinary instruction. -/
theorem ordinary_perform (executor : Exec Unit) {i : Instruction}
    (hi : ∀ index, i ≠ .importClass index) : Ordinary i.adds (perform executor i) := by
  cases i with
  | getGlobal hash => exact (ordinary_getGlobal hash).bind fun v => ordinary_push v
  | setGlobal hash => exact (ordinary_peek 0).bind fun v => ordinary_setGlobal hash v
  | defineGlobal hash =>
    refine (ordinary_peek 0).bind fun v => (ordinary_defineGlobal hash v).bind fun _ => ?_
    exact ordinary_pop.bind fun _ => ordinary_pure ()
  | defineConstant hash => exact ordinary_pop.bind fun v => ordinary_defineConstant hash v
  | getLocal slot => exact ordinary_getLocal slot
  | setLocal slot => exact ordinary_setLocal slot
  | defineModuleLocal => exact ordinary_defineModuleLocal
  | getModuleLocal slot => exact ordinary_getModuleLocal slot
  | setModuleLocal slot => exact ordinary_setModuleLocal slot
  | getProperty hash =>
    refine (ordinary_peek 0).bind fun object => ?_
    exact (ordinary_getProperty object hash).bind fun v => ordinary_setPeek 0 v
  | setProperty hash =>
    refine (ordinary_peek 0).bind fun v => (ordinary_peek 1).bind fun object => ?_
    refine (ordinary_setProperty object hash v).bind fun _ => ?_
    exact ordinary_pop.bind fun _ => ordinary_setPeek 0 v
  | hasProperty hash =>
    refine ordinary_pop.bind fun object => ?_
    exact (ordinary_hasProperty object hash).bind fun found => ordinary_push _
  | getElement =>
    refine ordinary_pop.bind fun position => ordinary_pop.bind fun object => ?_
    exact (ordinary_getElement object position).bind fun v => ordinary_push v
  | setElement =>
    refine (ordinary_peek 0).bind fun v => (ordinary_peek 1).bind fun position => ?_
    refine (ordinary_peek 2).bind fun object => ordinary_cells.bind fun cells => ?_
    refine (ordinary_setElement object position _).bind fun _ => ?_
    exact (ordinary_popMany 2).bind fun _ => ordinary_setPeek 0 v
  | newArray count => exact ordinary_newArray _
  | newMap count => exact ordinary_newMap _
  | push v => exact ordinary_push v
  | constant index => exact (ordinary_constantAt _).bind fun v => ordinary_push v
  | pop => exact ordinary_popMany 1
  | popN count => exact ordinary_popMany _
  | copy count => exact ordinary_copyTop _
  | saveValue =>
    exact ordinary_pop.bind fun v => ordinary_modify
      (u := (·.mapThread fun t => { t with register := v })) (fun _ _ => rfl) (fun _ => rfl)
      fun _ => .of_frames rfl
  | loadValue => exact ordinary_get (fun _ _ => rfl) fun m => ordinary_push m.thread.register
  | print =>
    refine (ordinary_peek 0).bind fun v => ordinary_memory.bind fun mem => ?_
    exact (ordinary_line .info _ nofun).bind fun _ => ordinary_popMany 1
  | printStack => exact ordinary_get (fun _ _ => rfl) fun m => ordinary_line .info _ nofun
  | jump distance => exact ordinary_jump _
  | jumpIfFalse distance =>
    refine (ordinary_peek 0).bind fun v => ordinary_cells.bind fun cells => ?_
    split
    · exact ordinary_jump _
    · exact ordinary_pure ()
  | switchTable count => exact ordinary_switchTable count
  | failsafe offset =>
    exact ordinary_frame.bind fun _ => ordinary_mapFrame fun _ _ => ⟨rfl, rfl, rfl⟩
  | ret => exact ordinary_ret
  | add => exact ordinary_add
  | binary op => exact ordinary_binary op
  | unary op => exact ordinary_unary op
  | equal expected => exact ordinary_compare expected
  | typeOf =>
    refine ordinary_pop.bind fun v => ordinary_memory.bind fun mem => ?_
    exact (ordinary_alloc _).bind fun h => ordinary_push (.object h)
  | newClass hash kind => exact ordinary_newClass hash kind
  | inherit hash => exact ordinary_inherit hash
  | method index hash => exact ordinary_method index hash
  | getSuperclass => exact ordinary_getSuperclass
  | call argc => exact ordinary_callValue _
  | invoke argc hash isSuper => exact ordinary_invoke hash _ isSuper
  | newInstance argc => exact ordinary_instantiate _
  | importClass index => exact absurd rfl (hi index)
  | invalid op => exact ordinary_fault _
  | unsupported op => exact ordinary_fault _

theorem ordinary_fetchOpcode : Ordinary 1 fetchOpcode := by
  have hnote : Ordinary 1 (modify (·.mapFrame fun f => { f with ipLast := f.ip }) : Exec PUnit) :=
    ordinary_mapFrame nofun
  refine ordinary_frame.bind fun f => hnote.comp (n := 0) fun _ => ?_
  refine (ordinary_size _).bind fun _ => ?_
  split
  · exact ordinary_fault _
  · split
    · exact ordinary_fault _
    · exact ordinary_pure _

/-- The current call notes where it is, and no other. -/
theorem ordinary_advance : Ordinary 1 advance := by
  refine ordinary_fetchOpcode.comp (n := 0) fun r => ordinary_get (fun _ _ => rfl) fun m => ?_
  refine (ordinary_line .trace _ nofun).bind fun _ => (ordinary_size _).bind fun _ => ?_
  split
  · exact ordinary_fault _
  · refine Ordinary.bind ?_ fun _ => ordinary_pure _
    exact ordinary_mapFrame fun _ _ => ⟨rfl, rfl, rfl⟩

end Exec

/-! ### Reading and binding -/

namespace Environment

variable {α β : Type}

theorem Ordinary.bind {f : Environment → α × Environment} {g : α → Environment → β × Environment}
    (hf : Ordinary f) (hg : ∀ a, Ordinary (g a)) : Ordinary fun env => g (f env).1 (f env).2 where
  behind lines env := by
    rw [hf.behind]
    exact (hg _).behind lines _
  log env := (hf.log env).trans ((hg _).log _)

theorem ordinary_return (a : α) : Ordinary fun env => (a, env) :=
  ordinary_of_log (fun _ _ => rfl) fun _ => rfl

theorem ordinary_addToken (name : String) : Ordinary (·.addToken name) :=
  ordinary_of_log (fun _ _ => rfl) fun _ => rfl

theorem ordinary_place (o : Obj) : Ordinary (·.alloc o) :=
  ordinary_of_log (fun _ _ => rfl) fun _ => rfl

theorem ordinary_loadConstants (constants : List Constant) (loaded : Array Value) :
    Ordinary (loadConstants constants loaded) := by
  induction constants generalizing loaded with
  | nil => exact ordinary_return loaded
  | cons k rest ih =>
    cases k with
    | integer i => exact ih _
    | decimal d => exact ih _
    | string s => exact (ordinary_place (.string s)).bind fun h => ih (loaded.push (.object h))

theorem ordinary_loadFunction (source module : Handle) (index : Nat) (p : Prototype) :
    Ordinary (·.loadFunction source module index p) where
  behind lines env := by
    unfold loadFunction
    rw [(ordinary_loadConstants _ _).behind]
    rfl
  log env := (ordinary_loadConstants p.chunk.constants.toList #[]).log env

theorem ordinary_loadFunctions (source module : Handle) (index : Nat) (ps : List Prototype)
    (loaded : Array Handle) : Ordinary (loadFunctions source module index ps loaded) := by
  induction ps generalizing index loaded with
  | nil => exact ordinary_return loaded
  | cons p rest ih =>
    exact (ordinary_loadFunction source module index p).bind fun h => ih (index + 1) (loaded.push h)

theorem ordinary_addTokens (names : List String) :
    Ordinary fun env => ((), names.foldl (fun env name => (env.addToken name).2) env) := by
  induction names with
  | nil => exact ordinary_return ()
  | cons name rest ih => exact (ordinary_addToken name).bind fun _ => ih

/-- The module of a file is listed when it has its functions. -/
theorem ordinary_listModule (module : Handle) (functions : Array Handle) (text : Unit → String) :
    Ordinary fun env =>
      (module, report { env.mapHeap (·.modifyModule module fun m => { m with functions }) with
        functions := env.functions ++ functions, modules := env.modules.push module } .trace
            text) := by
  have hlist : Ordinary fun env =>
      ((), { env.mapHeap (·.modifyModule module fun m => { m with functions }) with
      functions := env.functions ++ functions, modules := env.modules.push module }) :=
    ordinary_of_log (fun _ _ => rfl) fun _ => rfl
  exact hlist.bind fun _ => (ordinary_report .trace text nofun).bind fun _ => ordinary_return module

theorem ordinary_loadModule (c : Container) (file : UInt32) : Ordinary (·.loadModule c file) where
  behind lines env := by
    have htokens := (ordinary_addTokens c.tokens).behind lines env
    unfold loadModule
    dsimp only at htokens ⊢
    rw [(Prod.mk.inj htokens).2]
    generalize c.tokens.foldl _ env = env
    have hplace : ∀ (env : Environment) (o : Obj),
        (env.behind lines).alloc o = ((env.alloc o).1, (env.alloc o).2.behind lines) :=
      fun _ _ => rfl
    unfold newString
    rw [hplace]
    dsimp only
    rw [hplace]
    dsimp only
    rw [(ordinary_loadFunctions _ _ _ _ _).behind]
    generalize loadFunctions _ _ _ _ _ _ = loaded
    obtain ⟨functions, env⟩ := loaded
    exact (ordinary_listModule _ functions _).behind lines env
  log env := by
    unfold loadModule
    dsimp only
    refine .trans ?_ ((ordinary_listModule _ _ _).log _)
    refine .trans ?_ ((ordinary_loadFunctions _ _ 0 c.functions #[]).log _)
    exact (ordinary_addTokens c.tokens).log env

theorem ordinary_bindMember (c : Handle) (member : ScriptVm.Member) :
    Ordinary fun env => ((), env.bindMember c member) := by
  obtain ⟨className, name, v⟩ := member
  cases v with
  | native native =>
    refine ordinary_of_log (f := fun env => ((), env.defineNative c name native))
      (fun lines env => ?_) fun env => ?_
    · unfold defineNative
      -- the name of the native is noted before the class is looked up
      have htoken : (env.behind lines).addToken name =
          ((env.addToken name).1, (env.addToken name).2.behind lines) := rfl
      rw [htoken]
      dsimp only
      rw [heap_behind]
      cases (env.addToken name).2.heap.class? c with
      | none => rfl
      | some k =>
        dsimp only
        split <;> rfl
    · show (env.defineNative c name native).log = env.log
      unfold defineNative
      dsimp only
      split
      · rfl
      · split <;> rfl
  | link l => exact ordinary_of_log (fun _ _ => rfl) fun _ => rfl
  | integer k => exact ordinary_of_log (fun _ _ => rfl) fun _ => rfl
  | decimal d => exact ordinary_of_log (fun _ _ => rfl) fun _ => rfl

theorem ordinary_bindMembers (b : Binder) (c : Handle) (name : String) :
    Ordinary fun env => ((), Load.bindMembers env b c name) := by
  have hbind : ∀ members : List ScriptVm.Member,
      Ordinary fun env => ((), members.foldl (fun env member => env.bindMember c member) env) := by
    intro members
    induction members with
    | nil => exact ordinary_return ()
    | cons member rest ih => exact (ordinary_bindMember c member).bind fun _ => ih
  have hloader : ∀ binder : Option Binder,
      Ordinary fun env => ((), { env with loader := env.loader.map fun l => { l with binder } }) :=
    fun _ => ordinary_of_log (fun _ _ => rfl) fun _ => rfl
  exact (hbind _).bind fun _ => hloader _

end Environment

/-! ### Loading -/

namespace Load

open Exec

variable {n : Nat} {α : Type}

theorem ordinary_ofExec {x : Exec α} (hx : Ordinary n x) : Ordinary n (ofExec x) :=
  hx.adaptExcept fun _ => rfl

theorem ordinary_line (level : Level) (text : Unit → String) (h : level ≠ .error) :
    Ordinary n (report level text) :=
  ordinary_ofExec (Exec.ordinary_line level text h)

theorem ordinary_readModule (bytes : List UInt8) (file : UInt32) :
    Ordinary n (readModule bytes file) := by
  cases hdecode : Container.decode bytes with
  | error e =>
    refine ordinary_of_error (.error (.container e)) (fun m => ?_) fun _ he => ?_
    · unfold readModule Environment.readModule
      rw [hdecode]
      rfl
    · cases he
      rfl
  | ok c =>
    have hload := Environment.ordinary_loadModule c file
    refine ordinary_of_ok
      (g := fun m => ((m.env.loadModule c file).1, ⟨(m.env.loadModule c file).2, m.thread⟩))
      (fun m => ?_) (fun b m => ?_) (fun m => hload.log m.env) fun _ => .of_frames rfl
    · unfold readModule Environment.readModule
      rw [hdecode]
      rfl
    · show ((((m.env.behind b.lines).loadModule c file)).1,
        (⟨((m.env.behind b.lines).loadModule c file).2, _⟩ : Machine)) = _
      rw [hload.behind]
      rfl

theorem ordinary_mapLoader (f : Loader → Loader) : Ordinary n (mapLoader f) :=
  ordinary_modify (u := fun m => { m with env := { m.env with loader := m.env.loader.map f } })
    (fun _ _ => rfl) (fun _ => rfl) fun _ => .of_frames rfl

/-- A file that cannot be read is an error of the source, which has no trace. -/
theorem ordinary_fetch (file : UInt32) : Ordinary n (fetch file) where
  against b m := by
    have hloader : (m.against b).env.loader = m.env.loader := rfl
    unfold fetch
    rw [hloader]
    cases m.env.loader with
    | none => rfl
    | some l =>
      dsimp only
      cases (l.fetch file).1 <;> rfl
  untraced m e m' hrun := by
    cases hl : m.env.loader with
    | none =>
      unfold fetch at hrun
      rw [hl] at hrun
      cases hrun
    | some l =>
      rcases fetch_cases hl file with ⟨-, hcase⟩ | ⟨-, hcase⟩ | ⟨e, untraced, -, hcase⟩ |
        ⟨bytes, -, -, hcase⟩
      all_goals
        cases hrun.symm.trans hcase
      exact untraced
  log m := by
    rw [after_fetch]
    exact .refl _
  sites m := by
    rw [after_fetch]
    exact .of_frames rfl

theorem ordinary_modifyEnv {u : Environment → Environment}
    (hu : Environment.Ordinary fun env => ((), u env)) :
    Ordinary n (modify fun m => { m with env := u m.env } : Load PUnit) := by
  refine ordinary_of_ok (g := fun m => (⟨⟩, { m with env := u m.env })) (fun _ => rfl)
    (fun b m => ?_) (fun m => hu.log m.env) fun _ => .of_frames rfl
  have hbehind : u (m.env.behind b.lines) = (u m.env).behind b.lines :=
    (Prod.mk.inj (hu.behind b.lines m.env)).2
  show (PUnit.unit, (⟨u (m.env.behind b.lines), _⟩ : Machine)) = _
  rw [hbehind]
  rfl

end Load
end ScriptVm
