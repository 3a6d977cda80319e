import ScriptVm.Proofs.Machine.Advance
import ScriptVm.Proofs.Machine.Execution

/-!
# What runs leave alone

Scripts import classes and are looked at by debuggers, and both run scripts in turn. What a relation
has to allow so that all this keeps it is little more than what instructions do.

* Reading a file and binding the members of a class are elementary changes; `fills_loadModule` and
  `edits_bindMembers` say so. `Fill` lists those that the reading of a file makes.
* `AdmitsRuns R` says that a relation also allows any change of the thread and of what counts as
  loaded; `AdmitsLoads R` that it allows what loading a class does to the records of what is loaded.
* `keeps_step` and `keeps_watch` are the result: such a relation is kept by a step and by any number
  of steps, if writing a global or a property and defining a constant keep it. In `keeps_step_of`
  and `keeps_watch_of` the definition of a global counts as a whole.
-/

namespace ScriptVm
namespace Environment

/-! ### Reading and binding -/

/-- An elementary change that the reading of a file makes to an environment. -/
inductive Fill (env : Environment) : Environment → Prop
  | search {env' : Environment} : env.Search env' → env.Fill env'
  | functions (module : Handle) (functions : Array Handle) :
      env.Fill (env.mapHeap (·.modifyModule module fun m => { m with functions }))
  | listing (tokens : Table String) (modules functions : Array Handle) :
      env.Fill { env with tokens, modules, functions }

/-- Several such changes. -/
abbrev Fills : Environment → Environment → Prop := Relation.ReflTransGen Fill

theorem fills_alloc (env : Environment) {o : Obj} (ho : o.Fresh) : env.Fills (env.alloc o).2 :=
  .single (.search (.alloc ho))

theorem fills_addToken (env : Environment) (name : String) : env.Fills (env.addToken name).2 :=
  .single (.listing _ env.modules env.functions)

/-- Constants are placed and are plain. -/
theorem fills_loadConstants (constants : List Constant) (loaded : Array Value)
    (hloaded : ∀ v ∈ loaded, v.Plain) (env : Environment) :
    env.Fills (loadConstants constants loaded env).2 ∧
      ∀ v ∈ (loadConstants constants loaded env).1, v.Plain := by
  induction constants generalizing loaded env with
  | nil => exact ⟨.refl, hloaded⟩
  | cons k rest ih =>
    have hfirst : env.Fills (env.loadConstant k).2 ∧ (env.loadConstant k).1.Plain := by
      cases k with
      | integer n => exact ⟨.refl, fun l => by cases l <;> exact nofun⟩
      | decimal d => exact ⟨.refl, fun l => by cases l <;> exact nofun⟩
      | string s =>
        exact ⟨env.fills_alloc ((Obj.plain_string s).fresh nofun rfl),
          fun l => by cases l <;> exact nofun⟩
    have hpushed : ∀ v ∈ loaded.push (env.loadConstant k).1, v.Plain := by
      intro v hv
      rcases Array.mem_push.1 hv with hv | rfl
      · exact hloaded v hv
      · exact hfirst.2
    obtain ⟨hrest, hplain⟩ := ih _ hpushed (env.loadConstant k).2
    exact ⟨hfirst.1.trans hrest, hplain⟩

theorem fills_loadFunctions (source module : Handle) (index : Nat) (ps : List Prototype)
    (loaded : Array Handle) (env : Environment) :
    env.Fills (loadFunctions source module index ps loaded env).2 := by
  induction ps generalizing index loaded env with
  | nil => exact .refl
  | cons p rest ih =>
    obtain ⟨hconstants, hplain⟩ := fills_loadConstants p.chunk.constants.toList #[] nofun env
    have hfirst : env.Fills (env.loadFunction source module index p).2 :=
      (hconstants.trans (fills_alloc _ ((Obj.plain_string _).fresh nofun rfl))).trans
        (fills_alloc _ ((Obj.plain_function hplain).fresh nofun rfl))
    exact hfirst.trans (ih _ _ _)

theorem fills_addTokens (names : List String) (env : Environment) :
    env.Fills (names.foldl (fun env name => (env.addToken name).2) env) := by
  induction names generalizing env with
  | nil => exact .refl
  | cons name rest ih => exact (env.fills_addToken name).trans (ih _)

/-- The functions of a module are put into it when they are read. -/
theorem fills_module (env : Environment) (module : Handle) (functions all modules : Array Handle)
    (text : Unit → String) :
    env.Fills (report { env.mapHeap (·.modifyModule module fun m => { m with functions }) with
      functions := all, modules } .trace text) :=
  .tail (.tail (.single (.functions module functions)) (.listing _ modules all))
    (.search (.report .trace text))

theorem fills_loadModule (env : Environment) (c : Container) (file : UInt32) :
    env.Fills (env.loadModule c file).2 := by
  unfold loadModule
  dsimp only
  refine .trans ?_ (fills_module _ _ _ _ _ _)
  refine .trans ?_ (fills_loadFunctions _ _ 0 c.functions #[] _)
  refine .trans ?_ (fills_alloc _ ((Obj.plain_module rfl).fresh nofun rfl))
  exact (fills_addTokens c.tokens env).trans (fills_alloc _ ((Obj.plain_string _).fresh nofun rfl))

theorem Fill.edit {env env' : Environment} (h : env.Fill env') : env.PlainEdit env' := by
  cases h with
  | search hsearch => exact hsearch.edit
  | functions module functions => exact env.edit_modifyModule module fun _ _ _ h => .inl h
  | listing tokens modules functions => exact env.edit_listing tokens modules functions

theorem Fills.edits {env env' : Environment} (h : env.Fills env') : env.Edits env' :=
  h.lift id fun _ _ => Fill.edit

theorem edits_bindMember (env : Environment) (c : Handle) (member : Member) :
    env.Edits (env.bindMember c member) := by
  have hmethod : ∀ (env : Environment) (hash : UInt32) (v : Value),
      env.Edits (env.insertMethod c hash v) :=
    fun env hash v => .single (env.edit_modifyClass c fun _ => rfl)
  have htoken := (env.fills_addToken member.name).edits
  unfold bindMember bindValue
  split
  · unfold defineNative
    dsimp only
    split
    · exact htoken
    · split
      · exact htoken
      · exact (htoken.tail (edit_alloc _ (Obj.plain_native _) rfl)).trans (hmethod _ _ _)
  · exact htoken.trans (hmethod _ _ _)
  · exact htoken.trans (hmethod _ _ _)
  · exact htoken.trans (hmethod _ _ _)

/-- Binding the members of a class is a matter of elementary changes and of the record of it. -/
theorem edits_bindMembers (env : Environment) (b : Binder) (c : Handle) (name : String) :
    ∃ env', env.Edits env' ∧ Load.bindMembers env b c name =
      { env' with loader := env.loader.map fun l =>
          { l with binder := some { b with bound := b.bound.push name } } } := by
  have hfold : ∀ (members : List Member) (env : Environment),
      env.Edits (members.foldl (fun env m => env.bindMember c m) env) := by
    intro members
    induction members with
    | nil => exact fun _ => .refl
    | cons member rest ih => exact fun env => (env.edits_bindMember c member).trans (ih _)
  have hedits := hfold (b.members.filter (·.className == name)) env
  refine ⟨_, hedits, ?_⟩
  unfold Load.bindMembers
  dsimp only
  rw [hedits.sameLoads.loader]

end Environment

/-! ### Fetching -/

namespace Loader

theorem classMap_fetch (l : Loader) (file : UInt32) :
    (l.fetch file).2.source.classMap = l.source.classMap := by
  unfold fetch
  split
  · rfl
  · split <;> rfl

theorem boundClasses_fetch (l : Loader) (file : UInt32) :
    (l.fetch file).2.boundClasses = l.boundClasses := by
  unfold fetch
  split
  · rfl
  · split <;> rfl

theorem binder_fetch (l : Loader) (file : UInt32) : (l.fetch file).2.binder = l.binder := by
  unfold fetch
  split
  · rfl
  · split <;> rfl

end Loader

namespace Load

variable {m : Machine} {l : Loader}

/-- Fetching a file is a matter of the loader, whatever it finds. -/
theorem after_fetch (file : UInt32) (m : Machine) : Exec.after (fetch file) m =
    { m with env := { m.env with loader := m.env.loader.map fun l => (l.fetch file).2 } } := by
  unfold Exec.after fetch
  cases hl : m.env.loader with
  | none =>
    dsimp only [Option.map_none]
    rw [← hl]
  | some l =>
    dsimp only
    cases (l.fetch file).1 <;> rfl

/-- What fetching a file finds. -/
theorem fetch_cases (hl : m.env.loader = some l) (file : UInt32) :
    (file ∈ l.fetched ∧ fetch file m = .ok .cached m) ∨
    (l.source.answer 0 file = .absent ∧
      fetch file m = .ok .absent { m with env := { m.env with loader := some l.asked } }) ∨
    (∃ e untraced, l.source.answer 0 file = .failed e untraced ∧
      fetch file m = .error (.error e) { m with env := { m.env with loader := some l.asked } }) ∨
    ∃ bytes, file ∉ l.fetched ∧ l.source.answer 0 file = .bytes bytes ∧
      fetch file m = .ok (.fresh bytes) { m with
        env := { m.env with loader := some { l.asked with fetched := file :: l.fetched } } } := by
  have hsame : ({ m with env := { m.env with loader := some l } } : Machine) = m := by rw [← hl]
  unfold fetch Loader.fetch
  rw [hl]
  dsimp only
  by_cases hloaded : l.isLoaded file = true
  · rw [if_pos hloaded, hsame]
    exact .inl ⟨List.contains_iff_mem.1 hloaded, rfl⟩
  · have hnew : file ∉ l.fetched := fun hmem => hloaded (List.contains_iff_mem.2 hmem)
    rw [if_neg hloaded]
    cases l.source.answer 0 file with
    | absent => exact .inr (.inl ⟨rfl, rfl⟩)
    | failed e untraced => exact .inr (.inr (.inl ⟨e, untraced, rfl, rfl⟩))
    | bytes bytes => exact .inr (.inr (.inr ⟨bytes, hnew, rfl, rfl⟩))

/-- A binder may be asked to bind a class. -/
inductive Asks (name : String) : Option Binder → Option Binder → Prop
  | no (b : Option Binder) : Asks name b b
  | yes (b : Binder) : Asks name (some b) (some { b with bound := b.bound.push name })

/-- What registering a class comes to. -/
theorem bindClass_cases (hl : m.env.loader = some l) (name : String) (hash : UInt32) :
    (hash ∈ l.boundClasses ∧ bindClass name hash m = .ok true m) ∨
    (hash ∉ l.boundClasses ∧ m.env.classByHash? hash = none ∧
      ∃ env, bindClass name hash m = .ok false { m with env } ∧ m.env.SameLoads env) ∨
    ∃ c env binder, hash ∉ l.boundClasses ∧ m.env.classByHash? hash = some c ∧
      bindClass name hash m = .ok true { m with env } ∧
      env.loader = some { l with boundClasses := hash :: l.boundClasses, binder } ∧
      env.classes = m.env.classes.push c ∧ Asks name l.binder binder := by
  have hstart : bindClass name hash m = _ := Exec.bind_of_ok rfl
  rw [hl] at hstart
  dsimp only at hstart
  by_cases hbound : hash ∈ l.boundClasses
  · rw [if_pos (List.contains_iff_mem.2 hbound)] at hstart
    exact .inl ⟨hbound, hstart⟩
  · rw [if_neg fun h => hbound (List.contains_iff_mem.1 h)] at hstart
    cases hc : m.env.classByHash? hash with
    | none =>
      rw [hc] at hstart
      exact .inr (.inl ⟨hbound, rfl, _, hstart, ⟨rfl, rfl⟩⟩)
    | some c =>
      rw [hc] at hstart
      have hmapped : m.env.loader.map (fun l => { l with boundClasses := hash :: l.boundClasses }) =
          some { l with boundClasses := hash :: l.boundClasses } :=
        congrArg (Option.map _) hl
      refine .inr (.inr ⟨c, ?_⟩)
      cases hbinder : l.binder with
      | none =>
        rw [hbinder] at hstart
        exact ⟨_, none, hbound, rfl, hstart, by rw [← hbinder]; exact hmapped, rfl, .no _⟩
      | some b =>
        rw [hbinder] at hstart
        dsimp only at hstart
        split at hstart
        · obtain ⟨env', hedits, hbinds⟩ := Environment.edits_bindMembers _ b c name
          refine ⟨_, _, hbound, rfl, hstart, ?_, ?_, .yes b⟩
          · exact (congrArg Environment.loader hbinds).trans (congrArg (Option.map _) hmapped)
          · exact (congrArg Environment.classes hbinds).trans hedits.sameLoads.classes
        · exact ⟨_, some b, hbound, rfl, hstart, by rw [← hbinder]; exact hmapped, rfl, .no _⟩

end Load

section Adapted

variable {ε δ σ α : Type} {x : EStateM ε σ α} {s s' : σ}

theorem adaptExcept_of_ok {a : α} (hx : x s = .ok a s') (f : ε → δ) :
    EStateM.adaptExcept f x s = .ok a s' := by
  unfold EStateM.adaptExcept
  rw [hx]

theorem adaptExcept_of_error {e : ε} (hx : x s = .error e s') (f : ε → δ) :
    EStateM.adaptExcept f x s = .error (f e) s' := by
  unfold EStateM.adaptExcept
  rw [hx]

end Adapted

/-- A relation that also allows any change of the thread, its number apart, and of what counts as
loaded from a source with the same class map. -/
class Machine.AdmitsRuns (R : Machine → Machine → Prop) : Prop extends Machine.AdmitsNatives R where
  thread (m : Machine) (t : Thread) : t.id = m.thread.id → R m { m with thread := t }
  loaded (m : Machine) (loader : Option Loader) (classes : Array Handle) :
    loader.map (·.source.classMap) = m.env.loader.map (·.source.classMap) →
      R m { m with env := { m.env with loader, classes } }

namespace Exec

variable {ε δ α : Type} {R : Machine → Machine → Prop} {executor : Exec Unit}

/-! ### Steps -/

theorem keeps_advance [Machine.AdmitsCurrent R] : Keeps R advance := by
  have hfetch : Keeps R fetchOpcode := by
    refine keeps_frame.bind fun f => (keeps_modifyFrame ?_).bind fun _ => ?_
    · exact fun _ => ⟨rfl, rfl, rfl, rfl⟩
    · refine (keeps_size _).bind fun _ => ?_
      split
      · exact keeps_fault _
      · split
        · exact keeps_fault _
        · exact keeps_pure _
  refine hfetch.bind fun p => keeps_get.bind fun m => ?_
  refine (keeps_report _ _).bind fun _ => (keeps_size _).bind fun _ => ?_
  split
  · exact keeps_fault _
  · refine (keeps_modifyFrame ?_).bind fun _ => keeps_pure _
    exact fun _ => ⟨rfl, rfl, rfl, rfl⟩

/-- Changing the error changes nothing else. -/
theorem after_adaptExcept (x : EStateM (Halt ε) Machine α) (f : ε → δ) (m : Machine) :
    after (EStateM.adaptExcept (Halt.map f) x) m = after x m := by
  unfold after EStateM.adaptExcept
  cases x m <;> rfl

theorem keeps_adaptExcept {x : EStateM (Halt ε) Machine α} (hx : Keeps R x) (f : ε → δ) :
    Keeps R (EStateM.adaptExcept (Halt.map f) x) := by
  intro m
  rw [after_adaptExcept]
  exact hx m

/-- Without fuel nothing is done. -/
theorem after_execute_zero (m : Machine) : after (execute 0) m = m := by
  unfold after execute
  cases m.thread.isActive <;> rfl

/-- A protected run ends where its body and the taking of the result end; a fault is reported. -/
theorem after_runProtected (body : Exec Unit) (m : Machine) : ∃ env outcome,
    (after (body *> pop) m.beginRun).env.Edits env ∧
    after (runProtected body) m =
      { (after (body *> pop) m.beginRun).endRun m.thread.stack.size m.thread.frames.size
          m.thread.returnFrame outcome with env } := by
  have htrace : ∀ (m : Machine) (f : Fault), ∃ env, m.env.Edits env ∧
      (m.attachTrace f).2 = { m with env } := by
    intro m f
    unfold Machine.attachTrace
    split
    · exact ⟨_, .single (m.env.edit_report _ _), rfl⟩
    · exact ⟨_, .refl, rfl⟩
  unfold after runProtected
  cases (body *> pop) m.beginRun with
  | ok v m₁ => exact ⟨_, .returned, .refl, rfl⟩
  | error e m₁ =>
    cases e with
    | error f =>
      obtain ⟨env, hedits, htraced⟩ := htrace m₁ f
      refine ⟨env, .errored, hedits, ?_⟩
      dsimp only
      rw [htraced]
      rfl
    | outOfFuel => exact ⟨_, .errored, .refl, rfl⟩
    | overflow => exact ⟨_, .errored, .refl, rfl⟩

/-- A fault in what a debugger evaluates changes the result only. -/
theorem after_evaluate (executor : Exec Unit) (target : Handle) (m : Machine) :
    after (evaluate executor target) m = after (runValue executor (.object target) []) m := by
  unfold after evaluate
  cases runValue executor (.object target) [] m with
  | ok v m₁ => rfl
  | error e m₁ => cases e <;> rfl

section Admitted

variable [Machine.Admits R]

theorem keeps_loadReport (level : Level) (text : Unit → String) :
    Keeps R (Load.report level text) :=
  keeps_adaptExcept (keeps_report level text) RegistryError.vm

theorem keeps_readModule (bytes : List UInt8) (file : UInt32) :
    Keeps R (Load.readModule bytes file) := by
  intro m
  unfold after Load.readModule Environment.readModule
  cases Container.decode bytes with
  | ok c => exact Machine.Admits.edits m (m.env.fills_loadModule c file).edits
  | error e => exact Machine.Admits.refl m

end Admitted

/-! ### What is loaded -/

section Runs

variable [Machine.AdmitsRuns R]

theorem keeps_fetch (file : UInt32) : Keeps R (Load.fetch file) := by
  intro m
  rw [Load.after_fetch]
  refine Machine.AdmitsRuns.loaded m _ m.env.classes ?_
  rw [Option.map_map]
  exact Option.map_congr fun l _ => l.classMap_fetch file

theorem keeps_bindMembers (b : Binder) (c : Handle) (name : String) :
    Keeps R (modify fun m => { m with env := Load.bindMembers m.env b c name } : Load PUnit) := by
  intro m
  obtain ⟨env, hedits, hbinds⟩ := m.env.edits_bindMembers b c name
  show R m { m with env := Load.bindMembers m.env b c name }
  rw [hbinds]
  refine IsTrans.trans _ _ _ (Machine.Admits.edits m hedits) ?_
  refine Machine.AdmitsRuns.loaded { m with env } _ env.classes ?_
  rw [Option.map_map, hedits.sameLoads.loader]
  rfl

theorem keeps_bindClass (name : String) (hash : UInt32) : Keeps R (Load.bindClass name hash) := by
  refine keeps_get.bind fun m => ?_
  split
  · split
    · exact keeps_pure true
    · split
      · exact (keeps_loadReport _ _).bind fun _ => keeps_pure false
      · have hloader : Keeps R (Load.mapLoader fun l =>
            { l with boundClasses := hash :: l.boundClasses }) := fun m => by
          refine Machine.AdmitsRuns.loaded m _ m.env.classes ?_
          rw [Option.map_map]
          rfl
        have hclasses : ∀ c : Handle, Keeps R (modify fun m =>
            { m with env := { m.env with classes := m.env.classes.push c } } : Load PUnit) :=
          fun c m => Machine.AdmitsRuns.loaded m m.env.loader _ rfl
        refine hloader.bind fun _ => (hclasses _).bind fun _ => ?_
        dsimp only
        split
        · exact keeps_pure true
        · split
          · refine (keeps_loadReport _ _).bind fun _ => ?_
            exact (keeps_bindMembers _ _ name).bind fun _ => keeps_pure true
          · exact keeps_pure true
  · exact keeps_pure false

end Runs

end Exec

/-- A relation that also allows any change of the thread, its number apart, and what loading a class
does to the records of what is loaded. -/
class Machine.AdmitsLoads (R : Machine → Machine → Prop) :
    Prop extends Machine.AdmitsNatives R where
  thread (m : Machine) (t : Thread) : t.id = m.thread.id → R m { m with thread := t }
  fetch (file : UInt32) : Exec.Keeps R (Load.fetch file)
  bind (name : String) : Exec.Keeps R (Load.bindClass name (hashName name))

instance {R : Machine → Machine → Prop} [Machine.AdmitsRuns R] : Machine.AdmitsLoads R where
  thread := Machine.AdmitsRuns.thread
  fetch := Exec.keeps_fetch
  bind name := Exec.keeps_bindClass name _

instance {R : Machine → Machine → Prop} [Machine.AdmitsLoads R] : Machine.AdmitsMoves R where
  frames m g := Machine.AdmitsLoads.thread m { m.thread with frames := g m.thread.frames } rfl

namespace Exec

variable {ε δ α : Type} {R : Machine → Machine → Prop} [Machine.AdmitsLoads R]
  {executor : Exec Unit}

/-! ### Runs within runs -/

theorem keeps_mapDebug (g : DebugState → DebugState) : Keeps R (mapDebug g) :=
  fun m => Machine.AdmitsLoads.thread m { m.thread with debug := g m.thread.debug } rfl

theorem keeps_setState (state : ThreadState) :
    Keeps R (modify (·.mapThread fun t => { t with state }) : Exec PUnit) :=
  fun m => Machine.AdmitsLoads.thread m { m.thread with state } rfl

theorem keeps_runProtected {body : Exec Unit} (hb : Keeps R body) :
    Keeps R (runProtected body) := by
  intro m
  have hbegins : R m m.beginRun := Machine.AdmitsLoads.thread m _ rfl
  have hruns : R m.beginRun (after (body *> pop) m.beginRun) :=
    hb.bind (g := fun _ => pop) (fun _ => keeps_pop) m.beginRun
  obtain ⟨env, outcome, hedits, hafter⟩ := after_runProtected body m
  have hends := Machine.Admits.edits (R := R) _ hedits
  rw [hafter]
  refine IsTrans.trans _ _ _ (IsTrans.trans _ _ _ hbegins hruns) (IsTrans.trans _ _ _ hends ?_)
  exact Machine.AdmitsLoads.thread ⟨env, _⟩ _ rfl

theorem keeps_runValue (he : Keeps R executor) (callee : Value) (args : List Value) :
    Keeps R (runValue executor callee args) :=
  keeps_runProtected <| (keeps_push callee).bind fun _ => (keeps_pushAll args).bind fun _ =>
    (keeps_callValue args.length).bind fun _ => he

/-! ### Imports -/

theorem keeps_runFile (he : Keeps R executor) (bytes : List UInt8) (file : UInt32) :
    Keeps R (Load.runFile executor bytes file) := by
  refine (keeps_readModule bytes file).bind fun module => keeps_get.bind fun m => ?_
  split
  · exact (keeps_adaptExcept (keeps_runValue he _ []) _).bind fun _ => keeps_pure _
  · exact keeps_pure _

theorem keeps_loadFiles (he : Keeps R executor) (name : String) (count : Nat) (first : Bool)
    (files : List UInt32) : Keeps R (Load.loadFiles executor name count first files) := by
  induction files generalizing first with
  | nil => exact keeps_pure true
  | cons file rest ih =>
    refine (Machine.AdmitsLoads.fetch file).bind fun found => ?_
    cases found with
    | cached => exact ih false
    | absent => exact (keeps_loadReport _ _).bind fun _ => keeps_pure false
    | fresh bytes =>
      have hrest : Keeps R (do
          Load.runFile executor bytes file
          Load.loadFiles executor name count false rest) :=
        (keeps_runFile he bytes file).bind fun _ => ih false
      cases first with
      | false => exact hrest
      | true => exact (keeps_loadReport _ _).bind fun _ => hrest

theorem keeps_loadClass (he : Keeps R executor) (name : String) :
    Keeps R (Load.loadClass executor name) := by
  unfold Load.loadClass
  split
  · exact keeps_pure false
  · refine keeps_get.bind fun m => ?_
    split
    · split
      · exact (keeps_loadReport _ _).bind fun _ => keeps_pure false
      · refine (keeps_loadFiles he name _ true _).bind fun loaded => ?_
        split
        · exact Machine.AdmitsLoads.bind name
        · exact keeps_pure false
    · exact keeps_pure false

theorem keeps_importClass (he : Keeps R executor) (index : Nat) :
    Keeps R (importClass executor index) := by
  refine (keeps_constantAt index).bind fun v => keeps_memory.bind fun mem => ?_
  split
  · exact keeps_fault _
  · refine (keeps_adaptExcept (keeps_loadClass he _) _).bind fun loaded => ?_
    split
    · exact keeps_pure ()
    · exact keeps_fault _

/-! ### Breaks -/

theorem keeps_evaluate (he : Keeps R executor) (target : Handle) :
    Keeps R (evaluate executor target) := by
  intro m
  rw [after_evaluate]
  exact keeps_runValue he (.object target) [] m

theorem keeps_observe (he : Keeps R executor) (command : BreakCommand) (function : Handle)
    (offset : Nat) : Keeps R (observe executor command function offset) := by
  refine keeps_get.bind fun m => ?_
  dsimp only
  split
  · refine (keeps_pure _).bind fun _ => keeps_environment.bind fun _ => keeps_pure _
  · rw [map_eq_pure_bind, bind_assoc]
    refine (keeps_evaluate he _).bind fun _ => (keeps_pure _).bind fun _ => ?_
    exact keeps_environment.bind fun _ => keeps_pure _

theorem keeps_breakAt (he : Keeps R executor) (d : Debugger) (function : Handle) (offset : Nat) :
    Keeps R (breakAt executor d function offset) := by
  refine (keeps_mapDebug _).bind fun _ => (keeps_setState _).bind fun _ => ?_
  refine keeps_get.bind fun m => keeps_environment.bind fun env => ?_
  refine (keeps_report _ _).bind fun _ => (keeps_observe he _ function offset).bind fun record => ?_
  refine (keeps_mapDebug _).bind fun _ => (keeps_setState _).bind fun _ => ?_
  split
  · exact keeps_pure ()
  · exact keeps_mapDebug _
  · exact keeps_fault _

theorem keeps_checkBreakpoint (he : Keeps R executor) : Keeps R (checkBreakpoint executor) := by
  refine keeps_get.bind fun m => ?_
  dsimp only
  split
  · split
    · exact keeps_breakAt he _ _ _
    · exact keeps_pure ()
  · exact keeps_pure ()

/-! ### Executions -/

/-- What allows loads is kept by a step, if writing a global or a property and defining a global or
a constant keep it. Definitions count only if they are the next instruction. -/
theorem keeps_step_of (he : Keeps R executor) (m : Machine)
    (hset : ∀ hash v, Keeps R (setGlobal hash v))
    (hdefine : ∀ hash, m.next? = some (.defineGlobal hash) → ∀ v, Keeps R (defineGlobal hash v))
    (hconstant : ∀ hash m', advance m = .ok (.defineConstant hash) m' →
      R m' (after (pop >>= defineConstant hash) m'))
    (hproperty : ∀ object hash v, Keeps R (setProperty object hash v)) :
    R m (after (step executor) m) := by
  have hperform : ∀ i m', advance m = .ok i m' → R m' (after (perform executor i) m') := by
    intro i m' hrun
    by_cases hi : ∃ index, i = .importClass index
    · obtain ⟨index, rfl⟩ := hi
      exact keeps_importClass he index.toNat m'
    by_cases hc : ∃ hash, i = .defineConstant hash
    · obtain ⟨hash, rfl⟩ := hc
      exact hconstant hash m' hrun
    by_cases hg : ∃ hash, i = .defineGlobal hash
    · obtain ⟨hash, rfl⟩ := hg
      have hdefines : Keeps R (perform executor (.defineGlobal hash)) :=
        (keeps_peek 0).bind fun v => (hdefine hash (next?_of_advance hrun) v).bind fun _ =>
          keeps_pop.bind fun _ => keeps_pure _
      exact hdefines m'
    · exact keeps_perform_moving (fun index heq => hi ⟨index, heq⟩) (fun _ => inferInstance)
        (fun hash v _ => hset hash v) (fun hash v heq => absurd ⟨hash, heq⟩ hg)
        (fun hash v heq => absurd ⟨hash, heq⟩ hc) (fun object hash v _ => hproperty object hash v)
        executor m'
  rw [step_eq]
  have hadvances := keeps_advance (R := R) m
  cases hrun : advance m with
  | ok i m₁ =>
    rw [after_of_ok hrun] at hadvances
    rw [after_bind_of_ok hrun]
    exact IsTrans.trans _ _ _ hadvances (hperform i m₁ hrun)
  | error e m₁ =>
    rw [after_of_error hrun] at hadvances
    rwa [after_of_error (bind_of_error hrun)]

/-- The definition of a global keeps what writing the global does. -/
theorem keeps_step (he : Keeps R executor) (m : Machine)
    (hset : ∀ hash v, Keeps R (setGlobal hash v))
    (hdefine : ∀ hash, m.next? = some (.defineGlobal hash) → ∀ v, Keeps R (insertGlobal hash v))
    (hconstant : ∀ hash m', advance m = .ok (.defineConstant hash) m' →
      R m' (after (pop >>= defineConstant hash) m'))
    (hproperty : ∀ object hash v, Keeps R (setProperty object hash v)) :
    R m (after (step executor) m) :=
  keeps_step_of he m hset (fun hash hnext v => keeps_defineGlobal (hdefine hash hnext v)) hconstant
    hproperty

/-- What allows loads is kept by runs, if writing a global or a property and defining a global or a
constant keep it. Definitions count only as far as they are expected. -/
theorem keeps_watch_of {expected : Machine → Bool} (hset : ∀ hash v, Keeps R (setGlobal hash v))
    (hdefine : ∀ m hash, expected m = true → m.next? = some (.defineGlobal hash) →
      ∀ v, Keeps R (defineGlobal hash v))
    (hconstant : ∀ m hash m', expected m = true → advance m = .ok (.defineConstant hash) m' →
      R m' (after (pop >>= defineConstant hash) m'))
    (hproperty : ∀ object hash v, Keeps R (setProperty object hash v)) (fuel : Nat) :
    Keeps R (watch expected fuel) := by
  induction fuel with
  | zero => exact keeps_of_same after_execute_zero
  | succ fuel ih =>
    have hround : Keeps R (do expect expected; step (watch expected fuel)) := by
      intro m
      by_cases hm : expected m = true
      · have hexpect : expect expected m = .ok () m := if_pos hm
        rw [after_bind_of_ok hexpect]
        exact keeps_step_of ih m hset (fun hash => hdefine m hash hm)
          (fun hash m' => hconstant m hash m' hm) hproperty
      · have hexpect : expect expected m = .error .overflow m := if_neg hm
        rw [after_of_error (bind_of_error hexpect)]
        exact Machine.Admits.refl m
    refine keeps_get.bind fun m => ?_
    split
    · refine (keeps_checkBreakpoint ih).bind fun _ => ?_
      rw [← bind_assoc]
      exact hround.bind fun _ => ih
    · exact keeps_pure ()

/-- The definition of a global keeps what writing the global does. -/
theorem keeps_watch {expected : Machine → Bool} (hset : ∀ hash v, Keeps R (setGlobal hash v))
    (hdefine : ∀ m hash, expected m = true → m.next? = some (.defineGlobal hash) →
      ∀ v, Keeps R (insertGlobal hash v))
    (hconstant : ∀ m hash m', expected m = true → advance m = .ok (.defineConstant hash) m' →
      R m' (after (pop >>= defineConstant hash) m'))
    (hproperty : ∀ object hash v, Keeps R (setProperty object hash v)) (fuel : Nat) :
    Keeps R (watch expected fuel) :=
  keeps_watch_of hset (fun m hash hm hnext v => keeps_defineGlobal (hdefine m hash hm hnext v))
    hconstant hproperty fuel

end Exec
end ScriptVm
