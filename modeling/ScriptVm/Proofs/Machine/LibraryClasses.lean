import ScriptVm.Proofs.Machine.Bookkeeping
import ScriptVm.Proofs.Machine.ClassFiles
import ScriptVm.Proofs.Machine.Constants

/-!
# Classes of the host's library

A host may bind a class as a constant. Scripts that define a class of that name extend it, so the
name never becomes a global; but a class that was loaded is looked up among the globals.

* `Environment.Withholds` says that a name is a constant, no global and not on record as bound.
  `keeps_withholding_execute` is the result for runs: no script changes this, and the binder is not
  called for the name.
* `loadClass_ne_true` and `loadClass_of_loadFiles` say what this means for the loading of the class,
  and `importClass_fails` what it means for an import, whatever the files of the class do.
-/

namespace ScriptVm

/-- The name of a hash is that of a constant and of no global, and no class of that name is on the
record of the loader. -/
structure Environment.Withholds (env : Environment) (hash : UInt32) : Prop where
  constant : env.constants.contains hash = true
  global : env.globals.get? hash = none
  unbound : ∃ l, env.loader = some l ∧ hash ∉ l.boundClasses

namespace Environment

variable {env env' env'' : Environment} {hash : UInt32}

theorem Withholds.classByHash? (h : env.Withholds hash) : env.classByHash? hash = none := by
  unfold Environment.classByHash?
  rw [h.global]
  rfl

/-- The binder was called for no class of a name. -/
def Unasked (hash : UInt32) (env env' : Environment) : Prop :=
  ∃ names, env'.binderCalls = env.binderCalls ++ names ∧ hash ∉ names.map hashName

theorem Unasked.of_eq (h : env'.binderCalls = env.binderCalls) : Unasked hash env env' :=
  ⟨[], by rw [h, List.append_nil], List.not_mem_nil⟩

theorem Unasked.trans (h : Unasked hash env env') (h' : Unasked hash env' env'') :
    Unasked hash env env'' := by
  obtain ⟨names, heq, hnot⟩ := h
  obtain ⟨names', heq', hnot'⟩ := h'
  refine ⟨names ++ names', by rw [heq', heq, List.append_assoc], fun hmem => ?_⟩
  rw [List.map_append] at hmem
  exact (List.mem_append.1 hmem).elim hnot hnot'

theorem Edit.globals (h : env.Edit env') : env'.globals = env.globals := by
  cases h <;> rfl

theorem SameLoads.binderCalls (h : env.SameLoads env') : env'.binderCalls = env.binderCalls := by
  unfold Environment.binderCalls
  rw [h.loader]

end Environment

namespace Machine

open Exec

variable {m m' : Machine} {hash other : UInt32}

/-! ### What no script changes -/

/-- A name that is withheld stays so, and the binder is not called for it. -/
def Withholding (hash : UInt32) (m m' : Machine) : Prop :=
  m.env.Withholds hash → m'.env.Withholds hash ∧ m.env.Unasked hash m'.env

theorem withholding_of_same (hconstants : m'.env.constants = m.env.constants)
    (hglobals : m'.env.globals = m.env.globals) (hloads : m.env.SameLoads m'.env) :
    Withholding hash m m' := by
  intro hm
  refine ⟨⟨hconstants ▸ hm.constant, hglobals ▸ hm.global, ?_⟩, .of_eq hloads.binderCalls⟩
  rw [hloads.loader]
  exact hm.unbound

/-- The tables of globals and constants are as they were. -/
structure SameNames (m m' : Machine) : Prop where
  constants : m'.env.constants = m.env.constants
  globals : m'.env.globals = m.env.globals

instance : AdmitsRuns SameNames where
  trans _ _ _ h h' := ⟨h'.constants.trans h.constants, h'.globals.trans h.globals⟩
  refl _ := ⟨rfl, rfl⟩
  stack _ _ := ⟨rfl, rfl⟩
  register _ _ := ⟨rfl, rfl⟩
  enter _ _ := ⟨rfl, rfl⟩
  edit _ _ h := ⟨h.constants, h.edit.globals⟩
  native _ _ _ := ⟨rfl, rfl⟩
  thread _ _ _ := ⟨rfl, rfl⟩
  loaded _ _ _ _ := ⟨rfl, rfl⟩

/-- Fetching a file binds nothing. -/
theorem withholding_fetch (file : UInt32) : Keeps (Withholding hash) (Load.fetch file) := by
  intro m hm
  obtain ⟨l, hl, hunbound⟩ := hm.unbound
  rw [Load.after_fetch, hl]
  refine ⟨⟨hm.constant, hm.global, _, rfl, l.boundClasses_fetch file ▸ hunbound⟩, .of_eq ?_⟩
  unfold Environment.binderCalls
  rw [hl, Option.map_some, Option.bind_some, Option.bind_some, l.binder_fetch]

/-- A class that is bound is a global, so its name is not withheld. -/
theorem withholding_bindClass (name : String) :
    Keeps (Withholding hash) (Load.bindClass name (hashName name)) := by
  intro m hm
  have hnames := keeps_bindClass (R := SameNames) name (hashName name) m
  obtain ⟨l, hl, hunbound⟩ := hm.unbound
  rcases Load.bindClass_cases hl name (hashName name) with
    ⟨-, hrun⟩ | ⟨-, -, env, hrun, hloads⟩ | ⟨c, env, binder, -, hc, hrun, hloader, -, hasks⟩
  · rw [after_of_ok hrun]
    exact ⟨hm, .of_eq rfl⟩
  · rw [after_of_ok hrun] at hnames ⊢
    exact withholding_of_same hnames.constants hnames.globals hloads hm
  · rw [after_of_ok hrun] at hnames ⊢
    have hother : hash ≠ hashName name := by
      rintro rfl
      cases hm.classByHash?.symm.trans hc
    refine ⟨⟨hnames.constants ▸ hm.constant, hnames.globals ▸ hm.global, _, hloader, ?_⟩, ?_⟩
    · exact fun hmem => (List.mem_cons.1 hmem).elim hother hunbound
    · show m.env.Unasked hash env
      unfold Environment.Unasked Environment.binderCalls
      rw [hloader, hl]
      dsimp only [Option.bind_some]
      generalize l.binder = asked at hasks
      cases hasks with
      | no b => exact ⟨[], (List.append_nil _).symm, List.not_mem_nil⟩
      | yes b => exact ⟨[name], Array.toList_push, fun hmem => hother (List.mem_singleton.1 hmem)⟩

instance : AdmitsLoads (Withholding hash) where
  trans _ _ _ h h' hm := by
    obtain ⟨hm', hasked⟩ := h hm
    obtain ⟨hm'', hasked'⟩ := h' hm'
    exact ⟨hm'', hasked.trans hasked'⟩
  refl _ := withholding_of_same rfl rfl (.refl _)
  stack _ _ := withholding_of_same rfl rfl (.refl _)
  register _ _ := withholding_of_same rfl rfl (.refl _)
  enter _ _ := withholding_of_same rfl rfl (.refl _)
  edit _ _ h := withholding_of_same h.constants h.edit.globals h.edit.sameLoads
  native _ _ _ := withholding_of_same rfl rfl ⟨rfl, rfl⟩
  thread _ _ _ := withholding_of_same rfl rfl (.refl _)
  fetch := withholding_fetch
  bind := withholding_bindClass

/-! ### Writing under a name -/

theorem keeps_withholding_mapCells (g : Cells → Cells) : Keeps (Withholding hash) (mapCells g) :=
  fun _ => withholding_of_same rfl rfl ⟨rfl, rfl⟩

theorem keeps_withholding_insertGlobal (hother : other ≠ hash) (v : Value) :
    Keeps (Withholding hash) (insertGlobal other v) := by
  intro m hm
  refine ⟨⟨hm.constant, ?_, hm.unbound⟩, .of_eq rfl⟩
  show (m.env.globals.insert other _).get? hash = none
  rw [Table.get?_insert_of_ne _ (Ne.symm hother)]
  exact hm.global

theorem exists_constant (hm : m.env.Withholds hash) : ∃ v, m.env.constants.get? hash = some v :=
  Option.isSome_iff_exists.1 hm.constant

/-- The name is refused as that of a constant. -/
theorem keeps_withholding_setGlobal (other : UInt32) (v : Value) :
    Keeps (Withholding hash) (setGlobal other v) := by
  by_cases hother : other = hash
  · subst hother
    intro m hm
    obtain ⟨w, hw⟩ := exists_constant hm
    rw [after_of_error (setGlobal_of_constant hm.global hw v)]
    exact ⟨hm, .of_eq rfl⟩
  · exact keeps_setGlobal_of keeps_withholding_mapCells (keeps_withholding_insertGlobal hother v)

/-- The class of the name is extended, or the name is refused. -/
theorem keeps_withholding_defineGlobal (other : UInt32) (v : Value) :
    Keeps (Withholding hash) (defineGlobal other v) := by
  by_cases hother : other = hash
  · subst hother
    intro m hm
    obtain ⟨w, hw⟩ := exists_constant hm
    have hdefine := defineGlobal_of_constant hm.global hw v
    unfold definedOver at hdefine
    split at hdefine
    · rename_i extension target _ _
      rw [after_of_ok hdefine]
      exact Admits.edits (R := Withholding other) m (m.env.edits_extendClass extension target) hm
    · rw [after_of_error hdefine]
      exact ⟨hm, .of_eq rfl⟩
  · exact keeps_defineGlobal (keeps_withholding_insertGlobal hother v)

theorem keeps_withholding_defineConstant (other : UInt32) (v : Value) :
    Keeps (Withholding hash) (defineConstant other v) := by
  intro m hm
  refine ⟨⟨?_, hm.global, hm.unbound⟩, .of_eq rfl⟩
  show ((m.env.constants.insert other _).get? hash).isSome = true
  by_cases hother : hash = other
  · rw [hother, Table.get?_insert_self]
    rfl
  · rw [Table.get?_insert_of_ne _ hother]
    exact hm.constant

theorem keeps_withholding_setProperty (object : Value) (other : UInt32) (v : Value) :
    Keeps (Withholding hash) (setProperty object other v) :=
  keeps_setProperty_of keeps_withholding_mapCells
    (fun _ _ _ => withholding_of_same rfl rfl ⟨rfl, rfl⟩) object

/-- No run makes a global of a name that is withheld, and the binder is not called for it. -/
theorem keeps_withholding_execute (fuel : Nat) : Keeps (Withholding hash) (execute fuel) := by
  rw [← watch_true]
  exact keeps_watch_of keeps_withholding_setGlobal
    (fun _ other _ _ v => keeps_withholding_defineGlobal other v)
    (fun _ other m _ _ => keeps_pop.bind (keeps_withholding_defineConstant other) m)
    keeps_withholding_setProperty fuel

/-! ### Loading the class -/

variable {name : String} {l : Loader} {files : List UInt32} {executor : Exec Unit}

theorem bindClass_of_withholds (hm : m.env.Withholds (hashName name)) :
    Load.bindClass name (hashName name) m = .ok false
      { m with env := m.env.report .error fun _ => s!"Could not find class of {name}" } := by
  obtain ⟨l, hl, hunbound⟩ := hm.unbound
  exact Load.bindClass_of_none hl hunbound hm.classByHash?

theorem loadClass_of_unmapped (hname : name ≠ "") (hl : m.env.loader = some l)
    (hfiles : l.source.classMap.files? (hashName name) = none) (executor : Exec Unit) :
    Load.loadClass executor name m = .ok false { m with env := m.env.report .warn fun _ =>
      s!"Could not find classmap for {name}! (Hash: 0x" ++ Text.hexWord (hashName name) ++
        ")" } := by
  unfold Load.loadClass
  rw [if_neg fun h => hname (String.isEmpty_iff.1 h)]
  refine (bind_of_ok rfl).trans ?_
  rw [hl]
  dsimp only
  rw [hfiles]
  rfl

/-- Files that are all there and run without an error do not make the load succeed. -/
theorem loadClass_of_loadFiles (hname : name ≠ "") (hl : m.env.loader = some l)
    (hfiles : l.source.classMap.files? (hashName name) = some files)
    (he : Keeps (Withholding (hashName name)) executor) (hm : m.env.Withholds (hashName name))
    (hrun : Load.loadFiles executor name files.length true files m = .ok true m') :
    Load.loadClass executor name m = .ok false
      { m' with env := m'.env.report .error fun _ => s!"Could not find class of {name}" } := by
  have hm' := keeps_loadFiles he name files.length true files m hm
  rw [after_of_ok hrun] at hm'
  rw [Load.loadClass_of_mapped hname hl hfiles, bind_of_ok hrun]
  exact bindClass_of_withholds hm'.1

/-- The load never succeeds. -/
theorem loadClass_ne_true (he : Keeps (Withholding (hashName name)) executor)
    (hm : m.env.Withholds (hashName name)) (m' : Machine) :
    Load.loadClass executor name m ≠ .ok true m' := by
  intro hrun
  by_cases hname : name = ""
  · subst hname
    cases hrun
  obtain ⟨l, hl, -⟩ := hm.unbound
  cases hfiles : l.source.classMap.files? (hashName name) with
  | none =>
    cases hrun.symm.trans (loadClass_of_unmapped hname hl hfiles executor)
  | some files =>
    have hload := Load.loadClass_of_mapped hname hl hfiles executor
    cases hloaded : Load.loadFiles executor name files.length true files m with
    | error e m₁ => cases hrun.symm.trans (hload.trans (bind_of_error hloaded))
    | ok loaded m₁ =>
      cases loaded with
      | false => cases hrun.symm.trans (hload.trans (bind_of_ok hloaded))
      | true => cases hrun.symm.trans (loadClass_of_loadFiles hname hl hfiles he hm hloaded)

/-- An import of the class never succeeds. -/
theorem importClass_fails (he : Keeps (Withholding (hashName name)) executor)
    (hm : m.env.Withholds (hashName name)) {index : UInt32} {v : Value}
    (hconstant : constantAt index.toNat m = .ok v m) (htext : m.env.heap.text? v = some name) :
    ∃ e m', perform executor (.importClass index) m = .error e m' := by
  have himport := perform_importClass hconstant htext executor
  cases hload : Load.loadClass executor name m with
  | error e m₁ => exact ⟨_, _, himport.trans (bind_of_error (adaptExcept_of_error hload _))⟩
  | ok loaded m₁ =>
    cases loaded with
    | false => exact ⟨_, _, himport.trans (bind_of_ok (adaptExcept_of_ok hload _))⟩
    | true => exact absurd hload (loadClass_ne_true he hm m₁)

end Machine
end ScriptVm
