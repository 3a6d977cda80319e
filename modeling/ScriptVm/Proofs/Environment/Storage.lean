import ScriptVm.Machine.Step
import ScriptVm.Proofs.Heap.Accounts

/-!
# Where scripts keep values

Scripts keep values in globals and constants and in objects: in the locals of modules, in fields of
instances and classes, in elements of arrays, in entries of maps and in the constants of functions.
A value that is linked to a cell of the host lives no longer than the host wants, and must not get
there by itself.

* `Value.Plain` says that a value is not linked; a `Fresh` object holds no other values
  and no methods.
* `Pocket` is a place in an object, `Storage` a place anywhere; `stored?` is what is there.
* `NoNewLink`, for objects, heaps and environments, says that links are only where they were before.
  The lemmas about it say what placing and changing objects must not bring in.
-/

namespace ScriptVm

/-- What is found after an insertion was inserted or was there before. -/
theorem Table.get?_insert_cases {α : Type} {t : Table α} {hash other : UInt32} {v w : α}
    (h : (t.insert hash v).get? other = some w) : w = v ∨ t.get? other = some w := by
  by_cases hh : other = hash
  · subst hh
    rw [get?_insert_self] at h
    exact .inl (Option.some.inj h).symm
  · rw [get?_insert_of_ne _ hh] at h
    exact .inr h

/-! ### Plain values -/

/-- A value that is linked to no cell. -/
def Value.Plain (v : Value) : Prop := ∀ l : Link, v ≠ l.value

theorem Value.plain_delink (v : Value) (cells : Cells) : (v.delink cells).Plain := by
  intro l
  cases v <;> cases l <;> exact nofun

/-! ### Objects -/

/-- A place in an object where scripts keep a value. -/
inductive Pocket where
  | field (hash : UInt32)
  | moduleLocal (index : Nat)
  | element (index : Nat)
  | entry (hash : UInt32)
  | literal (index : Nat)
deriving DecidableEq

/-- The value in a pocket of an object. -/
def Obj.kept? : Obj → Pocket → Option Value
  | o, .field hash => (Exec.fieldsOf? o).bind (·.get? hash)
  | .module m, .moduleLocal index => m.locals[index]?
  | .array values, .element index => values[index]?
  | .map m, .entry hash => (m.entries.get? hash).map (·.2)
  | .function f, .literal index => f.constants[index]?
  | _, _ => none

/-- A class without methods. -/
structure ClassObject.Blank (k : ClassObject) : Prop where
  methods : k.methods = ∅
  initializer : k.initializer = none

namespace Obj

variable {o o' : Obj} {v : Value}

/-- An object that keeps no link. -/
def Plain (o : Obj) : Prop := ∀ p v, o.kept? p = some v → v.Plain

/-- An object keeps the links of another at most, each in its pocket. -/
def NoNewLink (o o' : Obj) : Prop :=
  ∀ p (l : Link), o'.kept? p = some l.value → o.kept? p = some l.value

theorem noNewLink_of_plain (h : ∀ p v, o'.kept? p = some v → o.kept? p = some v ∨ v.Plain) :
    o.NoNewLink o' :=
  fun p l hl => (h p l.value hl).resolve_right fun hplain => hplain l rfl

theorem NoNewLink.refl (o : Obj) : o.NoNewLink o := fun _ _ h => h

/-- An object that keeps nothing keeps no link. -/
theorem plain_of_none (h : ∀ p, o.kept? p = none) : o.Plain := by
  intro p v hv
  rw [h p] at hv
  cases hv

theorem plain_string (text : String) : (Obj.string text).Plain :=
  plain_of_none fun p => by cases p <;> rfl

theorem plain_native (name : String) : (Obj.native name).Plain :=
  plain_of_none fun p => by cases p <;> rfl

theorem plain_boundMethod (receiver : Value) (method : Handle) :
    (Obj.boundMethod receiver method).Plain :=
  plain_of_none fun p => by cases p <;> rfl

theorem plain_instance (c : Handle) : (Obj.inst (.ofClass c)).Plain :=
  plain_of_none fun p => by cases p <;> rfl

theorem plain_emptyMap : (Obj.map .empty).Plain :=
  plain_of_none fun p => by cases p <;> rfl

theorem plain_class {c : ClassObject} (hc : c.fields = ∅) : (Obj.scriptClass c).Plain := by
  refine plain_of_none fun p => ?_
  cases p with
  | field hash =>
    show c.fields.get? hash = none
    rw [hc]
    rfl
  | _ => rfl

theorem plain_module {m : ModuleObject} (hm : m.locals = #[]) : (Obj.module m).Plain := by
  refine plain_of_none fun p => ?_
  cases p with
  | moduleLocal index =>
    show m.locals[index]? = none
    rw [hm]
    rfl
  | _ => rfl

theorem plain_array {values : Array Value} (hv : ∀ v ∈ values, v.Plain) :
    (Obj.array values).Plain := by
  intro p v h
  cases p with
  | element index => exact hv v (Array.mem_of_getElem? h)
  | _ => cases h

theorem plain_function {f : FunctionObject} (hf : ∀ v ∈ f.constants, v.Plain) :
    (Obj.function f).Plain := by
  intro p v h
  cases p with
  | literal index => exact hf v (Array.mem_of_getElem? h)
  | _ => cases h

/-- An object as instructions make it: it keeps no link, if it is a class, it has no methods, and it
is bound to no native object. -/
structure Fresh (o : Obj) : Prop where
  plain : o.Plain
  blank : ∀ k, o = .scriptClass k → k.Blank
  loose : Heap.reclaimedEntity? o = none

theorem fresh_class {k : ClassObject} (hfields : k.fields = ∅) (hk : k.Blank) :
    (Obj.scriptClass k).Fresh := by
  refine ⟨plain_class hfields, fun k' heq => ?_, rfl⟩
  cases heq
  exact hk

theorem Plain.fresh (ho : o.Plain) (hk : ∀ k, o ≠ .scriptClass k)
    (hloose : Heap.reclaimedEntity? o = none) : o.Fresh :=
  ⟨ho, fun k h => absurd h (hk k), hloose⟩

/-- A class with the same fields. -/
theorem noNewLink_class {c c' : ClassObject} (hc : c'.fields = c.fields) :
    (Obj.scriptClass c).NoNewLink (.scriptClass c') := by
  intro p l h
  cases p with
  | field hash =>
    have hget : c'.fields.get? hash = some l.value := h
    rwa [hc] at hget
  | _ => cases h

/-- A function with the same constants. -/
theorem noNewLink_function {f f' : FunctionObject} (hf : f'.constants = f.constants) :
    (Obj.function f).NoNewLink (.function f') := by
  intro p l h
  cases p with
  | literal index =>
    have hget : f'.constants[index]? = some l.value := h
    rwa [hf] at hget
  | _ => cases h

/-- A module whose new locals are plain. -/
theorem noNewLink_module {m m' : ModuleObject}
    (hm : ∀ (i : Nat) v, m'.locals[i]? = some v → m.locals[i]? = some v ∨ v.Plain) :
    (Obj.module m).NoNewLink (.module m') := by
  refine noNewLink_of_plain fun p v h => ?_
  cases p with
  | moduleLocal index => exact hm index v h
  | _ => cases h

theorem kept?_put (m : MapObject) (key : String) (v : Value) (p : Pocket) :
    (Obj.map (m.put key v)).kept? p =
      if p = .entry (hashName key) then some v else (Obj.map m).kept? p := by
  cases p with
  | entry hash =>
    by_cases hh : hash = hashName key
    · subst hh
      simp [kept?, MapObject.put]
    · simp [kept?, MapObject.put, hh, Table.get?_insert_of_ne]
  | _ => rfl

theorem plain_put {m : MapObject} (hm : (Obj.map m).Plain) (key : String) (hv : v.Plain) :
    (Obj.map (m.put key v)).Plain := by
  intro p w h
  rw [kept?_put] at h
  split at h
  · cases h
    exact hv
  · exact hm p w h

/-- The map of some pairs is plain. -/
theorem plain_fillMap {mem : Memory} {values : List Value} {m m' : MapObject}
    (hm : (Obj.map m).Plain) (hfill : Exec.fillMap mem values m = .ok m') :
    (Obj.map m').Plain := by
  induction values, m using Exec.fillMap.induct mem with
  | case1 key v rest m text htext ih =>
    rw [Exec.fillMap, htext] at hfill
    exact ih (plain_put hm text (v.plain_delink mem.cells)) hfill
  | case2 key v rest m htext =>
    rw [Exec.fillMap, htext] at hfill
    cases hfill
  | case3 values m hvalues =>
    rw [Exec.fillMap] at hfill
    · cases hfill
      exact hm
    · exact hvalues

/-- A plain element takes the place of another. -/
theorem noNewLink_storeIndex (hv : v.Plain) (index : Nat) (o : Obj) :
    o.NoNewLink (Exec.storeIndex index v o) := by
  cases o with
  | array values =>
    refine noNewLink_of_plain fun p w h => ?_
    cases p with
    | element i =>
      simp only [Exec.storeIndex, kept?, Array.getElem?_setIfInBounds] at h
      split at h
      · split at h
        · cases h
          exact .inr hv
        · cases h
      · exact .inl h
    | _ => cases h
  | _ => exact .refl _

/-- A plain entry is put into a map. -/
theorem noNewLink_storeKey (hv : v.Plain) (key : String) (o : Obj) :
    o.NoNewLink (Exec.storeKey key v o) := by
  cases o with
  | map m =>
    refine noNewLink_of_plain fun p w h => ?_
    rw [Exec.storeKey, kept?_put] at h
    split at h
    · cases h
      exact .inr hv
    · exact .inl h
  | _ => exact .refl _

/-- A plain field is stored. -/
theorem noNewLink_insertField (hv : v.Plain) (hash : UInt32) (o : Obj) :
    o.NoNewLink (Exec.insertField hash v o) := by
  have hfields : ∀ (fields : Table Value) (other : UInt32) (w : Value),
      (fields.insert hash v).get? other = some w → fields.get? other = some w ∨ w.Plain := by
    intro fields other w h
    rcases Table.get?_insert_cases h with rfl | hold
    · exact .inr hv
    · exact .inl hold
  refine noNewLink_of_plain fun p w h => ?_
  cases o with
  | inst i =>
    cases p with
    | field other => exact hfields i.fields other w h
    | _ => cases h
  | scriptClass c =>
    cases p with
    | field other => exact hfields c.fields other w h
    | _ => cases h
  | _ => exact .inl h

end Obj

/-! ### Environments -/

/-- The value in a pocket of the object that a handle finds. -/
def Heap.kept? (heap : Heap) (h : Handle) (p : Pocket) : Option Value :=
  (heap.get? h).bind (·.kept? p)

namespace Heap

/-- The objects of a heap keep the links of another at most, each in its pocket. -/
def NoNewLink (heap heap' : Heap) : Prop :=
  ∀ h p (l : Link), heap'.kept? h p = some l.value → heap.kept? h p = some l.value

theorem noNewLink_alloc (heap : Heap) {o : Obj} (ho : o.Plain) :
    heap.NoNewLink (heap.alloc o).2 := by
  intro h p l hl
  obtain ⟨q, hq, hkept⟩ := Option.bind_eq_some_iff.1 hl
  rcases get?_alloc_cases hq with rfl | hold
  · exact absurd rfl (ho p l.value hkept l)
  · exact Option.bind_eq_some_iff.2 ⟨q, hold, hkept⟩

theorem noNewLink_modify (heap : Heap) (h : Handle) {f : Obj → Obj}
    (hf : ∀ o : Obj, o.NoNewLink (f o)) : heap.NoNewLink (heap.modify h f) := by
  intro k p l hl
  obtain ⟨q, hq, hkept⟩ := Option.bind_eq_some_iff.1 hl
  rw [get?_modify] at hq
  split at hq
  · rename_i hk
    subst hk
    obtain ⟨o, ho, rfl⟩ := Option.map_eq_some_iff.1 hq
    exact Option.bind_eq_some_iff.2 ⟨o, ho, hf o p l hkept⟩
  · exact Option.bind_eq_some_iff.2 ⟨q, hq, hkept⟩

end Heap

/-- A place where scripts keep a value. -/
inductive Storage where
  | global (hash : UInt32)
  | constant (hash : UInt32)
  | pocket (h : Handle) (p : Pocket)
deriving DecidableEq

namespace Environment

/-- The value in a place. -/
def stored? (env : Environment) : Storage → Option Value
  | .global hash => env.globals.get? hash
  | .constant hash => env.constants.get? hash
  | .pocket h p => env.heap.kept? h p

/-- Links are only where they were before. -/
def NoNewLink (env env' : Environment) : Prop :=
  ∀ s (l : Link), env'.stored? s = some l.value → env.stored? s = some l.value

variable {env env' : Environment} {v : Value}

/-- Only the objects are others. -/
theorem noNewLink_of_heap (hglobals : env'.globals = env.globals)
    (hconstants : env'.constants = env.constants) (hheap : env.heap.NoNewLink env'.heap) :
    env.NoNewLink env' := by
  intro s l hl
  cases s with
  | global hash => rwa [stored?, hglobals] at hl
  | constant hash => rwa [stored?, hconstants] at hl
  | pocket h p => exact hheap h p l hl

theorem noNewLink_global (env : Environment) (hash : UInt32) (hv : v.Plain) :
    env.NoNewLink { env with globals := env.globals.insert hash v } := by
  intro s l hl
  cases s with
  | global other =>
    rcases Table.get?_insert_cases hl with heq | hold
    · exact absurd heq.symm (hv l)
    · exact hold
  | constant other => exact hl
  | pocket h p => exact hl

theorem noNewLink_constant (env : Environment) (hash : UInt32) (hv : v.Plain) :
    env.NoNewLink { env with constants := env.constants.insert hash v } := by
  intro s l hl
  cases s with
  | constant other =>
    rcases Table.get?_insert_cases hl with heq | hold
    · exact absurd heq.symm (hv l)
    · exact hold
  | global other => exact hl
  | pocket h p => exact hl

end Environment
end ScriptVm
