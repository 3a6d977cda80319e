import ScriptVm.Native.Catalog
import ScriptVm.Proofs.Machine.FailedSteps
import ScriptVm.Proofs.Machine.SuperCalls

/-!
# Having, getting and invoking a property

Scripts ask whether a value has a property, read it, or call it. Each way looks for it by itself,
and each leaves parents in the classes that it passes.

* `Environment.property?` is what a value has under a hash, and the environment that the
  search leaves.
* `SameClasses` are environments in which every search finds the same; `findMember_searched`,
  `property?_searched` and `property?_bound` say that asking changes no answer.
* `hasProperty_eq`, `getProperty_eq` and `invoke_of_missing` are the three ways in terms of it.
* `property_agreement` is the result.
-/

namespace ScriptVm
namespace Environment

variable {env env' : Environment} {c h : Handle} {hash : UInt32} {v w : Value} {n : Nat}
  {r : Option Value}

/-! ### Searches that find the same -/

/-- The same classes, globals and entity base: all that a search reads. -/
structure SameClasses (env env' : Environment) : Prop where
  classes : env'.heap.class? = env.heap.class?
  globals : env'.globals = env.globals
  entityBase : env'.entityBase = env.entityBase

theorem SameClasses.parent? (hs : env.SameClasses env') : env'.parent? = env.parent? := by
  have hbound : env'.classByHash? = env.classByHash? := by
    funext hash
    unfold classByHash? Heap.isClass
    rw [hs.classes, hs.globals]
  funext c
  unfold Environment.parent? parentFor?
  rw [hs.classes, hbound]

theorem SameClasses.ancestor? (hs : env.SameClasses env') (c : Handle) (n : Nat) :
    env'.ancestor? c n = env.ancestor? c n := by
  induction n with
  | zero => rfl
  | succ n ih => rw [ancestor?_succ, ancestor?_succ, ih, hs.parent?]

theorem SameClasses.classAbove? (hs : env.SameClasses env') (c : Handle) (n : Nat) :
    env'.classAbove? c n = env.classAbove? c n := by
  unfold Environment.classAbove?
  rw [hs.ancestor?, hs.classes]

theorem SameClasses.resolves (hs : env.SameClasses env') (hr : env.Resolves c hash n r) :
    env'.Resolves c hash n r := by
  have hpasses (k : Nat) : env'.Passes c hash k ↔ env.Passes c hash k := by
    simp only [Passes, hs.classAbove?]
  have hentity (k : Nat) : env'.EntityBound c k ↔ env.EntityBound c k := by
    simp only [EntityBound, hs.classAbove?]
  have hbase (w : Value) : env'.BaseHas hash w ↔ env.BaseHas hash w := by
    simp only [BaseHas, hs.entityBase, hs.classes]
  cases hr with
  | found hlt hpass hk hv =>
    exact .found hlt ((hpasses n).2 hpass) ((hs.classAbove? c n).trans hk) hv
  | lost hlt hpass hh hlost =>
    exact .lost hlt ((hpasses n).2 hpass) ((hs.ancestor? c n).trans hh) (by rw [hs.classes, hlost])
  | tooDeep hpass hh => exact .tooDeep ((hpasses 256).2 hpass) ((hs.ancestor? c 256).trans hh)
  | base hle hpass hend hbound hv =>
    exact .base hle ((hpasses n).2 hpass) ((hs.ancestor? c n).trans hend) ((hentity n).2 hbound)
      ((hbase _).2 hv)
  | nothing hle hpass hend hno =>
    refine .nothing hle ((hpasses n).2 hpass) ((hs.ancestor? c n).trans hend) fun hbound w hw => ?_
    exact hno ((hentity n).1 hbound) w ((hbase w).1 hw)

/-- Where every search resolves to the same, the same is found. -/
theorem findMember_of_resolves (hall : ∀ n r, env.Resolves c hash n r → env'.Resolves c hash n r) :
    (env'.findMember c hash).1 = (env.findMember c hash).1 := by
  obtain ⟨n, hr, -⟩ := env.findMember_resolves c hash
  obtain ⟨n', hr', -⟩ := env'.findMember_resolves c hash
  exact (hr'.unique (hall n _ hr)).2

theorem SameClasses.findMember (hs : env.SameClasses env') (c : Handle) (hash : UInt32) :
    (env'.findMember c hash).1 = (env.findMember c hash).1 :=
  findMember_of_resolves fun _ _ => hs.resolves

/-- An object that is no class, placed, changes no class. -/
theorem sameClasses_alloc (hs : env.heap.Slotted) {o : Obj} (ho : ∀ k, o ≠ .scriptClass k) :
    env.SameClasses (env.alloc o).2 := by
  refine ⟨funext fun h => ?_, rfl, rfl⟩
  show (env.heap.alloc o).2.class? h = env.heap.class? h
  unfold Heap.class?
  by_cases hh : (env.heap.alloc o).1 = h
  · have hfresh : env.heap.get? h = none := by
      have hnew := Heap.contains_alloc_fresh hs o
      rw [hh] at hnew
      simpa [Heap.contains] using hnew
    rw [← hh, Heap.get?_alloc_self hs o, hh, hfresh]
    cases o with
    | scriptClass k => exact absurd rfl (ho k)
    | _ => rfl
  · rw [Heap.get?_alloc_of_ne hs hh]

/-! ### Searches after searches -/

/-- What a search leaves is the environment with parents remembered, but for the log. -/
theorem searched_cases (env : Environment) (c : Handle) (n : Nat) :
    ∃ passed log, env.searched c n = { env.remembering passed with log } := by
  unfold searched
  split
  · exact ⟨_, _, rfl⟩
  · exact ⟨_, _, rfl⟩

theorem sameClasses_log (env : Environment) (log : Log) : env.SameClasses { env with log } :=
  ⟨rfl, rfl, rfl⟩

/-- A search finds the same after another one. -/
theorem findMember_searched (env : Environment) (c' : Handle) (n : Nat) (c : Handle)
    (hash : UInt32) : ((env.searched c' n).findMember c hash).1 = (env.findMember c hash).1 := by
  obtain ⟨passed, log, hleft⟩ := env.searched_cases c' n
  rw [hleft, ((env.remembering passed).sameClasses_log log).findMember]
  exact findMember_of_resolves fun _ _ hr => hr.remembering passed

/-- A search leaves an object as it was, but for the parents of classes. -/
theorem get?_searched (env : Environment) (c : Handle) (n : Nat) (h : Handle) :
    (env.searched c n).heap.get? h = env.heap.get? h ∨
      ∃ k k', env.heap.get? h = some (.scriptClass k) ∧
        (env.searched c n).heap.get? h = some (.scriptClass k') := by
  obtain ⟨passed, log, hleft⟩ := env.searched_cases c n
  have hget : (env.searched c n).heap.get? h =
      (env.heap.get? h).map fun o => if h ∈ passed then env.withParent o else o := by
    rw [hleft]
    exact env.get?_remembering passed h
  rw [hget]
  by_cases hmem : h ∈ passed
  · cases env.heap.get? h with
    | none => exact .inl rfl
    | some o =>
      cases o with
      | scriptClass k =>
        exact .inr ⟨k, { k with parent := env.parentFor? k }, rfl, by simp [hmem, withParent]⟩
      | _ => exact .inl (by simp [hmem, withParent])
  · simp [hmem]

/-- A search that finds something goes no further than it may. -/
theorem Resolves.searched (hr : env.Resolves c hash n (some w)) :
    env.searched c n = env.remembering (env.ancestors c n) := by
  cases hr with
  | found hlt => exact searched_of_end (.inl hlt)
  | base _ _ hend => exact searched_of_end (.inr hend)

theorem ancestors_remembering (env : Environment) (passed : List Handle) (c : Handle) (n : Nat) :
    (env.remembering passed).ancestors c n = env.ancestors c n := by
  unfold ancestors
  rw [funext (env.ancestor?_remembering passed c)]

theorem remembering_again (env : Environment) (passed : List Handle) :
    (env.remembering passed).remembering passed = env.remembering passed := by
  rw [remembering_append]
  refine eq_remembering rfl fun i => ?_
  rw [slots_remembering]
  simp

/-- A search that found something finds it again and leaves the environment as it is. -/
theorem findMember_again (hfound : (env.findMember c hash).1 = some w) :
    (env.findMember c hash).2.findMember c hash = env.findMember c hash := by
  obtain ⟨n, hr, hleft⟩ := env.findMember_resolves c hash
  rw [hfound] at hr
  have hagain := hr.remembering (env.ancestors c n)
  rw [hr.searched] at hleft
  refine Prod.ext ?_ ?_
  · rw [hleft, hfound, findMember_of_resolves fun _ _ hr => hr.remembering (env.ancestors c n),
      hfound]
  · rw [hleft, (findMember_eq_iff.2 ⟨n, hagain, rfl⟩ : _ = (some w, _)), hagain.searched,
      ancestors_remembering, remembering_again]

theorem slotted_findMember (hs : env.heap.Slotted) (c : Handle) (hash : UInt32) :
    (env.findMember c hash).2.heap.Slotted := by
  have hsearches : env.Searches (env.findMember c hash).2 := env.searches_findMember c hash
  generalize (env.findMember c hash).2 = left at hsearches
  induction hsearches with
  | refl => exact hs
  | tail _ hstep ih => exact hstep.transient.slotted ih

/-! ### What a value has under a hash -/

/-- Where a property is looked for: in the fields of an instance, and from a class on. -/
def origin? (env : Environment) (v : Value) : Option (Table Value × Handle) :=
  v.object?.bind fun h =>
    match env.heap.get? h with
    | some (.inst i) => some (i.fields, i.classHandle)
    | some (.scriptClass _) => some (∅, h)
    | _ => none

/-- The property of a value, and the environment after the search for it. -/
def property? (env : Environment) (v : Value) (hash : UInt32) : Option Value × Environment :=
  match env.origin? v with
  | some (fields, c) =>
    match fields.get? hash with
    | some field => (some field, env)
    | none => env.findMember c hash
  | none => (none, env)

/-- Why a value does not have a property. -/
def missing (env : Environment) (v : Value) (hash : UInt32) : Cause :=
  match v.object?.bind env.heap.get? with
  | some (.inst _) => .notInInstance (env.variableName hash)
  | some (.scriptClass _) => .notInClass (env.variableName hash)
  | _ => .noProperties

theorem severity_missing (env : Environment) (v : Value) (hash : UInt32) :
    (env.missing v hash).severity = .runtime := by
  unfold missing
  split <;> rfl

theorem origin?_searched (env : Environment) (c : Handle) (n : Nat) (v : Value) :
    (env.searched c n).origin? v = env.origin? v := by
  unfold origin?
  congr 1
  funext h
  rcases env.get?_searched c n h with hsame | ⟨k, k', hk, hk'⟩
  · rw [hsame]
  · rw [hk, hk']

theorem missing_searched (env : Environment) (c : Handle) (n : Nat) (v : Value) (hash : UInt32) :
    (env.searched c n).missing v hash = env.missing v hash := by
  have hname : (env.searched c n).variableName hash = env.variableName hash := by
    obtain ⟨passed, log, hleft⟩ := env.searched_cases c n
    rw [hleft]
    rfl
  unfold missing
  rw [hname]
  cases v with
  | object h =>
    rcases env.get?_searched c n h with hsame | ⟨k, k', hk, hk'⟩
    · simp only [Value.object?, Option.bind_some, hsame]
    · simp only [Value.object?, Option.bind_some, hk, hk']
  | _ => rfl

theorem origin?_alloc (hs : env.heap.Slotted) (bound : Value) (f : Handle) (v : Value) :
    (env.alloc (.boundMethod bound f)).2.origin? v = env.origin? v := by
  unfold origin?
  congr 1
  funext h
  by_cases hh : (env.heap.alloc (.boundMethod bound f)).1 = h
  · have hfresh : env.heap.get? h = none := by
      have hnew := Heap.contains_alloc_fresh hs (.boundMethod bound f)
      rw [hh] at hnew
      simpa [Heap.contains] using hnew
    have hself := Heap.get?_alloc_self hs (.boundMethod bound f)
    rw [hh] at hself
    rw [hfresh, show (env.alloc (.boundMethod bound f)).2.heap.get? h = _ from hself]
  · rw [show (env.alloc (.boundMethod bound f)).2.heap.get? h = _ from Heap.get?_alloc_of_ne hs hh]

theorem property?_congr (horigin : env'.origin? v = env.origin? v)
    (hfind : ∀ c, (env'.findMember c hash).1 = (env.findMember c hash).1) :
    (env'.property? v hash).1 = (env.property? v hash).1 := by
  unfold property?
  rw [horigin]
  split
  · split
    · rfl
    · exact hfind _
  · rfl

/-- What a search for a property leaves. -/
theorem property?_cases (env : Environment) (v : Value) (hash : UInt32) :
    (env.property? v hash).2 = env ∨ ∃ c n, (env.property? v hash).2 = env.searched c n := by
  unfold property?
  split
  · split
    · exact .inl rfl
    · obtain ⟨n, -, hleft⟩ := env.findMember_resolves _ hash
      exact .inr ⟨_, n, hleft⟩
  · exact .inl rfl

/-- Asking for one property changes no property. -/
theorem property?_property? (env : Environment) (v : Value) (hash : UInt32) (v' : Value)
    (hash' : UInt32) :
    ((env.property? v hash).2.property? v' hash').1 = (env.property? v' hash').1 := by
  rcases env.property?_cases v hash with hleft | ⟨c, n, hleft⟩
  · rw [hleft]
  · rw [hleft]
    exact property?_congr (env.origin?_searched c n v') fun c' =>
      env.findMember_searched c n c' hash'

/-- Binding a method changes no property. -/
theorem property?_alloc (hs : env.heap.Slotted) (bound : Value) (f : Handle) (v : Value)
    (hash : UInt32) :
    ((env.alloc (.boundMethod bound f)).2.property? v hash).1 = (env.property? v hash).1 :=
  property?_congr (origin?_alloc hs bound f v) fun c =>
    (sameClasses_alloc hs fun k hk => by cases hk).findMember c hash

/-- A property that was found is found again, and the environment stays as it is. -/
theorem property?_again (hfound : (env.property? v hash).1 = some w) :
    (env.property? v hash).2.property? v hash = env.property? v hash := by
  have horigin : (env.property? v hash).2.origin? v = env.origin? v := by
    rcases env.property?_cases v hash with hleft | ⟨c, n, hleft⟩
    · rw [hleft]
    · rw [hleft, origin?_searched]
  unfold property? at hfound horigin ⊢
  rw [horigin]
  cases ho : env.origin? v with
  | none => rfl
  | some origin =>
    obtain ⟨fields, c⟩ := origin
    rw [ho] at hfound
    cases hfield : fields.get? hash with
    | some field => simp [hfield]
    | none =>
      simp only [hfield] at hfound ⊢
      exact findMember_again hfound

theorem slotted_property? (hs : env.heap.Slotted) (v : Value) (hash : UInt32) :
    (env.property? v hash).2.heap.Slotted := by
  unfold property?
  split
  · split
    · exact hs
    · exact slotted_findMember hs _ hash
  · exact hs

theorem missing_property? (env : Environment) (v : Value) (hash : UInt32) :
    (env.property? v hash).2.missing v hash = env.missing v hash := by
  rcases env.property?_cases v hash with hleft | ⟨c, n, hleft⟩
  · rw [hleft]
  · rw [hleft, missing_searched]

/-! ### What is made of it -/

/-- The function that is bound to an instance when a member of its class is read. -/
def bindable? (env : Environment) (object : Value) (hash : UInt32) (found : Value) :
    Option Handle :=
  match object.object?.bind env.heap.instance? with
  | some i =>
    if i.fields.contains hash then none
    else found.object?.filter fun h => (env.heap.function? h).isSome
  | none => none

/-- What a script gets that reads a property, and the environment then. -/
def settle (env : Environment) (object : Value) (hash : UInt32) (found : Value) :
    Value × Environment :=
  match env.bindable? object hash found with
  | some f =>
    let (h, env) := env.alloc (.boundMethod object f)
    (.object h, env)
  | none => (found.delink env.memory.cells, env)

theorem settle_cases (env : Environment) (object : Value) (hash : UInt32) (found : Value) :
    (env.settle object hash found).2 = env ∨
      ∃ f, (env.settle object hash found).2 = (env.alloc (.boundMethod object f)).2 := by
  unfold settle
  split
  · exact .inr ⟨_, rfl⟩
  · exact .inl rfl

theorem settle_of_function {i : InstanceObject} {f : Handle} (hi : env.heap.instance? h = some i)
    (hfield : i.fields.get? hash = none) (hf : (env.heap.function? f).isSome = true) :
    env.settle (.object h) hash (.object f) =
      (.object (env.alloc (.boundMethod (.object h) f)).1,
        (env.alloc (.boundMethod (.object h) f)).2) := by
  have hbound : env.bindable? (.object h) hash (.object f) = some f := by
    simp [bindable?, Value.object?, hi, Table.contains, hfield, hf]
  unfold settle
  rw [hbound]

theorem settle_of_other {f : Handle} (hf : env.heap.function? f = none) (object : Value) :
    env.settle object hash (.object f) = (.object f, env) := by
  have hbound : env.bindable? object hash (.object f) = none := by
    unfold bindable?
    split
    · simp [Value.object?, hf]
    · rfl
  unfold settle
  rw [hbound]
  rfl

/-- An instance stays as it is when a member of its class is looked for. -/
theorem instance?_findMember (env : Environment) (c : Handle) (hash : UInt32) (h : Handle) :
    (env.findMember c hash).2.heap.instance? h = env.heap.instance? h := by
  obtain ⟨n, -, hleft⟩ := env.findMember_resolves c hash
  rw [hleft]
  unfold Heap.instance?
  rcases env.get?_searched c n h with hsame | ⟨k, k', hk, hk'⟩
  · rw [hsame]
  · rw [hk, hk']

theorem cells_findMember (env : Environment) (c : Handle) (hash : UInt32) :
    (env.findMember c hash).2.memory.cells = env.memory.cells := by
  obtain ⟨n, -, hleft⟩ := env.findMember_resolves c hash
  obtain ⟨passed, log, hsearched⟩ := env.searched_cases c n
  rw [hleft, hsearched]
  rfl

end Environment

namespace Exec

open Environment Machine

variable {m m' : Machine} {v w : Value} {hash : UInt32} {env : Environment} {argc : Nat}

/-! ### The three ways to ask -/

theorem hasProperty_eq (v : Value) (hash : UInt32) (m : Machine) :
    hasProperty v hash m =
      .ok (m.env.property? v hash).1.isSome { m with env := (m.env.property? v hash).2 } := by
  unfold hasProperty property? origin?
  cases v with
  | object h =>
    refine (bind_of_ok rfl).trans ?_
    simp only [Value.object?, Option.bind_some]
    cases hget : m.env.heap.get? h with
    | none => rfl
    | some o =>
      cases o with
      | inst i =>
        dsimp only
        unfold Table.contains
        split
        · rename_i hsome
          obtain ⟨field, hfield⟩ := Option.isSome_iff_exists.1 hsome
          simp only [hfield]
          rfl
        · rename_i hnone
          simp only [Option.not_isSome_iff_eq_none.1 hnone]
          rfl
      | _ => rfl
  | _ => rfl

theorem bindMethod_eq {h : Handle} {i : InstanceObject} (hi : m.env.heap.instance? h = some i)
    (hfield : i.fields.contains hash = false) (found : Value) :
    bindMethod (.object h) found m = .ok (m.env.settle (.object h) hash found).1
      { m with env := (m.env.settle (.object h) hash found).2 } := by
  have hbound : m.env.bindable? (.object h) hash found =
      found.object?.filter fun h => (m.env.heap.function? h).isSome := by
    simp [bindable?, Value.object?, hi, hfield]
  unfold bindMethod settle
  refine (bind_of_ok rfl).trans ?_
  dsimp only
  rw [hbound]
  cases found.object?.filter fun h => (m.env.heap.function? h).isSome <;> rfl

/-- Reading a property that is found. -/
theorem getProperty_of_some (hfound : (m.env.property? v hash).1 = some w) :
    getProperty v hash m = .ok ((m.env.property? v hash).2.settle v hash w).1
      { m with env := ((m.env.property? v hash).2.settle v hash w).2 } := by
  unfold property? origin? at hfound ⊢
  unfold getProperty
  refine (bind_of_ok rfl).trans ?_
  cases v with
  | object h =>
    simp only [Value.object?, Option.bind_some] at hfound ⊢
    cases hget : m.env.heap.get? h with
    | none => simp [hget] at hfound
    | some o =>
      cases o with
      | inst i =>
        have hi : m.env.heap.instance? h = some i := Heap.instance?_eq_some.2 hget
        simp only [hget] at hfound ⊢
        cases hfield : i.fields.get? hash with
        | some field =>
          simp only [hfield, Option.some.injEq] at hfound ⊢
          subst hfound
          have hnone : m.env.bindable? (.object h) hash field = none := by
            simp [bindable?, Value.object?, hi, Table.contains, hfield]
          unfold settle
          rw [hnone]
          rfl
        | none =>
          simp only [hfield] at hfound ⊢
          rw [bind_of_ok (onEnvironment_eq _ m), hfound]
          exact bindMethod_eq (m := { m with env := (m.env.findMember i.classHandle hash).2 })
            ((m.env.instance?_findMember i.classHandle hash h).trans hi)
            (by simp [Table.contains, hfield]) w
      | scriptClass k =>
        have hi : m.env.heap.instance? h = none := by simp [Heap.instance?, hget]
        have hnone : (m.env.findMember h hash).2.bindable? (.object h) hash w = none := by
          simp [bindable?, Value.object?, m.env.instance?_findMember h hash h, hi]
        have hempty : (∅ : Table Value).get? hash = none := rfl
        simp only [hget, hempty] at hfound ⊢
        refine (bind_of_ok (onEnvironment_eq _ m)).trans ?_
        unfold settle
        simp only [Option.getD_some, hfound, hnone, m.env.cells_findMember]
        rfl
      | _ => simp [hget] at hfound
  | _ => cases hfound

/-- Reading a property that is not found. -/
theorem getProperty_of_none (hnone : (m.env.property? v hash).1 = none) :
    getProperty v hash m = .error (.error (.ofCause (m.env.missing v hash)))
      { m with env := (m.env.property? v hash).2 } := by
  unfold property? origin? at hnone ⊢
  unfold getProperty missing
  refine (bind_of_ok rfl).trans ?_
  cases v with
  | object h =>
    simp only [Value.object?, Option.bind_some] at hnone ⊢
    cases hget : m.env.heap.get? h with
    | none => rfl
    | some o =>
      cases o with
      | inst i =>
        simp only [hget] at hnone ⊢
        cases hfield : i.fields.get? hash with
        | some field => simp [hfield] at hnone
        | none =>
          simp only [hfield] at hnone ⊢
          rw [bind_of_ok (onEnvironment_eq _ m), hnone]
          rfl
      | scriptClass k =>
        simp only [hget] at hnone ⊢
        replace hnone : (m.env.findMember h hash).1 = none := hnone
        refine (bind_of_ok (onEnvironment_eq _ m)).trans ?_
        simp only [Option.getD_some, hnone]
        rfl
      | _ => rfl
  | _ => rfl

/-- A call by name of what is not found. -/
theorem invoke_of_missing (hv : m.fromTop? argc = some v) (hargc : argc ≤ 255)
    (hnone : (m.env.property? v hash).1 = none) :
    ∃ c : Cause, invoke hash argc false m = .error (.error (.ofCause c))
      { m with env := (m.env.property? v hash).2 } ∧ c.severity = .runtime := by
  have hpeek : peek argc m = .ok v m :=
    peek_of_fromTop? (Nat.lt_of_le_of_lt (Nat.succ_le_succ hargc) (by decide)) hv
  unfold property? origin? at hnone ⊢
  unfold invoke
  rw [bind_of_ok hpeek]
  cases v with
  | object h =>
    refine Exists.imp (fun c => And.imp_left (bind_of_ok rfl).trans) ?_
    simp only [Value.object?, Option.bind_some] at hnone ⊢
    cases hget : m.env.heap.get? h with
    | none => exact ⟨.noMethods, rfl, rfl⟩
    | some o =>
      cases o with
      | inst i =>
        simp only [hget] at hnone ⊢
        cases hfield : i.fields.get? hash with
        | some field => simp [hfield] at hnone
        | none =>
          simp only [hfield] at hnone ⊢
          unfold invokeOnInstance invokeFromClass
          rw [if_neg Bool.false_ne_true, hfield]
          dsimp only
          rw [bind_of_ok (onEnvironment_eq _ m), hnone]
          exact ⟨_, rfl, rfl⟩
      | scriptClass k =>
        have hempty : (∅ : Table Value).get? hash = none := rfl
        simp only [hget, hempty] at hnone ⊢
        unfold invokeOnClass
        rw [bind_of_ok (onEnvironment_eq _ m), hnone]
        exact ⟨_, rfl, rfl⟩
      | _ => exact ⟨.noMethods, rfl, rfl⟩
  | _ => exact ⟨.noMethods, rfl, rfl⟩

end Exec

namespace Machine

open Exec

variable {m : Machine} {v w : Value} {hash : UInt32}

/-! ### Answers -/

/-- What an instruction leaves on top of the stack, or why it halts. -/
def answer (executor : Exec Unit) (i : Instruction) (m : Machine) :
    Except (Halt Fault) (Option Value) :=
  match perform executor i m with
  | .ok _ m' => .ok (m'.fromTop? 0)
  | .error e _ => .error e

/-- The environment after an instruction, also when it halts. -/
def envAfter (executor : Exec Unit) (i : Instruction) (m : Machine) : Environment :=
  match perform executor i m with
  | .ok _ m' => m'.env
  | .error _ m' => m'.env

theorem fromTop?_push (m : Machine) (stack : Array Value) (v : Value) :
    (m.mapStack fun _ => stack.push v).fromTop? 0 = some v := by
  show (stack.push v).toList.reverse[0]? = some v
  simp

theorem fromTop?_replaced (hv : m.fromTop? 0 = some v) (w : Value) :
    (m.mapStack fun s => s.setIfInBounds (s.size - 1) w).fromTop? 0 = some w := by
  obtain ⟨hpos, -⟩ := fromTop?_eq_some.1 hv
  refine fromTop?_eq_some.2 ⟨?_, ?_⟩
  · simpa [mapStack] using hpos
  · show (m.thread.stack.setIfInBounds (m.thread.stack.size - 1) w)[
      (m.thread.stack.setIfInBounds (m.thread.stack.size - 1) w).size - 1]? = some w
    have hlt : m.thread.stack.size - 1 < m.thread.stack.size := by omega
    rw [Array.size_setIfInBounds, Array.getElem?_setIfInBounds, if_pos rfl, if_pos hlt]

theorem answer_hasProperty (hv : m.fromTop? 0 = some v)
    (hroom : m.thread.stack.size ≤ Thread.maxStack) (hash : UInt32) (executor : Exec Unit) :
    m.answer executor (.hasProperty hash) = .ok (some (.ofBool (m.env.property? v hash).1.isSome)) ∧
      m.envAfter executor (.hasProperty hash) = (m.env.property? v hash).2 := by
  obtain ⟨hpos, -⟩ := fromTop?_eq_some.1 hv
  have hask := hasProperty_eq v hash (m.mapStack (·.pop))
  have hpush : m.thread.stack.pop.size < Thread.maxStack := by
    rw [Array.size_pop]
    omega
  have hrun : perform executor (.hasProperty hash) m = .ok ()
      (({ m with env := (m.env.property? v hash).2 } : Machine).mapStack fun s =>
        s.pop.push (.ofBool (m.env.property? v hash).1.isSome)) := by
    refine (bind_of_ok (pop_of_fromTop? hv)).trans ((bind_of_ok hask).trans ?_)
    unfold push
    exact if_pos hpush
  unfold answer envAfter
  rw [hrun]
  exact ⟨congrArg Except.ok (fromTop?_push _ _ _), rfl⟩

/-- Reading a property of the value on top that is found. -/
theorem perform_getProperty_of_some (hv : m.fromTop? 0 = some v) (executor : Exec Unit)
    (hfound : (m.env.property? v hash).1 = some w) :
    let settled := (m.env.property? v hash).2.settle v hash w
    perform executor (.getProperty hash) m = .ok ()
      (({ m with env := settled.2 } : Machine).mapStack fun s =>
        s.setIfInBounds (s.size - 1) settled.1) := by
  intro settled
  have hset : setPeek 0 settled.1 { m with env := settled.2 } = .ok ()
      (({ m with env := settled.2 } : Machine).mapStack fun s =>
        s.setIfInBounds (s.size - 1) settled.1) :=
    setPeek_of_fromTop? (m := { m with env := settled.2 }) (by decide) hv settled.1
  exact (bind_of_ok (peek_of_fromTop? (by decide) hv)).trans
    ((bind_of_ok (getProperty_of_some hfound)).trans hset)

theorem answer_getProperty_of_some (hv : m.fromTop? 0 = some v) (executor : Exec Unit)
    (hfound : (m.env.property? v hash).1 = some w) :
    m.answer executor (.getProperty hash) =
        .ok (some ((m.env.property? v hash).2.settle v hash w).1) ∧
      m.envAfter executor (.getProperty hash) = ((m.env.property? v hash).2.settle v hash w).2 := by
  unfold answer envAfter
  rw [perform_getProperty_of_some hv executor hfound]
  exact ⟨congrArg Except.ok (fromTop?_replaced hv _), rfl⟩

theorem answer_getProperty_of_none (hv : m.fromTop? 0 = some v) (executor : Exec Unit)
    (hnone : (m.env.property? v hash).1 = none) :
    m.answer executor (.getProperty hash) =
        .error (.error (.ofCause (m.env.missing v hash))) ∧
      m.envAfter executor (.getProperty hash) = (m.env.property? v hash).2 := by
  have hrun : perform executor (.getProperty hash) m = _ :=
    (bind_of_ok (peek_of_fromTop? (by decide) hv)).trans
      (bind_of_error (getProperty_of_none hnone))
  unfold answer envAfter
  rw [hrun]
  exact ⟨rfl, rfl⟩

/-- After one question about a value, asking whether it has the property answers the same. -/
theorem isSome_property?_envAfter (hv : m.fromTop? 0 = some v) (hs : m.env.heap.Slotted)
    (executor : Exec Unit) :
    ((m.envAfter executor (.getProperty hash)).property? v hash).1.isSome =
      (m.env.property? v hash).1.isSome := by
  cases hfound : (m.env.property? v hash).1 with
  | none =>
    rw [(answer_getProperty_of_none hv executor hfound).2, Environment.property?_property?, hfound]
  | some w =>
    rw [(answer_getProperty_of_some hv executor hfound).2]
    rcases (m.env.property? v hash).2.settle_cases v hash w with hsame | ⟨f, hbound⟩
    · rw [hsame, Environment.property?_property?, hfound]
    · rw [hbound, Environment.property?_alloc (Environment.slotted_property? hs v hash),
        Environment.property?_property?, hfound]

/-- **Having, getting and invoking a property.** A value has a property exactly if reading it
succeeds, else reading and calling it fail, whichever is asked first. -/
theorem property_agreement (hv : m.fromTop? 0 = some v)
    (hroom : m.thread.stack.size ≤ Thread.maxStack) (hs : m.env.heap.Slotted) (hash : UInt32)
    (executor : Exec Unit) :
    let has := Instruction.hasProperty hash
    let get := Instruction.getProperty hash
    ∃ b : Bool, m.answer executor has = .ok (some (.ofBool b)) ∧
      (b = true ↔ ∃ w, m.answer executor get = .ok (some w)) ∧
      (b = false → ∃ f, m.answer executor get = .error (.error f) ∧ f.severity = .runtime) ∧
      (b = false → ∀ (m' : Machine) (argc : UInt8),
        m'.env = m.env ∨ m'.env = m.envAfter executor has ∨ m'.env = m.envAfter executor get →
        m'.fromTop? argc.toNat = some v →
          ∃ f, m'.answer executor (.invoke argc hash false) = .error (.error f) ∧
            f.severity = .runtime) ∧
      ∀ m' : Machine, m'.fromTop? 0 = some v → m'.thread.stack.size ≤ Thread.maxStack →
        (m'.env = m.envAfter executor has → m'.answer executor get = m.answer executor get) ∧
        (m'.env = m.envAfter executor get → m'.answer executor has = m.answer executor has) := by
  intro has get
  obtain ⟨hhas, hafter⟩ := answer_hasProperty hv hroom hash executor
  refine ⟨(m.env.property? v hash).1.isSome, hhas, ?_, ?_, ?_, fun m' hv' hroom' => ⟨?_, ?_⟩⟩
  · cases hfound : (m.env.property? v hash).1 with
    | none => simp [get, (answer_getProperty_of_none hv executor hfound).1]
    | some w => simp [get, (answer_getProperty_of_some hv executor hfound).1]
  · intro hnone
    rw [Option.isSome_eq_false_iff, Option.isNone_iff_eq_none] at hnone
    exact ⟨_, (answer_getProperty_of_none hv executor hnone).1,
      Environment.severity_missing m.env v hash⟩
  · intro hnone m' argc henv hv'
    have hstill : (m'.env.property? v hash).1.isSome = false := by
      rw [← hnone]
      rcases henv with henv | henv | henv
      · rw [henv]
      · rw [henv, hafter, Environment.property?_property?]
      · rw [henv, isSome_property?_envAfter hv hs]
    rw [Option.isSome_eq_false_iff, Option.isNone_iff_eq_none] at hstill
    obtain ⟨c, hfails, hruntime⟩ :=
      invoke_of_missing hv' (Nat.le_of_lt_succ argc.toNat_lt) hstill
    have hrun : perform executor (.invoke argc hash false) m' = _ := hfails
    refine ⟨.ofCause c, ?_, hruntime⟩
    unfold answer
    rw [hrun]
  · intro henv
    rw [hafter] at henv
    cases hfound : (m.env.property? v hash).1 with
    | none =>
      have hstill : (m'.env.property? v hash).1 = none := by
        rw [henv, Environment.property?_property?, hfound]
      rw [(answer_getProperty_of_none hv' executor hstill).1,
        (answer_getProperty_of_none hv executor hfound).1, henv, Environment.missing_property?]
    | some w =>
      have hagain := Environment.property?_again hfound
      rw [← henv] at hagain
      have hstill : (m'.env.property? v hash).1 = some w := by rw [hagain, hfound]
      rw [(answer_getProperty_of_some hv' executor hstill).1,
        (answer_getProperty_of_some hv executor hfound).1, hagain]
  · intro henv
    rw [(answer_hasProperty hv' hroom' hash executor).1, hhas, henv,
      isSome_property?_envAfter hv hs]

/-- A class with a native under one hash, a class that names it as its parent, and an instance. -/
def heirs : Environment :=
  let parent := ClassObject.ofHash 7
  let heap := (Heap.empty.alloc (.native "klass")).2
  let heap := (heap.alloc
    (.scriptClass { parent with methods := parent.methods.insert 9 (.object ⟨0, 0⟩) })).2
  let heap := (heap.alloc (.scriptClass { ClassObject.ofHash 8 with parentHash := some 7 })).2
  let heap := (heap.alloc (.inst (.ofClass ⟨2, 0⟩))).2
  let env := Environment.new heap Native.standard none default
  { env with globals := env.globals.insert 7 (.object ⟨1, 0⟩) }

/-- A thread with the instance on its stack. -/
def heirOffered : Machine := ⟨heirs, { Thread.new 0 with stack := #[.object ⟨3, 0⟩] }⟩

/-- The instance has the native, in its class's parent, and nothing under another hash. -/
theorem property_agreement_heir :
    (∃ w, heirOffered.answer (execute 0) (.getProperty 9) = .ok (some w)) ∧
      ∃ f, heirOffered.answer (execute 0) (.invoke 0 10 false) = .error (.error f) ∧
        f.severity = .runtime := by
  have hs : heirOffered.env.heap.Slotted :=
    Heap.slotted_alloc (Heap.slotted_alloc (Heap.slotted_alloc (Heap.slotted_alloc
      (Heap.slotted_withThreshold _ _) _) _) _) _
  obtain ⟨b, hhas, hget, -⟩ :=
    property_agreement (m := heirOffered) rfl (by decide) hs 9 (execute 0)
  obtain ⟨b', hhas', -, -, hinvoke, -⟩ :=
    property_agreement (m := heirOffered) rfl (by decide) hs 10 (execute 0)
  have hb : b = true := by
    cases b with
    | true => rfl
    | false => cases hhas
  have hb' : b' = false := by
    cases b' with
    | false => rfl
    | true => cases hhas'
  exact ⟨hget.1 hb, hinvoke hb' heirOffered 0 (.inl rfl) rfl⟩

end Machine
end ScriptVm
