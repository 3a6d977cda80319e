import ScriptVm.Environment.ClassLookup
import ScriptVm.Proofs.Contract

/-!
# Evolution of environments

What a contract asks of an environment, and that the environment's own operations keep it.

* `Respects` is what is asked of the host's natives, `GoodEnvironment` what is asked of everything
  that threads share.
* `Evolves` says that one good environment comes after another, with no handle lost.
* `evolves_resolveParent` to `evolves_bind` are the operations, one lemma for each.
-/

namespace ScriptVm

namespace Heap

variable {heap : Heap} {h : Handle}

theorem class?_eq_some {k : ClassObject} :
    heap.class? h = some k ↔ heap.get? h = some (.scriptClass k) := by
  unfold class?
  split <;> simp_all

theorem function?_eq_some {f : FunctionObject} :
    heap.function? h = some f ↔ heap.get? h = some (.function f) := by
  unfold function?
  split <;> simp_all

theorem instance?_eq_some {i : InstanceObject} :
    heap.instance? h = some i ↔ heap.get? h = some (.inst i) := by
  unfold instance?
  split <;> simp_all

theorem module?_eq_some {m : ModuleObject} :
    heap.module? h = some m ↔ heap.get? h = some (.module m) := by
  unfold module?
  split <;> simp_all

end Heap

namespace Contract

/-- What natives do to the heap and give back is good. -/
def Respects (c : Contract) (natives : Natives) : Prop :=
  ∀ name (mem : Memory) args, c.GoodHeap mem.heap → (∀ v ∈ args, c.Good mem.heap v) →
    c.GoodHeap (natives name mem args).2.heap ∧ c.Grows mem.heap (natives name mem args).2.heap ∧
      ∀ v, (natives name mem args).1 = .ok v → c.Good (natives name mem args).2.heap v

/-- Everything that threads share is good. -/
structure GoodEnvironment (c : Contract) (env : Environment) : Prop where
  heap : c.GoodHeap env.heap
  globals : ∀ v ∈ env.globals.values, c.Good env.heap v
  constants : ∀ v ∈ env.constants.values, c.Good env.heap v
  modules : ∀ h ∈ env.modules.toList, c.Finds env.heap h
  functions : ∀ h ∈ env.functions.toList, c.Finds env.heap h
  classes : ∀ h ∈ env.classes.toList, c.Finds env.heap h
  entityBase : ∀ h ∈ env.entityBase.toList, c.Finds env.heap h
  extraRoots : ∀ v ∈ env.extraRoots.toList, c.Good env.heap v
  natives : c.Respects env.natives

/-- A good environment that comes after another. -/
structure Evolves (c : Contract) (env env' : Environment) : Prop where
  good : c.GoodEnvironment env'
  grows : c.Grows env.heap env'.heap

variable {c : Contract} {env env' env'' : Environment} {h p : Handle} {v : Value}

theorem Evolves.trans (he : c.Evolves env env') (he' : c.Evolves env' env'') :
    c.Evolves env env'' :=
  ⟨he'.good, he.grows.trans he'.grows⟩

/-- A contract that does not ask for handles asks for the heap and the natives only. -/
theorem goodEnvironment_of_not_live (hl : ¬ c.live) (hh : c.GoodHeap env.heap)
    (hn : c.Respects env.natives) : c.GoodEnvironment env where
  heap := hh
  globals := fun _ _ _ _ h => absurd h hl
  constants := fun _ _ _ _ h => absurd h hl
  modules := fun _ _ h => absurd h hl
  functions := fun _ _ h => absurd h hl
  classes := fun _ _ h => absurd h hl
  entityBase := fun _ _ h => absurd h hl
  extraRoots := fun _ _ _ _ h => absurd h hl
  natives := hn

namespace GoodEnvironment

theorem evolves (hg : c.GoodEnvironment env) : c.Evolves env env := ⟨hg, .refl c _⟩

/-- Names, log, loader and cells are of no concern. -/
theorem evolves_of_eq (hg : c.GoodEnvironment env)
    (he : { env' with
      memory := { env'.memory with cells := .empty, entities := #[] }
      tokens := ∅, activeThreads := 0, loader := none, log := default } =
    { env with
      memory := { env.memory with cells := .empty, entities := #[] }
      tokens := ∅, activeThreads := 0, loader := none, log := default }) : c.Evolves env env' := by
  obtain ⟨⟨heap', cells', entities'⟩, globals', constants', tokens', modules', functions', classes',
    entityBase', extraRoots', activeThreads', natives', loader', log'⟩ := env'
  obtain ⟨⟨heap, cells, entities⟩, globals, constants, tokens, modules, functions, classes,
    entityBase, extraRoots, activeThreads, natives, loader, log⟩ := env
  simp only [Environment.mk.injEq, Memory.mk.injEq, true_and, and_true] at he
  obtain ⟨rfl, rfl, rfl, rfl, rfl, rfl, rfl, rfl, rfl⟩ := he
  exact ⟨⟨hg.heap, hg.globals, hg.constants, hg.modules, hg.functions, hg.classes, hg.entityBase,
    hg.extraRoots, hg.natives⟩, .refl c _⟩

theorem evolves_report (hg : c.GoodEnvironment env) (level : Level) (text : Unit → String) :
    c.Evolves env (env.report level text) :=
  hg.evolves_of_eq rfl

theorem evolves_addToken (hg : c.GoodEnvironment env) (name : String) :
    c.Evolves env (env.addToken name).2 :=
  hg.evolves_of_eq rfl

/-! ### Changes of the heap -/

/-- The tables stay good while the heap grows. -/
theorem evolves_memory (hg : c.GoodEnvironment env) (mem : Memory) (hh : c.GoodHeap mem.heap)
    (hgrows : c.Grows env.heap mem.heap) : c.Evolves env { env with memory := mem } where
  good :=
    { heap := hh
      globals := fun v hv => (hg.globals v hv).mono hgrows
      constants := fun v hv => (hg.constants v hv).mono hgrows
      modules := fun h hm => (hg.modules h hm).mono hgrows
      functions := fun h hm => (hg.functions h hm).mono hgrows
      classes := fun h hm => (hg.classes h hm).mono hgrows
      entityBase := fun h hm => (hg.entityBase h hm).mono hgrows
      extraRoots := fun v hv => (hg.extraRoots v hv).mono hgrows
      natives := hg.natives }
  grows := hgrows

theorem evolves_alloc (hg : c.GoodEnvironment env) {o : Obj} (ho : c.GoodObject env.heap o) :
    ∃ h env', env.alloc o = (h, env') ∧ c.Evolves env env' ∧ c.Finds env'.heap h := by
  obtain ⟨hh, hgrows, hfinds⟩ := hg.heap.alloc ho
  exact ⟨_, _, rfl, hg.evolves_memory (env.memory.alloc o).2 hh hgrows, hfinds⟩

theorem evolves_modify (hg : c.GoodEnvironment env) (h : Handle) {f : Obj → Obj}
    (hf : ∀ o, env.heap.get? h = some o → c.GoodObject env.heap o → c.GoodObject env.heap (f o)) :
    c.Evolves env (env.mapHeap (·.modify h f)) :=
  hg.evolves_memory _ (hg.heap.modify fun o ho => hf o ho (hg.heap.objects h o ho))
    (grows_modify env.heap h f)

theorem evolves_modifyClass (hg : c.GoodEnvironment env) (h : Handle)
    {f : ClassObject → ClassObject}
    (hf : ∀ k, c.GoodObject env.heap (.scriptClass k) →
      c.GoodObject env.heap (.scriptClass (f k))) :
    c.Evolves env (env.mapHeap (·.modifyClass h f)) := by
  refine hg.evolves_modify h fun o _ ho => ?_
  cases o with
  | scriptClass k => exact hf k ho
  | _ => exact ho

theorem evolves_modifyInstance (hg : c.GoodEnvironment env) (h : Handle)
    {f : InstanceObject → InstanceObject}
    (hf : ∀ i, c.GoodObject env.heap (.inst i) → c.GoodObject env.heap (.inst (f i))) :
    c.Evolves env (env.mapHeap (·.modifyInstance h f)) := by
  refine hg.evolves_modify h fun o _ ho => ?_
  cases o with
  | inst i => exact hf i ho
  | _ => exact ho

theorem evolves_modifyModule (hg : c.GoodEnvironment env) (h : Handle)
    {f : ModuleObject → ModuleObject}
    (hf : ∀ m, c.GoodObject env.heap (.module m) → c.GoodObject env.heap (.module (f m))) :
    c.Evolves env (env.mapHeap (·.modifyModule h f)) := by
  refine hg.evolves_modify h fun o _ ho => ?_
  cases o with
  | module m => exact hf m ho
  | _ => exact ho

theorem evolves_modifyFunction (hg : c.GoodEnvironment env) (h : Handle)
    {f : FunctionObject → FunctionObject}
    (hf : ∀ g, c.GoodObject env.heap (.function g) → c.GoodObject env.heap (.function (f g))) :
    c.Evolves env (env.mapHeap (·.modifyFunction h f)) := by
  refine hg.evolves_modify h fun o _ ho => ?_
  cases o with
  | function g => exact hf g ho
  | _ => exact ho

/-! ### Class lookup -/

theorem finds_of_isClass {heap : Heap} (hc : heap.isClass h = true) : c.Finds heap h := by
  obtain ⟨k, hk⟩ := Option.isSome_iff_exists.1 hc
  exact finds_of_get? (Heap.class?_eq_some.1 hk)

theorem finds_of_classByHash? {hash : UInt32} (hp : env.classByHash? hash = some p) :
    c.Finds env.heap p :=
  finds_of_isClass (Option.filter_eq_some_iff.1 hp).2

/-- A class is good as an object of a good heap. -/
theorem goodClass (hg : c.GoodEnvironment env) {k : ClassObject} (hk : env.heap.class? h = some k) :
    c.GoodObject env.heap (.scriptClass k) :=
  hg.heap.objects h _ (Heap.class?_eq_some.1 hk)

theorem evolves_resolveParent (hg : c.GoodEnvironment env) (h : Handle) :
    c.Evolves env (env.resolveParent h).2 ∧
      ∀ p, (env.resolveParent h).1 = some p → c.Finds (env.resolveParent h).2.heap p := by
  unfold Environment.resolveParent
  split
  · exact ⟨hg.evolves, fun p hp => by cases hp⟩
  · rename_i k hk
    obtain ⟨hname, hmethods, hfields, hinit, hparent⟩ := goodObject_class.1 (hg.goodClass hk)
    split
    · rename_i q hq
      refine ⟨hg.evolves, fun p hp => ?_⟩
      cases hp
      exact hparent q (by simp [hq])
    · split
      · exact ⟨hg.evolves, fun p hp => by cases hp⟩
      · rename_i q hq
        obtain ⟨hash, -, hclass⟩ := Option.bind_eq_some_iff.1 hq
        have hfound : c.Finds env.heap q := finds_of_classByHash? hclass
        -- the parent found is written into the class, where later walks find it
        have hev : c.Evolves env
            (env.mapHeap (·.modifyClass h fun k => { k with parent := some q })) := by
          refine hg.evolves_modifyClass h fun k hk => ?_
          obtain ⟨hname, hmethods, hfields, hinit, -⟩ := goodObject_class.1 hk
          exact goodObject_class.2 ⟨hname, hmethods, hfields, hinit, by simpa using hfound⟩
        refine ⟨hev, fun p hp => ?_⟩
        cases hp
        exact hfound.mono hev.grows

theorem good_ownMember {k : ClassObject} {heap : Heap} {hash : UInt32}
    (hk : c.GoodObject heap (.scriptClass k)) (hv : Environment.ownMember? k hash = some v) :
    c.Good heap v := by
  obtain ⟨-, hmethods, hfields, -⟩ := goodObject_class.1 hk
  unfold Environment.ownMember? at hv
  split at hv
  · cases hv
    exact hfields _ (Table.mem_values_of_get? ‹_›)
  · exact hmethods v (Table.mem_values_of_get? hv)

theorem good_baseMember (hg : c.GoodEnvironment env) {hash : UInt32}
    (hv : env.baseMember? hash = some v) : c.Good env.heap v := by
  obtain ⟨k, hk, hv⟩ := Option.bind_eq_some_iff.1 hv
  obtain ⟨base, -, hk⟩ := Option.bind_eq_some_iff.1 hk
  exact good_ownMember (hg.goodClass hk) hv

/-- At the end of the chain only the base of entities is left. -/
theorem walk_none (first : Handle) (hash : UInt32) (left : Nat) (bound : Bool)
    (env : Environment) : Environment.walk first hash left none bound env =
      (if bound then env.baseMember? hash else none, env) := by
  cases left <;> rfl

/-- Going up the chain of parents only remembers parents. -/
theorem evolves_walk (first : Handle) (hash : UInt32) (left : Nat) (current : Option Handle)
    (bound : Bool) (hg : c.GoodEnvironment env) :
    c.Evolves env (Environment.walk first hash left current bound env).2 ∧
      ∀ v, (Environment.walk first hash left current bound env).1 = some v →
        c.Good (Environment.walk first hash left current bound env).2.heap v := by
  induction left generalizing current bound env with
  | zero =>
    cases current with
    | none =>
      rw [walk_none]
      exact ⟨hg.evolves, fun v hv => hg.good_baseMember (Option.ite_none_right_eq_some.1 hv).2⟩
    | some h => exact ⟨hg.evolves_report _ _, fun v hv => by cases hv⟩
  | succ left ih =>
    cases current with
    | none =>
      rw [walk_none]
      exact ⟨hg.evolves, fun v hv => hg.good_baseMember (Option.ite_none_right_eq_some.1 hv).2⟩
    | some h =>
      unfold Environment.walk
      split
      · exact ⟨hg.evolves, fun v hv => by cases hv⟩
      · rename_i k hk
        split
        · rename_i w hw
          refine ⟨hg.evolves, fun v hv => ?_⟩
          cases hv
          exact good_ownMember (hg.goodClass hk) hw
        · obtain ⟨hparent, -⟩ := hg.evolves_resolveParent h
          obtain ⟨hwalk, hfound⟩ :=
            ih (env.resolveParent h).1 (bound || k.entityBound) hparent.good
          exact ⟨hparent.trans hwalk, hfound⟩

theorem evolves_findMember (hg : c.GoodEnvironment env) (h : Handle) (hash : UInt32) :
    c.Evolves env (env.findMember h hash).2 ∧
      ∀ v, (env.findMember h hash).1 = some v → c.Good (env.findMember h hash).2.heap v :=
  evolves_walk h hash _ _ _ hg

/-! ### Members -/

theorem evolves_insertMethod (hg : c.GoodEnvironment env) (h : Handle) (hash : UInt32)
    (hv : c.Good env.heap v) : c.Evolves env (env.insertMethod h hash v) := by
  refine hg.evolves_modifyClass h fun k hk => ?_
  obtain ⟨hname, hmethods, hrest⟩ := goodObject_class.1 hk
  exact goodObject_class.2 ⟨hname, good_insert hmethods hv, hrest⟩

theorem evolves_defineMethod (hg : c.GoodEnvironment env) (h : Handle) {function : Handle}
    (hash : UInt32) (hf : c.Finds env.heap function) :
    c.Evolves env (env.defineMethod h function hash) := by
  unfold Environment.defineMethod
  split
  · exact hg.evolves
  · rename_i k hk
    have hmethod : c.Evolves env (env.mapHeap (·.modifyClass h fun k =>
        { k with
          methods := k.methods.insert hash (.object function)
          initializer := if hash = k.hash then some (.object function) else k.initializer })) := by
      refine hg.evolves_modifyClass h fun k hk => ?_
      obtain ⟨hname, hmethods, hfields, hinit, hparent⟩ := goodObject_class.1 hk
      refine goodObject_class.2
        ⟨hname, good_insert hmethods (good_object.2 hf), hfields, ?_, hparent⟩
      intro v hv
      split at hv
      · cases List.mem_singleton.1 hv
        exact good_object.2 hf
      · exact hinit v hv
    -- the function gets the name of its class, which the class holds
    have hname := (goodObject_class.1 (hg.goodClass hk)).1
    refine hmethod.trans (hmethod.good.evolves_modifyFunction function fun g hgood => ?_)
    obtain ⟨hn, -, hrest⟩ := goodObject_function.1 hgood
    exact goodObject_function.2 ⟨hn, fun x hx => (hname x hx).mono hmethod.grows, hrest⟩

theorem evolves_extendClass (hg : c.GoodEnvironment env) (extension target : Handle) :
    c.Evolves env (env.extendClass extension target) := by
  unfold Environment.extendClass
  split
  · exact hg.evolves
  · split
    · exact hg.evolves
    · rename_i k hk
      have hmethods := (goodObject_class.1 (hg.goodClass hk)).2.1
      -- the methods were read before they are taken away
      have hcleared : c.Evolves env
          (env.mapHeap (·.modifyClass extension fun k => { k with methods := ∅ })) := by
        refine hg.evolves_modifyClass extension fun k hk => ?_
        obtain ⟨hname, -, hrest⟩ := goodObject_class.1 hk
        exact goodObject_class.2 ⟨hname, fun v hv => absurd hv List.not_mem_nil, hrest⟩
      refine hcleared.trans (hcleared.good.evolves_modifyClass target fun t ht => ?_)
      obtain ⟨hname, hown, hrest⟩ := goodObject_class.1 ht
      refine goodObject_class.2 ⟨hname, fun v hv => ?_, hrest⟩
      rcases Table.mem_values_merge hv with hv | hv
      · exact (hmethods v hv).mono hcleared.grows
      · exact hown v hv

theorem evolves_defineNative (hg : c.GoodEnvironment env) (h : Handle) (name native : String) :
    c.Evolves env (env.defineNative h name native) := by
  have htoken := hg.evolves_addToken name
  obtain ⟨hash, named, hadd⟩ : ∃ hash named, env.addToken name = (hash, named) := ⟨_, _, rfl⟩
  simp only [Environment.defineNative, hadd] at htoken ⊢
  split
  · exact htoken
  · split
    · exact htoken
    · obtain ⟨n, env', halloc, hplaced, hfinds⟩ :=
        htoken.good.evolves_alloc (goodObject_native native)
      rw [halloc]
      exact htoken.trans (hplaced.trans
        (hplaced.good.evolves_insertMethod h hash (good_object.2 hfinds)))

/-- Storing a good value as a constant. -/
theorem evolves_constants (hg : c.GoodEnvironment env) (hash : UInt32) (hv : c.Good env.heap v) :
    c.Evolves env { env with constants := env.constants.insert hash v } :=
  ⟨⟨hg.heap, hg.globals, good_insert hg.constants hv, hg.modules, hg.functions, hg.classes,
    hg.entityBase, hg.extraRoots, hg.natives⟩, .refl c _⟩

/-- Storing a good value as a global. -/
theorem evolves_globals (hg : c.GoodEnvironment env) (hash : UInt32) (hv : c.Good env.heap v) :
    c.Evolves env { env with globals := env.globals.insert hash v } :=
  ⟨⟨hg.heap, good_insert hg.globals hv, hg.constants, hg.modules, hg.functions, hg.classes,
    hg.entityBase, hg.extraRoots, hg.natives⟩, .refl c _⟩

theorem evolves_bind (hg : c.GoodEnvironment env) (h : Option Handle) (name : String)
    (hv : c.Good env.heap v) (constant : Bool) : c.Evolves env (env.bind h name v constant) := by
  have htoken := hg.evolves_addToken name
  cases h with
  | some h => exact htoken.trans (htoken.good.evolves_insertMethod h _ hv)
  | none =>
    cases constant with
    | true => exact htoken.trans (htoken.good.evolves_constants _ hv)
    | false => exact htoken.trans (htoken.good.evolves_globals _ hv)

theorem evolves_bindMember (hg : c.GoodEnvironment env) (h : Handle) (m : Member) :
    c.Evolves env (env.bindMember h m) := by
  obtain ⟨className, name, value⟩ := m
  cases value with
  | native native => exact hg.evolves_defineNative h name native
  | link l => exact hg.evolves_bind (some h) name (good_link l) false
  | integer n => exact hg.evolves_bind (some h) name (good_integer n) true
  | decimal d => exact hg.evolves_bind (some h) name (good_of_object?_eq_none rfl) true

end GoodEnvironment
end Contract
end ScriptVm
