import ScriptVm.Environment.ClassLookup
import ScriptVm.Proofs.Environment.Evolution

/-!
# Class resolution

What a search for a member of a class finds and leaves, in terms of the environment before it.
The search itself writes parents into the classes it passes; nothing it reads afterwards
depends on that.

* `parent?` is the parent of a class, remembered or not, `ancestor?` the class so many places above.
* `Resolves` says how many classes a search passes and what it gives; `searched` is the environment
  it leaves.
* `resolveParent_remembering` is one step of the search, `walk_resolves` the search.
* `class_resolution` is the result: a search gives what `Resolves` says, and only that.
-/

namespace ScriptVm

/-- What a class itself has under a hash: its field, or else its method. -/
inductive ClassObject.Has (k : ClassObject) (hash : UInt32) : Value → Prop
  | field {v : Value} : k.fields.get? hash = some v → k.Has hash v
  | method {v : Value} : k.fields.get? hash = none → k.methods.get? hash = some v → k.Has hash v

/-- A class that has nothing under a hash. -/
def ClassObject.Lacks (k : ClassObject) (hash : UInt32) : Prop := ∀ v, ¬ k.Has hash v

namespace Environment

/-! ### The chain of parents -/

/-- The parent that a class remembers, or else the global class that it names. -/
def parentFor? (env : Environment) (k : ClassObject) : Option Handle :=
  k.parent.or (k.parentHash.bind env.classByHash?)

/-- The parent of a class. -/
def parent? (env : Environment) (c : Handle) : Option Handle :=
  (env.heap.class? c).bind env.parentFor?

/-- The class `n` places above another. -/
def ancestor? (env : Environment) (c : Handle) : Nat → Option Handle
  | 0 => some c
  | n + 1 => (env.ancestor? c n).bind env.parent?

/-- The first `n` classes of a chain. -/
def ancestors (env : Environment) (c : Handle) (n : Nat) : List Handle :=
  (List.range n).filterMap (env.ancestor? c)

/-- The object of the class `n` places above another. -/
def classAbove? (env : Environment) (c : Handle) (n : Nat) : Option ClassObject :=
  (env.ancestor? c n).bind env.heap.class?

/-- The first `n` of a chain are classes that have nothing under a hash. -/
def Passes (env : Environment) (c : Handle) (hash : UInt32) (n : Nat) : Prop :=
  ∀ i < n, ∃ k, env.classAbove? c i = some k ∧ k.Lacks hash

/-- One of the first `n` classes of a chain stands for native objects. -/
def EntityBound (env : Environment) (c : Handle) (n : Nat) : Prop :=
  ∃ i < n, ∃ k, env.classAbove? c i = some k ∧ k.entityBound = true

/-- What the entity base has under a hash. -/
def BaseHas (env : Environment) (hash : UInt32) (v : Value) : Prop :=
  ∃ k, env.entityBase.bind env.heap.class? = some k ∧ k.Has hash v

/-- A search from `c` passes `n` classes and gives the member found, if any. -/
inductive Resolves (env : Environment) (c : Handle) (hash : UInt32) : Nat → Option Value → Prop
  | found {n : Nat} {k : ClassObject} {v : Value} : n < 256 → env.Passes c hash n →
      env.classAbove? c n = some k → k.Has hash v → env.Resolves c hash n (some v)
  | lost {n : Nat} {h : Handle} : n < 256 → env.Passes c hash n →
      env.ancestor? c n = some h → env.heap.class? h = none → env.Resolves c hash n none
  | tooDeep {h : Handle} : env.Passes c hash 256 → env.ancestor? c 256 = some h →
      env.Resolves c hash 256 none
  | base {n : Nat} {v : Value} : n ≤ 256 → env.Passes c hash n → env.ancestor? c n = none →
      env.EntityBound c n → env.BaseHas hash v → env.Resolves c hash n (some v)
  | nothing {n : Nat} : n ≤ 256 → env.Passes c hash n → env.ancestor? c n = none →
      (env.EntityBound c n → ∀ v, ¬ env.BaseHas hash v) → env.Resolves c hash n none

/-! ### What a search leaves -/

/-- A class that remembers its parent. -/
def withParent (env : Environment) : Obj → Obj
  | .scriptClass k => .scriptClass { k with parent := env.parentFor? k }
  | o => o

/-- The environment in which the classes passed remember their parents. -/
def remembering (env : Environment) (passed : List Handle) : Environment :=
  env.mapHeap fun heap =>
    { heap with
      slots := heap.slots.mapIdx fun i slot =>
        if ⟨i, slot.generation⟩ ∈ passed then
          { slot with object := slot.object.map env.withParent }
        else slot }

/-- The environment that a search from `c` leaves when it has passed `n` classes. -/
def searched (env : Environment) (c : Handle) (n : Nat) : Environment :=
  if n = 256 ∧ (env.ancestor? c n).isSome then
    (env.remembering (env.ancestors c n)).report .warn fun _ =>
      s!"Inheritance chain of {env.className c} is too deep"
  else env.remembering (env.ancestors c n)

variable {env : Environment} {c h p : Handle} {hash : UInt32} {k : ClassObject} {n : Nat}
  {passed : List Handle}

theorem ownMember?_eq_some {v : Value} : ownMember? k hash = some v ↔ k.Has hash v := by
  unfold ownMember?
  constructor
  · intro hv
    split at hv
    · rename_i w hw
      exact .field (hw.trans hv)
    · rename_i hnone
      exact .method hnone hv
  · rintro (hv | ⟨hnone, hv⟩)
    · rw [hv]
    · rw [hnone]
      exact hv

theorem ownMember?_eq_none : ownMember? k hash = none ↔ k.Lacks hash := by
  rw [Option.eq_none_iff_forall_ne_some]
  exact forall_congr' fun v => not_congr ownMember?_eq_some

theorem baseMember?_eq_some {v : Value} : env.baseMember? hash = some v ↔ env.BaseHas hash v := by
  unfold baseMember? BaseHas
  rw [Option.bind_eq_some_iff]
  exact exists_congr fun k => and_congr_right fun _ => ownMember?_eq_some

theorem ancestor?_succ (env : Environment) (c : Handle) (n : Nat) :
    env.ancestor? c (n + 1) = (env.ancestor? c n).bind env.parent? := rfl

theorem ancestors_succ (env : Environment) (c : Handle) (n : Nat) :
    env.ancestors c (n + 1) = env.ancestors c n ++ (env.ancestor? c n).toList := by
  unfold ancestors
  rw [List.range_succ, List.filterMap_append]
  cases hn : env.ancestor? c n <;> simp [hn]

theorem Passes.succ (hpass : env.Passes c hash n) (hk : env.classAbove? c n = some k)
    (hlacks : k.Lacks hash) : env.Passes c hash (n + 1) := by
  intro i hi
  rcases Nat.lt_succ_iff_lt_or_eq.1 hi with hlt | rfl
  · exact hpass i hlt
  · exact ⟨k, hk, hlacks⟩

/-! ### Remembered parents -/

theorem slots_remembering (env : Environment) (passed : List Handle) (i : Nat) :
    (env.remembering passed).heap.slots[i]? = env.heap.slots[i]?.map fun slot =>
      if ⟨i, slot.generation⟩ ∈ passed then { slot with object := slot.object.map env.withParent }
      else slot :=
  Array.getElem?_mapIdx

theorem get?_remembering (env : Environment) (passed : List Handle) (h : Handle) :
    (env.remembering passed).heap.get? h =
      (env.heap.get? h).map fun o => if h ∈ passed then env.withParent o else o := by
  obtain ⟨i, g⟩ := h
  unfold Heap.get?
  rw [slots_remembering]
  cases env.heap.slots[i]? with
  | none => rfl
  | some slot =>
    simp only [Option.map_some]
    by_cases hg : slot.generation = g
    · subst hg
      by_cases hmem : (⟨i, slot.generation⟩ : Handle) ∈ passed
      · simp [hmem]
      · simp [hmem]
    · split <;> simp

theorem class?_remembering (env : Environment) (passed : List Handle) (h : Handle) :
    (env.remembering passed).heap.class? h = (env.heap.class? h).map fun k =>
      if h ∈ passed then { k with parent := env.parentFor? k } else k := by
  unfold Heap.class?
  rw [get?_remembering]
  by_cases hmem : h ∈ passed
  · simp only [hmem, if_true]
    cases env.heap.get? h with
    | none => rfl
    | some o => cases o <;> rfl
  · simp only [hmem, if_false, Option.map_id']

/-- A class is asked for its members and its binding to entities, which remembering leaves alone. -/
theorem class?_remembering_of_some (hk : env.heap.class? h = some k) (passed : List Handle)
    (hash : UInt32) : ∃ k', (env.remembering passed).heap.class? h = some k' ∧
      ownMember? k' hash = ownMember? k hash ∧ k'.entityBound = k.entityBound := by
  rw [class?_remembering, hk]
  refine ⟨_, rfl, ?_⟩
  by_cases hmem : h ∈ passed <;> simp [hmem, ownMember?]

theorem string?_remembering (env : Environment) (passed : List Handle) (h : Handle) :
    (env.remembering passed).heap.string? h = env.heap.string? h := by
  unfold Heap.string?
  rw [get?_remembering]
  cases env.heap.get? h with
  | none => rfl
  | some o => cases o <;> by_cases hmem : h ∈ passed <;> simp [hmem, withParent]

/-- Which classes are bound to which hashes does not depend on parents. -/
theorem classByHash?_remembering (env : Environment) (passed : List Handle) (hash : UInt32) :
    (env.remembering passed).classByHash? hash = env.classByHash? hash := by
  have hclass : (env.remembering passed).heap.isClass = env.heap.isClass := by
    funext h
    unfold Heap.isClass
    rw [class?_remembering, Option.isSome_map]
  unfold classByHash?
  rw [hclass]
  rfl

theorem className_remembering (env : Environment) (passed : List Handle) (h : Handle) :
    (env.remembering passed).className h = env.className h := by
  have hstring : (env.remembering passed).heap.string? = env.heap.string? :=
    funext fun h => env.string?_remembering passed h
  unfold className
  rw [class?_remembering, hstring]
  cases env.heap.class? h with
  | none => rfl
  | some k => by_cases hmem : h ∈ passed <;> simp [hmem]

/-- Remembered, the parent of a class is what it was. -/
theorem parentFor?_remembering (env : Environment) (passed : List Handle) (k : ClassObject) :
    (env.remembering passed).parentFor? k = env.parentFor? k := by
  unfold parentFor?
  rw [funext (env.classByHash?_remembering passed)]

theorem parentFor?_withParent (env : Environment) (k : ClassObject) :
    env.parentFor? { k with parent := env.parentFor? k } = env.parentFor? k := by
  unfold parentFor?
  cases k.parent with
  | some p => rfl
  | none => cases k.parentHash.bind env.classByHash? <;> rfl

theorem withParent_withParent (env : Environment) (passed : List Handle) (o : Obj) :
    (env.remembering passed).withParent (env.withParent o) = env.withParent o := by
  cases o with
  | scriptClass k =>
    unfold withParent
    dsimp only
    rw [parentFor?_remembering, parentFor?_withParent]
  | _ => rfl

theorem withParent_remembering (env : Environment) (passed : List Handle) (o : Obj) :
    (env.remembering passed).withParent o = env.withParent o := by
  cases o with
  | scriptClass k =>
    unfold withParent
    dsimp only
    rw [parentFor?_remembering]
  | _ => rfl

/-- An environment that differs from another in its slots, and there in remembered parents only. -/
theorem eq_remembering {env' : Environment}
    (hrest : env' = env.mapHeap fun heap => { heap with slots := env'.heap.slots })
    (hslots : ∀ i : Nat, env'.heap.slots[i]? = env.heap.slots[i]?.map fun slot =>
      if ⟨i, slot.generation⟩ ∈ passed then { slot with object := slot.object.map env.withParent }
      else slot) : env' = env.remembering passed := by
  have hall : env'.heap.slots = (env.remembering passed).heap.slots := by
    apply Array.ext_getElem?
    intro i
    rw [hslots, slots_remembering]
  rw [hrest, hall]
  rfl

theorem remembering_nil (env : Environment) : env.remembering [] = env := by
  refine (eq_remembering rfl fun i => ?_).symm
  cases env.heap.slots[i]? <;> simp

/-- Remembering the parents of some classes and then those of more. -/
theorem remembering_append (env : Environment) (passed more : List Handle) :
    (env.remembering passed).remembering more = env.remembering (passed ++ more) := by
  refine eq_remembering rfl fun i => ?_
  rw [slots_remembering, slots_remembering, Option.map_map]
  congr 1
  funext slot
  by_cases hp : (⟨i, slot.generation⟩ : Handle) ∈ passed
  · by_cases hm : (⟨i, slot.generation⟩ : Handle) ∈ more
    · have htwice : (env.remembering passed).withParent ∘ env.withParent = env.withParent :=
        funext (env.withParent_withParent passed)
      simp [hp, hm, htwice]
    · simp [hp, hm]
  · by_cases hm : (⟨i, slot.generation⟩ : Handle) ∈ more
    · simp [hp, hm, funext (env.withParent_remembering passed)]
    · simp [hp, hm]

/-- Writing the parent of a class into it. -/
theorem mapHeap_modifyClass_parent (hk : env.heap.class? c = some k)
    (hp : env.parentFor? k = some p) :
    env.mapHeap (·.modifyClass c fun k => { k with parent := some p }) =
      env.remembering [c] := by
  obtain ⟨slot, hslot, hgen, hobj⟩ := Heap.get?_eq_some_iff.1 (Heap.class?_eq_some.1 hk)
  obtain ⟨i, g⟩ := c
  dsimp only at hslot hgen
  subst hgen
  refine eq_remembering rfl fun j => ?_
  refine (Heap.getElem?_modify ..).trans ?_
  by_cases hj : i = j
  · subst hj
    rw [hslot]
    simp [hobj, withParent, hp]
  · rw [if_neg hj]
    have hother : ∀ s : Slot, (⟨j, s.generation⟩ : Handle) ≠ ⟨i, slot.generation⟩ := by
      intro s heq
      exact hj (congrArg Handle.index heq).symm
    simp [hother]

/-- A class whose parent is known, or that has none, has nothing to remember. -/
theorem remembering_of_eq (hk : ∀ k, env.heap.class? c = some k → env.parentFor? k = k.parent) :
    env.remembering [c] = env := by
  refine (eq_remembering rfl fun j => ?_).symm
  cases hslot : env.heap.slots[j]? with
  | none => rfl
  | some slot =>
    by_cases hc : (⟨j, slot.generation⟩ : Handle) = c
    · subst hc
      have hsame : slot.object.map env.withParent = slot.object := by
        cases hobj : slot.object with
        | none => rfl
        | some o =>
          cases o with
          | scriptClass k =>
            have hget : env.heap.get? ⟨j, slot.generation⟩ = some (.scriptClass k) :=
              Heap.get?_eq_some_iff.2 ⟨slot, hslot, rfl, hobj⟩
            simp [withParent, hk k (Heap.class?_eq_some.2 hget)]
          | _ => rfl
      simp [hsame]
    · simp [hc]

/-- Finding the parent of a class. -/
theorem resolveParent_eq (env : Environment) (c : Handle) :
    env.resolveParent c = (env.parent? c, env.remembering [c]) := by
  unfold resolveParent parent?
  cases hk : env.heap.class? c with
  | none =>
    have hnone : env.remembering [c] = env := remembering_of_eq fun k hk' => by
      rw [hk] at hk'
      cases hk'
    rw [hnone]
    rfl
  | some k =>
    have hparent : env.parentFor? k = k.parent.or (k.parentHash.bind env.classByHash?) := rfl
    dsimp only [Option.bind_some]
    cases hp : k.parent with
    | some p =>
      rw [hp] at hparent
      have hknown : env.remembering [c] = env := remembering_of_eq fun k' hk' => by
        cases hk.symm.trans hk'
        exact hparent.trans hp.symm
      rw [hknown, hparent]
      rfl
    | none =>
      rw [hp, Option.none_or] at hparent
      cases hq : k.parentHash.bind env.classByHash? with
      | none =>
        rw [hq] at hparent
        have hpending : env.remembering [c] = env := remembering_of_eq fun k' hk' => by
          cases hk.symm.trans hk'
          exact hparent.trans hp.symm
        rw [hpending, hparent]
      | some q =>
        rw [hq] at hparent
        rw [← mapHeap_modifyClass_parent hk hparent, hparent]

/-- Parents that are remembered change no parent. -/
theorem parent?_remembering (env : Environment) (passed : List Handle) (c : Handle) :
    (env.remembering passed).parent? c = env.parent? c := by
  unfold parent?
  rw [class?_remembering]
  cases env.heap.class? c with
  | none => rfl
  | some k =>
    show (env.remembering passed).parentFor? (if c ∈ passed then _ else k) = env.parentFor? k
    rw [parentFor?_remembering]
    split
    · exact env.parentFor?_withParent k
    · rfl

/-- One step up, after parents were remembered. -/
theorem resolveParent_remembering (env : Environment) (passed : List Handle) (c : Handle) :
    (env.remembering passed).resolveParent c =
      (env.parent? c, env.remembering (passed ++ [c])) := by
  rw [resolveParent_eq, parent?_remembering, remembering_append]

/-- Parents that are remembered change no member of the base. -/
theorem baseMember?_remembering (env : Environment) (passed : List Handle) (hash : UInt32) :
    (env.remembering passed).baseMember? hash = env.baseMember? hash := by
  unfold baseMember?
  show (env.entityBase.bind (env.remembering passed).heap.class?).bind _ = _
  cases env.entityBase with
  | none => rfl
  | some b =>
    simp only [Option.bind_some]
    rw [class?_remembering]
    cases env.heap.class? b with
    | none => rfl
    | some k => by_cases hb : b ∈ passed <;> simp [hb, ownMember?]

/-! ### The search -/

theorem entityBound_succ (hk : env.classAbove? c n = some k) :
    env.EntityBound c (n + 1) ↔ env.EntityBound c n ∨ k.entityBound = true := by
  constructor
  · rintro ⟨i, hi, k', hk', hbound⟩
    rcases Nat.lt_succ_iff_lt_or_eq.1 hi with hlt | rfl
    · exact .inl ⟨i, hlt, k', hk', hbound⟩
    · cases hk.symm.trans hk'
      exact .inr hbound
  · rintro (⟨i, hi, hrest⟩ | hbound)
    · exact ⟨i, Nat.lt_succ_of_lt hi, hrest⟩
    · exact ⟨n, Nat.lt_succ_self n, k, hk, hbound⟩

/-- A search that does not go beyond its limit leaves remembered parents only. -/
theorem searched_of_end (hn : n < 256 ∨ env.ancestor? c n = none) :
    env.searched c n = env.remembering (env.ancestors c n) := by
  unfold searched
  rw [if_neg]
  rintro ⟨rfl, hsome⟩
  rcases hn with hlt | hnone
  · exact absurd hlt (Nat.lt_irrefl 256)
  · rw [hnone] at hsome
    cases hsome

/-- At the end of the chain only the entity base is left to ask. -/
theorem resolves_end {bound : Bool} (hn : n ≤ 256) (hpass : env.Passes c hash n)
    (hend : env.ancestor? c n = none) (hbound : bound = true ↔ env.EntityBound c n) :
    env.Resolves c hash n (if bound then env.baseMember? hash else none) := by
  cases bound with
  | false =>
    refine .nothing hn hpass hend fun hb => ?_
    cases hbound.2 hb
  | true =>
    show env.Resolves c hash n (env.baseMember? hash)
    cases hv : env.baseMember? hash with
    | some v => exact .base hn hpass hend (hbound.1 rfl) (baseMember?_eq_some.1 hv)
    | none =>
      refine .nothing hn hpass hend fun _ v hv' => ?_
      cases hv.symm.trans (baseMember?_eq_some.2 hv')

/-- What is left of a search after `i` classes. -/
theorem walk_resolves (left i : Nat) (bound : Bool) (hleft : i + left = 256)
    (hpass : env.Passes c hash i) (hbound : bound = true ↔ env.EntityBound c i) :
    ∃ n, env.Resolves c hash n (walk c hash left (env.ancestor? c i) bound
        (env.remembering (env.ancestors c i))).1 ∧
      (walk c hash left (env.ancestor? c i) bound (env.remembering (env.ancestors c i))).2 =
        env.searched c n := by
  induction left generalizing i bound with
  | zero =>
    cases hi : env.ancestor? c i with
    | none =>
      refine ⟨i, ?_, ?_⟩
      · show env.Resolves c hash i (if bound then _ else none)
        rw [baseMember?_remembering]
        exact resolves_end (Nat.le_of_eq hleft) hpass hi hbound
      · exact (searched_of_end (.inr hi)).symm
    | some h =>
      cases hleft
      refine ⟨256, .tooDeep hpass hi, ?_⟩
      unfold searched
      rw [if_pos ⟨rfl, by rw [hi]; rfl⟩, ← env.className_remembering (env.ancestors c 256)]
      rfl
  | succ left ih =>
    have hlt : i < 256 := by omega
    cases hi : env.ancestor? c i with
    | none =>
      rw [Contract.GoodEnvironment.walk_none, baseMember?_remembering]
      exact ⟨i, resolves_end (Nat.le_of_lt hlt) hpass hi hbound, (searched_of_end (.inr hi)).symm⟩
    | some h =>
      have habove : env.classAbove? c i = env.heap.class? h := by
        unfold classAbove?
        rw [hi]
        rfl
      cases hk : env.heap.class? h with
      | none =>
        have hlost : (env.remembering (env.ancestors c i)).heap.class? h = none := by
          rw [class?_remembering, hk]
          rfl
        unfold walk
        rw [hlost]
        exact ⟨i, .lost hlt hpass hi hk, (searched_of_end (.inl hlt)).symm⟩
      | some k =>
        rw [hk] at habove
        obtain ⟨k', hk', hown, hentity⟩ :=
          class?_remembering_of_some hk (env.ancestors c i) hash
        unfold walk
        rw [hk']
        dsimp only
        rw [hown, hentity]
        cases hv : ownMember? k hash with
        | some v =>
          exact ⟨i, .found hlt hpass habove (ownMember?_eq_some.1 hv),
            (searched_of_end (.inl hlt)).symm⟩
        | none =>
          have hnext : env.ancestors c i ++ [h] = env.ancestors c (i + 1) := by
            rw [ancestors_succ, hi]
            rfl
          have hup : env.parent? h = env.ancestor? c (i + 1) := by
            rw [ancestor?_succ, hi]
            rfl
          have hbound' : (bound || k.entityBound) = true ↔ env.EntityBound c (i + 1) := by
            rw [Bool.or_eq_true, hbound, entityBound_succ habove]
          dsimp only
          rw [resolveParent_remembering, hnext, hup]
          exact ih (i + 1) _ (by omega) (hpass.succ habove (ownMember?_eq_none.1 hv)) hbound'

/-- A search passes some classes and gives what it then finds. -/
theorem findMember_resolves (env : Environment) (c : Handle) (hash : UInt32) :
    ∃ n, env.Resolves c hash n (env.findMember c hash).1 ∧
      (env.findMember c hash).2 = env.searched c n := by
  have hunbound : false = true ↔ env.EntityBound c 0 := by
    constructor
    · intro h
      cases h
    · rintro ⟨i, hi, -⟩
      exact absurd hi (Nat.not_lt_zero i)
  have hpass : env.Passes c hash 0 := fun i hi => absurd hi (Nat.not_lt_zero i)
  have hwalk := walk_resolves 256 0 false rfl hpass hunbound
  rwa [show env.ancestors c 0 = [] from rfl, remembering_nil] at hwalk

/-! ### One answer -/

theorem eq_of_has {v w : Value} (hv : k.Has hash v) (hw : k.Has hash w) : v = w :=
  Option.some.inj ((ownMember?_eq_some.2 hv).symm.trans (ownMember?_eq_some.2 hw))

theorem eq_of_baseHas {v w : Value} (hv : env.BaseHas hash v) (hw : env.BaseHas hash w) : v = w :=
  Option.some.inj ((baseMember?_eq_some.2 hv).symm.trans (baseMember?_eq_some.2 hw))

theorem classAbove?_of_none (hend : env.ancestor? c n = none) : env.classAbove? c n = none := by
  unfold classAbove?
  rw [hend]
  rfl

theorem classAbove?_of_some (hn : env.ancestor? c n = some h) :
    env.classAbove? c n = env.heap.class? h := by
  unfold classAbove?
  rw [hn]
  rfl

/-- Where a search stops, no class is left to pass. -/
theorem Resolves.stops {r : Option Value} (hr : env.Resolves c hash n r) :
    env.Passes c hash n ∧ n ≤ 256 ∧ (n < 256 → ¬ env.Passes c hash (n + 1)) := by
  have hnext (hstop : ∀ k, env.classAbove? c n = some k → ¬ k.Lacks hash) :
      ¬ env.Passes c hash (n + 1) := by
    intro hpass
    obtain ⟨k, hk, hlacks⟩ := hpass n (Nat.lt_succ_self n)
    exact hstop k hk hlacks
  cases hr with
  | @found _ k v hlt hpass hk hv =>
    refine ⟨hpass, Nat.le_of_lt hlt, fun _ => hnext fun k' hk' hlacks => ?_⟩
    cases hk.symm.trans hk'
    exact hlacks v hv
  | lost hlt hpass hh hlost =>
    refine ⟨hpass, Nat.le_of_lt hlt, fun _ => hnext fun k hk => ?_⟩
    cases ((classAbove?_of_some hh).trans hlost).symm.trans hk
  | tooDeep hpass _ => exact ⟨hpass, Nat.le_refl _, fun hlt => absurd hlt (Nat.lt_irrefl _)⟩
  | base hle hpass hend _ _ =>
    refine ⟨hpass, hle, fun _ => hnext fun k hk => ?_⟩
    cases (classAbove?_of_none hend).symm.trans hk
  | nothing hle hpass hend _ =>
    refine ⟨hpass, hle, fun _ => hnext fun k hk => ?_⟩
    cases (classAbove?_of_none hend).symm.trans hk

theorem Resolves.le_of {n' : Nat} {r r' : Option Value} (hr : env.Resolves c hash n r)
    (hr' : env.Resolves c hash n' r') : n ≤ n' := by
  obtain ⟨hpass, hle, -⟩ := hr.stops
  obtain ⟨-, -, hstop⟩ := hr'.stops
  by_contra hlt
  exact hstop (by omega) fun i hi => hpass i (by omega)

/-- A search that finds a member finds no other and does not fail. -/
theorem Resolves.eq_some {v : Value} {r : Option Value} (hr : env.Resolves c hash n (some v))
    (hr' : env.Resolves c hash n r) : r = some v := by
  cases hr with
  | found hlt _ hk hv =>
    cases hr' with
    | found _ _ hk' hv' =>
      cases hk.symm.trans hk'
      rw [eq_of_has hv hv']
    | lost _ _ hh hlost => cases hk.symm.trans ((classAbove?_of_some hh).trans hlost)
    | tooDeep _ _ => exact absurd hlt (Nat.lt_irrefl 256)
    | base _ _ hend _ _ => cases hk.symm.trans (classAbove?_of_none hend)
    | nothing _ _ hend _ => cases hk.symm.trans (classAbove?_of_none hend)
  | base _ _ hend hbound hv =>
    cases hr' with
    | found _ _ hk _ => cases hk.symm.trans (classAbove?_of_none hend)
    | lost _ _ hh _ => cases hend.symm.trans hh
    | tooDeep _ hh => cases hend.symm.trans hh
    | base _ _ _ _ hv' => rw [eq_of_baseHas hv hv']
    | nothing _ _ _ hno => exact absurd hv (hno hbound v)

theorem Resolves.unique {n' : Nat} {r r' : Option Value} (hr : env.Resolves c hash n r)
    (hr' : env.Resolves c hash n' r') : n = n' ∧ r = r' := by
  obtain rfl := Nat.le_antisymm (hr.le_of hr') (hr'.le_of hr)
  refine ⟨rfl, ?_⟩
  cases r with
  | some v => exact (hr.eq_some hr').symm
  | none =>
    cases r' with
    | some v => exact hr'.eq_some hr
    | none => rfl

/-- A search and its specification are the same thing. -/
theorem findMember_eq_iff {r : Option Value} {env' : Environment} :
    env.findMember c hash = (r, env') ↔
      ∃ n, env.Resolves c hash n r ∧ env' = env.searched c n := by
  obtain ⟨n, hr, henv⟩ := env.findMember_resolves c hash
  constructor
  · intro heq
    rw [heq] at hr henv
    exact ⟨n, hr, henv⟩
  · rintro ⟨n', hr', rfl⟩
    obtain ⟨rfl, hvalue⟩ := hr.unique hr'
    exact Prod.ext hvalue henv

/-! ### Chains without an end -/

theorem ancestor?_add (env : Environment) (c : Handle) (n m : Nat) :
    env.ancestor? c (n + m) = (env.ancestor? c n).bind fun h => env.ancestor? h m := by
  induction m with
  | zero => exact (Option.bind_fun_some _).symm
  | succ m ih =>
    rw [← Nat.add_assoc, ancestor?_succ, ih, Option.bind_assoc]
    rfl

theorem ancestor?_add_of_none (hend : env.ancestor? c n = none) (m : Nat) :
    env.ancestor? c (n + m) = none := by
  rw [ancestor?_add, hend]
  rfl

/-- Going round a cycle any number of times. -/
theorem ancestor?_round {i period : Nat}
    (hcycle : env.ancestor? c (i + period) = env.ancestor? c i) (rounds : Nat) :
    env.ancestor? c (i + rounds * period) = env.ancestor? c i := by
  induction rounds with
  | zero => rw [Nat.zero_mul, Nat.add_zero]
  | succ rounds ih =>
    have hsplit : i + (rounds + 1) * period = i + period + rounds * period := by
      rw [Nat.succ_mul]
      omega
    rw [hsplit, ancestor?_add, hcycle, ← ancestor?_add, ih]

/-- A chain that runs into a cycle has no end. -/
theorem ancestor?_ne_none_of_cycle {i period : Nat} (hperiod : 0 < period)
    (hsome : env.ancestor? c i ≠ none)
    (hcycle : env.ancestor? c (i + period) = env.ancestor? c i) (n : Nat) :
    env.ancestor? c n ≠ none := by
  intro hend
  have hfar : n ≤ i + n * period := by
    have := Nat.le_mul_of_pos_right n hperiod
    omega
  obtain ⟨m, hm⟩ := Nat.exists_eq_add_of_le hfar
  have hround := ancestor?_round hcycle n
  rw [hm, ancestor?_add_of_none hend] at hround
  exact hsome hround.symm

/-- A search along a chain without an end and without the member gives nothing. -/
theorem Resolves.eq_none_of_endless {r : Option Value} (hr : env.Resolves c hash n r)
    (hendless : ∀ m, env.ancestor? c m ≠ none)
    (hlacks : ∀ m k, env.classAbove? c m = some k → k.Lacks hash) : r = none := by
  cases hr with
  | found _ _ hk hv => exact absurd hv (hlacks n _ hk _)
  | base _ _ hend _ _ => exact absurd hend (hendless n)
  | lost => rfl
  | tooDeep => rfl
  | nothing => rfl

/-- **Class resolution.** A search for a member gives that of the first of 256 classes that has one,
or that of the entity base, and nothing on a cycle; passed classes remember their parents. -/
theorem class_resolution (env : Environment) (c : Handle) (hash : UInt32) :
    (∀ r env', env.findMember c hash = (r, env') ↔
      ∃ n, env.Resolves c hash n r ∧ env' = env.searched c n) ∧
    ∀ i period, 0 < period → env.ancestor? c i ≠ none →
      env.ancestor? c (i + period) = env.ancestor? c i →
        (∀ m k, env.classAbove? c m = some k → k.Lacks hash) →
          (env.findMember c hash).1 = none := by
  refine ⟨fun r env' => findMember_eq_iff, fun i period hperiod hsome hcycle hlacks => ?_⟩
  obtain ⟨n, hr, -⟩ := env.findMember_resolves c hash
  exact hr.eq_none_of_endless (ancestor?_ne_none_of_cycle hperiod hsome hcycle) hlacks

/-- A class that is its own parent. -/
def selfParented : Environment :=
  let k := { ClassObject.ofHash 7 with parentHash := some 7 }
  let heap := (Heap.empty.alloc (.scriptClass k)).2
  let env := Environment.new heap (fun _ mem _ => (.ok .null, mem)) none default
  { env with globals := env.globals.insert 7 (.object ⟨0, 0⟩) }

/-- A member that a class which is its own parent lacks is not found. -/
theorem class_resolution_selfParented :
    selfParented.ancestor? ⟨0, 0⟩ 1 = selfParented.ancestor? ⟨0, 0⟩ 0 ∧
      (selfParented.findMember ⟨0, 0⟩ 9).1 = none := by
  have hloop : selfParented.parent? ⟨0, 0⟩ = some ⟨0, 0⟩ := by decide
  have hall : ∀ m, selfParented.ancestor? ⟨0, 0⟩ m = some ⟨0, 0⟩ := by
    intro m
    induction m with
    | zero => rfl
    | succ m ih => rw [ancestor?_succ, ih, Option.bind_some, hloop]
  refine ⟨(hall 1).trans (hall 0).symm, ?_⟩
  refine (class_resolution selfParented ⟨0, 0⟩ 9).2 0 1 Nat.one_pos (by rw [hall]; exact nofun)
    ((hall 1).trans (hall 0).symm) fun m k hk => ?_
  rw [classAbove?_of_some (hall m)] at hk
  cases hk
  exact ownMember?_eq_none.1 rfl

end Environment
end ScriptVm
