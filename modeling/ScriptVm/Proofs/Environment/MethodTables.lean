import ScriptVm.Proofs.Environment.Evolution
import ScriptVm.Proofs.Environment.Storage

/-!
# Method tables

What gives methods to classes, and what leaves alone how their instances are made.

* `Table.Distinct` says that a table has one entry for each hash; `Table.get?_merge` is the law of
  `merge` for such tables.
* `class?_defineMethod` and `class?_extendClass` are the classes after a function was bound to one
  and after one was extended.
* `Heap.Spares` says that the initializers of all classes and their methods under their own names
  are as they were, and that new classes have none.
-/

namespace ScriptVm

/-! ### Tables -/

namespace Table

variable {α : Type} {t u : Table α} {hash other : UInt32} {v : α}

/-- Every hash has one entry at most. -/
def Distinct (t : Table α) : Prop := t.keys.Nodup

theorem distinct_empty : (∅ : Table α).Distinct := List.nodup_nil

theorem mem_keys_insert :
    other ∈ (t.insert hash v).keys ↔ other = hash ∨ other ∈ t.keys := by
  obtain ⟨entries⟩ := t
  simp only [insert, keys]
  induction entries with
  | nil => simp [put]
  | cons e rest ih =>
    by_cases he : e.1 = hash
    · simp [put, he]
    · simp only [put, he, if_false, List.map_cons, List.mem_cons, ih]
      tauto

theorem Distinct.insert (ht : t.Distinct) (hash : UInt32) (v : α) : (t.insert hash v).Distinct := by
  obtain ⟨entries⟩ := t
  induction entries with
  | nil => simp [Distinct, Table.insert, put, keys]
  | cons e rest ih =>
    obtain ⟨hnew, hrest⟩ := List.nodup_cons.1 ht
    by_cases he : e.1 = hash
    · simp only [Distinct, Table.insert, put, he, if_true, keys, List.map_cons]
      rw [← he]
      exact ht
    · simp only [Distinct, Table.insert, put, he, if_false, keys, List.map_cons]
      refine List.nodup_cons.2 ⟨fun hmem => ?_, ih hrest⟩
      rcases mem_keys_insert.1 (hmem : e.1 ∈ (Table.insert ⟨rest⟩ hash v).keys) with heq | hold
      · exact he heq
      · exact hnew hold

theorem get?_eq_none (h : hash ∉ t.keys) : t.get? hash = none := by
  obtain ⟨entries⟩ := t
  simp only [get?, keys] at h ⊢
  induction entries with
  | nil => rfl
  | cons e rest ih =>
    obtain ⟨hne, hrest⟩ := not_or.1 (mt List.mem_cons.2 h)
    rw [find, if_neg (Ne.symm hne), ih hrest]

/-- What is merged in counts, and what was there before where nothing is merged in. -/
theorem get?_merge (hu : u.Distinct) (hash : UInt32) :
    (t.merge u).get? hash = (u.get? hash).or (t.get? hash) := by
  obtain ⟨entries⟩ := u
  induction entries generalizing t with
  | nil => rfl
  | cons e rest ih =>
    obtain ⟨hnew, hrest⟩ := List.nodup_cons.1 hu
    show (Table.merge (t.insert e.1 e.2) ⟨rest⟩).get? hash = (find hash (e :: rest)).or _
    rw [ih hrest, find]
    by_cases he : e.1 = hash
    · subst he
      rw [get?_eq_none (t := ⟨rest⟩) hnew, if_pos rfl, get?_insert_self]
      rfl
    · rw [if_neg he, get?_insert_of_ne _ (Ne.symm he)]
      rfl

theorem Distinct.merge (ht : t.Distinct) (u : Table α) : (t.merge u).Distinct := by
  obtain ⟨entries⟩ := u
  induction entries generalizing t with
  | nil => exact ht
  | cons e rest ih => exact ih (ht.insert e.1 e.2)

end Table

/-! ### Classes after a change -/

namespace Heap

variable {heap heap' heap'' : Heap} {c d : Handle} {o : Obj}

theorem class?_modifyClass (heap : Heap) (c d : Handle) (f : ClassObject → ClassObject) :
    (heap.modifyClass c f).class? d = if d = c then (heap.class? c).map f else heap.class? d := by
  unfold class? modifyClass
  rw [get?_modify]
  by_cases hdc : d = c
  · subst hdc
    rw [if_pos rfl, if_pos rfl]
    cases heap.get? d with
    | none => rfl
    | some o => cases o <;> rfl
  · rw [if_neg hdc, if_neg hdc]

/-- A change that leaves classes alone. -/
theorem class?_modify_of_same {f : Obj → Obj} (hf : ∀ k, f (.scriptClass k) = .scriptClass k)
    (hclass : ∀ o k, f o = .scriptClass k → o = .scriptClass k) (c d : Handle) :
    (heap.modify c f).class? d = heap.class? d := by
  refine Option.ext fun k => ?_
  rw [class?_eq_some, class?_eq_some, get?_modify]
  split
  · rename_i hdc
    subst hdc
    rw [Option.map_eq_some_iff]
    constructor
    · rintro ⟨o, ho, heq⟩
      rw [hclass o k heq] at ho
      exact ho
    · exact fun ho => ⟨_, ho, hf k⟩
  · rfl

theorem class?_modifyFunction (heap : Heap) (c d : Handle) (f : FunctionObject → FunctionObject) :
    (heap.modifyFunction c f).class? d = heap.class? d := by
  refine class?_modify_of_same (fun _ => rfl) (fun o k heq => ?_) c d
  cases o <;> first | exact heq | cases heq

end Heap

namespace Environment

variable {env : Environment} {c d : Handle}

/-- A class with one more method, which is its initializer if it has the name of the class. -/
theorem class?_defineMethod (env : Environment) (c function : Handle) (hash : UInt32) (d : Handle) :
    (env.defineMethod c function hash).heap.class? d =
      if d = c then (env.heap.class? c).map fun k =>
        { k with
          methods := k.methods.insert hash (.object function)
          initializer := if hash = k.hash then some (.object function) else k.initializer }
      else env.heap.class? d := by
  unfold defineMethod
  cases hk : env.heap.class? c with
  | none =>
    by_cases hdc : d = c
    · rw [if_pos hdc, hdc]
      exact hk
    · rw [if_neg hdc]
  | some k =>
    refine (Heap.class?_modifyFunction _ _ _ _).trans ?_
    refine (Heap.class?_modifyClass env.heap c d _).trans ?_
    rw [hk]

/-- The extension has lost its methods, and the class that is extended has them. -/
theorem class?_extendClass {extension target : Handle} {e : ClassObject} (hne : extension ≠ target)
    (he : env.heap.class? extension = some e) (d : Handle) :
    (env.extendClass extension target).heap.class? d =
      if d = target then (env.heap.class? target).map fun t =>
        { t with methods := t.methods.merge e.methods }
      else if d = extension then some { e with methods := ∅ } else env.heap.class? d := by
  unfold extendClass
  rw [if_neg hne, he]
  refine (Heap.class?_modifyClass _ target d _).trans ?_
  have hcleared := Heap.class?_modifyClass env.heap extension
  split
  · exact congrArg (Option.map _) ((hcleared target _).trans (if_neg (Ne.symm hne)))
  · refine (hcleared d _).trans ?_
    rw [he]
    rfl

theorem slotted_defineMethod (hs : env.heap.Slotted) (c function : Handle) (hash : UInt32) :
    (env.defineMethod c function hash).heap.Slotted := by
  unfold defineMethod
  split
  · exact hs
  · exact Heap.slotted_modify (Heap.slotted_modify hs c _) function _

theorem slotted_extendClass (hs : env.heap.Slotted) (extension target : Handle) :
    (env.extendClass extension target).heap.Slotted := by
  unfold extendClass
  split
  · exact hs
  · split
    · exact hs
    · exact Heap.slotted_modify (Heap.slotted_modify hs extension _) target _

end Environment

/-! ### What leaves constructors alone -/

/-- A class with the same name, the same initializer and the same method under its own name. -/
structure ClassObject.SameConstructor (k k' : ClassObject) : Prop where
  hash : k'.hash = k.hash
  initializer : k'.initializer = k.initializer
  method : k'.methods.get? k.hash = k.methods.get? k.hash
  distinct : k.methods.Distinct → k'.methods.Distinct

theorem ClassObject.SameConstructor.refl (k : ClassObject) : k.SameConstructor k :=
  ⟨rfl, rfl, rfl, id⟩

theorem ClassObject.SameConstructor.trans {k k' k'' : ClassObject} (h : k.SameConstructor k')
    (h' : k'.SameConstructor k'') : k.SameConstructor k'' :=
  ⟨h'.hash.trans h.hash, h'.initializer.trans h.initializer,
    (h.hash ▸ h'.method).trans h.method, fun hk => h'.distinct (h.distinct hk)⟩

/-- A class without initializer and without a method under its own name. -/
structure ClassObject.Unconstructed (k : ClassObject) : Prop where
  initializer : k.initializer = none
  method : k.methods.get? k.hash = none
  distinct : k.methods.Distinct

theorem ClassObject.Blank.unconstructed {k : ClassObject} (hk : k.Blank) : k.Unconstructed := by
  refine ⟨hk.initializer, ?_, ?_⟩
  · rw [hk.methods]
    rfl
  · rw [hk.methods]
    exact Table.distinct_empty

theorem ClassObject.SameConstructor.unconstructed {k k' : ClassObject} (h : k.SameConstructor k')
    (hk : k.Unconstructed) : k'.Unconstructed := by
  refine ⟨h.initializer.trans hk.initializer, ?_, h.distinct hk.distinct⟩
  rw [h.hash, h.method, hk.method]

namespace Heap

variable {heap heap' heap'' : Heap} {c : Handle} {o : Obj}

/-- The initializers of all classes and their methods under their own names are as they were, and
new classes have none. -/
structure Spares (heap heap' : Heap) : Prop where
  slotted : heap.Slotted → heap'.Slotted
  kept : heap.Slotted → ∀ c k, heap.class? c = some k →
    ∃ k', heap'.class? c = some k' ∧ k.SameConstructor k'
  fresh : heap.Slotted → ∀ c k', heap.class? c = none → heap'.class? c = some k' →
    k'.Unconstructed

theorem spares_of_class? (hs : heap.Slotted → heap'.Slotted)
    (h : ∀ c, heap'.class? c = heap.class? c) : heap.Spares heap' := by
  refine ⟨hs, fun _ c k hk => ⟨k, (h c).trans hk, .refl k⟩, fun _ c k' hnone hk' => ?_⟩
  rw [h c, hnone] at hk'
  cases hk'

theorem Spares.refl (heap : Heap) : heap.Spares heap := spares_of_class? id fun _ => rfl

theorem Spares.trans (h : heap.Spares heap') (h' : heap'.Spares heap'') : heap.Spares heap'' := by
  refine ⟨fun hs => h'.slotted (h.slotted hs), fun hs c k hk => ?_, fun hs c k'' hnone hk'' => ?_⟩
  · obtain ⟨k', hk', hsame⟩ := h.kept hs c k hk
    obtain ⟨k'', hk'', hsame'⟩ := h'.kept (h.slotted hs) c k' hk'
    exact ⟨k'', hk'', hsame.trans hsame'⟩
  · cases hk' : heap'.class? c with
    | none => exact h'.fresh (h.slotted hs) c k'' hk' hk''
    | some k' =>
      obtain ⟨l, hl, hsame⟩ := h'.kept (h.slotted hs) c k' hk'
      cases hl.symm.trans hk''
      exact hsame.unconstructed (h.fresh hs c k' hnone hk')

theorem spares_alloc (heap : Heap) (ho : ∀ k, o = .scriptClass k → k.Blank) :
    heap.Spares (heap.alloc o).2 := by
  refine ⟨fun hs => slotted_alloc hs o, fun hs c k hk => ?_, fun hs c k' hnone hk' => ?_⟩
  · exact ⟨k, class?_eq_some.2 (get?_alloc_of_get? hs o (class?_eq_some.1 hk)), .refl k⟩
  · rcases get?_alloc_cases (class?_eq_some.1 hk') with hnew | hold
    · exact (ho k' hnew.symm).unconstructed
    · rw [class?_eq_some.2 hold] at hnone
      cases hnone

theorem spares_modifyClass (heap : Heap) (c : Handle) {f : ClassObject → ClassObject}
    (hf : ∀ k : ClassObject, k.SameConstructor (f k)) : heap.Spares (heap.modifyClass c f) := by
  refine ⟨fun hs => slotted_modify hs c _, fun _ d k hk => ?_, fun _ d k' hnone hk' => ?_⟩
  · rw [class?_modifyClass]
    split
    · rename_i hdc
      rw [← hdc, hk]
      exact ⟨f k, rfl, hf k⟩
    · exact ⟨k, hk, .refl k⟩
  · rw [class?_modifyClass] at hk'
    split at hk'
    · rename_i hdc
      rw [← hdc, hnone] at hk'
      cases hk'
    · rw [hnone] at hk'
      cases hk'

end Heap
end ScriptVm
