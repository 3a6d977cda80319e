import ScriptVm.Environment
import ScriptVm.Proofs.Heap.Accounts

/-!
# Contracts

What can be asked of a machine comes in parts that do not depend on each other. A contract says
which parts are asked for, so that one walk through the machine serves all of them.

* `Contract.live` asks that handles find objects, `Contract.sized` that code can be addressed.
* `Contract.floor` and `Contract.base` are the heights of the operand stack and of the calls that a
  run leaves alone, `Contract.calls` is a number of calls that stay active.
* `Finds`, `Good`, `GoodObject`, `GoodHeap` are what a contract asks of handles, values, objects and
  heaps. `Grows` says that no handle is lost.
-/

namespace ScriptVm

/-- What holds of the elements and of one more. -/
theorem forall_mem_push {α : Type} {P : α → Prop} {xs : Array α} {a : α}
    (hxs : ∀ x ∈ xs.toList, P x) (ha : P a) : ∀ x ∈ (xs.push a).toList, P x := by
  rw [Array.toList_push]
  exact List.forall_mem_append.2 ⟨hxs, List.forall_mem_singleton.2 ha⟩

/-- The largest size of code that a machine can hold. -/
def Code.maxSize : Nat := 4611686018427387904

/-- The size of the code of a function. -/
def Obj.codeSize : Obj → Nat
  | .function f => f.code.size
  | _ => 0

/-- What is asked of a machine. -/
structure Contract where
  live : Prop
  sized : Prop
  floor : Nat
  base : Nat
  calls : Nat
  base_le_calls : base ≤ calls

/-- A contract that asks nothing of the stack and of the calls. -/
def Contract.unbounded (live sized : Prop) : Contract where
  live
  sized
  floor := 0
  base := 0
  calls := 0
  base_le_calls := Nat.le_refl 0

namespace Table

variable {α β : Type} {t : Table α} {hash : UInt32} {v w : α}

theorem mem_values_of_get? (hv : t.get? hash = some v) : v ∈ t.values := by
  obtain ⟨entries⟩ := t
  simp only [get?, values] at hv ⊢
  induction entries with
  | nil => cases hv
  | cons e rest ih =>
    by_cases he : e.1 = hash
    · simp only [find, he, if_true, Option.some.injEq] at hv
      simp [hv]
    · simp only [find, he, if_false] at hv
      exact List.mem_cons_of_mem _ (ih hv)

theorem mem_values_insert (hv : v ∈ (t.insert hash w).values) : v = w ∨ v ∈ t.values := by
  obtain ⟨entries⟩ := t
  simp only [insert, values] at hv ⊢
  induction entries with
  | nil => exact .inl (by simpa [put] using hv)
  | cons e rest ih =>
    by_cases he : e.1 = hash
    · simp only [put, he, if_true, List.map_cons, List.mem_cons] at hv ⊢
      tauto
    · simp only [put, he, if_false, List.map_cons, List.mem_cons] at hv ⊢
      tauto

theorem mem_values_insertNew (hv : v ∈ (t.insertNew hash w).values) : v = w ∨ v ∈ t.values := by
  unfold insertNew at hv
  split at hv
  · exact .inr hv
  · exact mem_values_insert hv

theorem mem_values_merge {u : Table α} (hv : v ∈ (t.merge u).values) :
    v ∈ u.values ∨ v ∈ t.values := by
  obtain ⟨entries⟩ := u
  simp only [merge, values] at hv ⊢
  induction entries generalizing t with
  | nil => exact .inr hv
  | cons e rest ih =>
    simp only [List.foldl_cons, List.map_cons, List.mem_cons] at hv ⊢
    rcases ih hv with hr | ht
    · exact .inl (.inr hr)
    · rcases mem_values_insert ht with rfl | ht
      · exact .inl (.inl rfl)
      · exact .inr ht

theorem mem_values_filter {p : α → Bool} (hv : v ∈ (t.filter p).values) : v ∈ t.values := by
  simp only [filter, values, List.mem_map, List.mem_filter] at hv ⊢
  obtain ⟨e, ⟨he, -⟩, rfl⟩ := hv
  exact ⟨e, he, rfl⟩

theorem mem_values_mapValues {f : α → β} {b : β} (hb : b ∈ (t.mapValues f).values) :
    ∃ a ∈ t.values, f a = b := by
  simp only [mapValues, values, List.map_map, List.mem_map] at hb ⊢
  obtain ⟨e, he, rfl⟩ := hb
  exact ⟨e.2, ⟨e, he, rfl⟩, rfl⟩

end Table

namespace Contract

/-- A handle finds an object. -/
def Finds (c : Contract) (heap : Heap) (h : Handle) : Prop := c.live → heap.contains h = true

/-- A value that is a handle finds an object. -/
def Good (c : Contract) (heap : Heap) (v : Value) : Prop :=
  ∀ h, v.object? = some h → c.Finds heap h

/-- The handles that an object holds find objects, and its code can be addressed. -/
structure GoodObject (c : Contract) (heap : Heap) (o : Obj) : Prop where
  children : ∀ k ∈ o.children, c.Finds heap k
  code : c.sized → o.codeSize ≤ Code.maxSize

/-- All objects of a heap are good. -/
structure GoodHeap (c : Contract) (heap : Heap) : Prop where
  slotted : c.live → heap.Slotted
  objects : ∀ h o, heap.get? h = some o → c.GoodObject heap o

/-- What finds an object goes on to find one. -/
def Grows (c : Contract) (heap heap' : Heap) : Prop :=
  c.live → ∀ h, heap.contains h = true → heap'.contains h = true

variable {c : Contract} {heap heap' heap'' : Heap} {h : Handle} {v : Value} {o : Obj}

/-! ### Growth -/

theorem Grows.refl (c : Contract) (heap : Heap) : c.Grows heap heap := fun _ _ hc => hc

theorem Grows.trans (hg : c.Grows heap heap') (hg' : c.Grows heap' heap'') :
    c.Grows heap heap'' :=
  fun hl h hc => hg' hl h (hg hl h hc)

theorem Finds.mono (hf : c.Finds heap h) (hg : c.Grows heap heap') : c.Finds heap' h :=
  fun hl => hg hl h (hf hl)

theorem Good.mono (hv : c.Good heap v) (hg : c.Grows heap heap') : c.Good heap' v :=
  fun h hh => (hv h hh).mono hg

theorem GoodObject.mono (ho : c.GoodObject heap o) (hg : c.Grows heap heap') :
    c.GoodObject heap' o :=
  ⟨fun k hk => (ho.children k hk).mono hg, ho.code⟩

theorem finds_of_get? (ho : heap.get? h = some o) : c.Finds heap h :=
  fun _ => Heap.contains_of_get? ho

/-! ### Values -/

theorem good_object : c.Good heap (.object h) ↔ c.Finds heap h :=
  ⟨fun hv => hv h rfl, fun hf _ hk => by cases hk; exact hf⟩

theorem good_of_object?_eq_none (hv : v.object? = none) : c.Good heap v := by
  intro h hh
  rw [hv] at hh
  cases hh

theorem good_null : c.Good heap .null := good_of_object?_eq_none rfl

theorem good_integer (n : Int32) : c.Good heap (.integer n) := good_of_object?_eq_none rfl

theorem good_ofBool (b : Bool) : c.Good heap (.ofBool b) := good_integer _

theorem good_link (l : Link) : c.Good heap l.value := by
  cases l <;> exact good_of_object?_eq_none rfl

theorem Good.delink (hv : c.Good heap v) (cells : Cells) : c.Good heap (v.delink cells) := by
  cases v with
  | linkedInteger l => exact good_of_object?_eq_none rfl
  | linkedDecimal l => exact good_of_object?_eq_none rfl
  | _ => exact hv

theorem forall_handlesOf {values : List Value} :
    (∀ h ∈ Obj.handlesOf values, c.Finds heap h) ↔ ∀ v ∈ values, c.Good heap v := by
  simp only [Obj.handlesOf, List.mem_filterMap]
  constructor
  · exact fun hf v hv h hh => hf h ⟨v, hv, hh⟩
  · rintro hg h ⟨v, hv, hh⟩
    exact hg v hv h hh

/-- Tables of good values stay such when a good value is stored. -/
theorem good_insert {t : Table Value} {hash : UInt32} (ht : ∀ v ∈ t.values, c.Good heap v)
    (hv : c.Good heap v) : ∀ w ∈ (t.insert hash v).values, c.Good heap w := by
  intro w hw
  rcases Table.mem_values_insert hw with rfl | hw
  · exact hv
  · exact ht w hw

/-! ### Objects -/

/-- Of an object without code only the children count. -/
theorem goodObject_iff_children (ho : o.codeSize = 0) :
    c.GoodObject heap o ↔ ∀ k ∈ o.children, c.Finds heap k :=
  ⟨fun hg => hg.children, fun hk => ⟨hk, fun _ => ho ▸ Nat.zero_le _⟩⟩

theorem goodObject_string (s : String) : c.GoodObject heap (.string s) :=
  (goodObject_iff_children rfl).2 fun _ hk => absurd hk List.not_mem_nil

theorem goodObject_native (name : String) : c.GoodObject heap (.native name) :=
  (goodObject_iff_children rfl).2 fun _ hk => absurd hk List.not_mem_nil

theorem goodObject_array {values : Array Value} :
    c.GoodObject heap (.array values) ↔ ∀ v ∈ values, c.Good heap v := by
  rw [goodObject_iff_children rfl]
  simp only [Obj.children, forall_handlesOf, Array.mem_toList_iff]

theorem goodObject_map {m : MapObject} :
    c.GoodObject heap (.map m) ↔ ∀ e ∈ m.entries.values, c.Good heap e.2 := by
  rw [goodObject_iff_children rfl]
  simp only [Obj.children, forall_handlesOf, List.forall_mem_map]

theorem goodObject_boundMethod :
    c.GoodObject heap (.boundMethod v h) ↔ c.Good heap v ∧ c.Finds heap h := by
  rw [goodObject_iff_children rfl]
  simp only [Obj.children, List.forall_mem_append, forall_handlesOf, List.forall_mem_singleton]

theorem goodObject_inst {i : InstanceObject} :
    c.GoodObject heap (.inst i) ↔
      c.Finds heap i.classHandle ∧ ∀ v ∈ i.fields.values, c.Good heap v := by
  rw [goodObject_iff_children rfl]
  simp only [Obj.children, List.forall_mem_cons, forall_handlesOf]

theorem goodObject_module {m : ModuleObject} :
    c.GoodObject heap (.module m) ↔
      (∀ h ∈ m.functions.toList, c.Finds heap h) ∧ (∀ v ∈ m.locals.toList, c.Good heap v) ∧
        ∀ h ∈ m.sourceFilename.toList, c.Finds heap h := by
  rw [goodObject_iff_children rfl]
  simp only [Obj.children, List.forall_mem_append, forall_handlesOf, and_assoc]

theorem goodObject_class {k : ClassObject} :
    c.GoodObject heap (.scriptClass k) ↔
      (∀ h ∈ k.name.toList, c.Finds heap h) ∧ (∀ v ∈ k.methods.values, c.Good heap v) ∧
        (∀ v ∈ k.fields.values, c.Good heap v) ∧ (∀ v ∈ k.initializer.toList, c.Good heap v) ∧
          ∀ h ∈ k.parent.toList, c.Finds heap h := by
  rw [goodObject_iff_children rfl]
  simp only [Obj.children, List.forall_mem_append, forall_handlesOf, and_assoc]

theorem goodObject_function {f : FunctionObject} :
    c.GoodObject heap (.function f) ↔
      (∀ h ∈ f.name.toList, c.Finds heap h) ∧ (∀ h ∈ f.className.toList, c.Finds heap h) ∧
        (∀ h ∈ f.sourceFilename.toList, c.Finds heap h) ∧
          (∀ h ∈ f.module.toList, c.Finds heap h) ∧ (∀ v ∈ f.constants.toList, c.Good heap v) ∧
            (c.sized → f.code.size ≤ Code.maxSize) := by
  have hchildren : (∀ h ∈ (Obj.function f).children, c.Finds heap h) ↔
      (∀ h ∈ f.name.toList, c.Finds heap h) ∧ (∀ h ∈ f.className.toList, c.Finds heap h) ∧
        (∀ h ∈ f.sourceFilename.toList, c.Finds heap h) ∧
          (∀ h ∈ f.module.toList, c.Finds heap h) ∧ ∀ v ∈ f.constants.toList, c.Good heap v := by
    simp only [Obj.children, List.forall_mem_append, forall_handlesOf, and_assoc]
  constructor
  · intro ho
    obtain ⟨hn, hc, hs, hm, hk⟩ := hchildren.1 ho.children
    exact ⟨hn, hc, hs, hm, hk, ho.code⟩
  · rintro ⟨hn, hc, hs, hm, hk, hcode⟩
    exact ⟨hchildren.2 ⟨hn, hc, hs, hm, hk⟩, hcode⟩

/-! ### Heaps -/

theorem goodHeap_withThreshold (threshold growth : Nat) :
    c.GoodHeap (.withThreshold threshold growth) := by
  refine ⟨fun _ => Heap.slotted_withThreshold threshold growth, ?_⟩
  intro h o ho
  simp [Heap.get?, Heap.withThreshold] at ho

/-- Placing a good object. -/
theorem GoodHeap.alloc (hh : c.GoodHeap heap) (ho : c.GoodObject heap o) :
    c.GoodHeap (heap.alloc o).2 ∧ c.Grows heap (heap.alloc o).2 ∧
      c.Finds (heap.alloc o).2 (heap.alloc o).1 := by
  have hgrows : c.Grows heap (heap.alloc o).2 := by
    intro hl h hc
    obtain ⟨p, hp⟩ := Heap.contains_iff.1 hc
    exact Heap.contains_of_get? (Heap.get?_alloc_of_get? (hh.slotted hl) o hp)
  refine ⟨⟨fun hl => Heap.slotted_alloc (hh.slotted hl) o, ?_⟩, hgrows, ?_⟩
  · intro h p hp
    rcases Heap.get?_alloc_cases hp with rfl | hold
    · exact ho.mono hgrows
    · exact (hh.objects h p hold).mono hgrows
  · exact fun hl => Heap.contains_of_get? (Heap.get?_alloc_self (hh.slotted hl) o)

theorem grows_modify (heap : Heap) (h : Handle) (f : Obj → Obj) :
    c.Grows heap (heap.modify h f) := by
  intro _ k hk
  rwa [Heap.contains_modify]

/-- Changing an object into a good one. -/
theorem GoodHeap.modify (hh : c.GoodHeap heap) {f : Obj → Obj}
    (hf : ∀ o, heap.get? h = some o → c.GoodObject heap (f o)) : c.GoodHeap (heap.modify h f) := by
  refine ⟨fun hl => Heap.slotted_modify (hh.slotted hl) h f, ?_⟩
  intro k p hp
  rw [Heap.get?_modify] at hp
  split at hp
  · obtain ⟨o, ho, rfl⟩ := Option.map_eq_some_iff.1 hp
    exact (hf o ho).mono (grows_modify heap h f)
  · exact (hh.objects k p hp).mono (grows_modify heap h f)

end Contract
end ScriptVm
