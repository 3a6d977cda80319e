import Mathlib.Algebra.BigOperators.Group.List.Basic
import Mathlib.Algebra.GroupWithZero.Nat
import ScriptVm.Heap.Collection

/-!
# Accounts of the heap

What holds of a heap between its operations.

* `Slotted` says that the free list names distinct empty slots and that no slot is marked.
* `Accounted` says that `live` and `accounted` are the number and the size of the objects there are.
* `get?_alloc_self`, `get?_alloc_of_get?`, `get?_alloc_of_ne` and `get?_alloc_cases` are what a
  placed object changes for lookups; `get?_of_free` is the same for an object removed, `get?_modify`
  and `contains_modify` for a change in place.
-/

namespace ScriptVm

/-- One for an occupied slot, zero for an empty one. -/
def Slot.count (s : Slot) : Nat := (s.object.map fun _ => 1).getD 0

/-- The accounted size of what a slot holds. -/
def Slot.bytes (s : Slot) : Nat := (s.object.map Obj.size).getD 0

namespace Slot

variable {s : Slot} {o : Obj}

theorem count_of_some (h : s.object = some o) : s.count = 1 := by simp [count, h]

theorem count_of_none (h : s.object = none) : s.count = 0 := by simp [count, h]

theorem bytes_of_some (h : s.object = some o) : s.bytes = o.size := by simp [bytes, h]

theorem bytes_of_none (h : s.object = none) : s.bytes = 0 := by simp [bytes, h]

end Slot

namespace Heap

variable {heap : Heap} {h k : Handle} {o p : Obj}

/-! ### Lookup -/

theorem get?_eq_some_iff :
    heap.get? h = some o ↔
      ∃ slot, heap.slots[h.index]? = some slot ∧ slot.generation = h.generation ∧
        slot.object = some o := by
  unfold get?
  cases hs : heap.slots[h.index]? with
  | none => simp
  | some slot =>
    simp only [Option.some.injEq, exists_eq_left']
    split
    · rename_i hg; simp [hg]
    · rename_i hg; simp [hg]

theorem contains_iff : heap.contains h = true ↔ ∃ o, heap.get? h = some o := by
  unfold contains
  exact Option.isSome_iff_exists

theorem contains_of_get? (ho : heap.get? h = some o) : heap.contains h = true :=
  contains_iff.2 ⟨o, ho⟩

/-- Two handles that find objects in one slot are the same. -/
theorem eq_of_index_eq (hh : heap.contains h = true) (hk : heap.contains k = true)
    (hi : h.index = k.index) : h = k := by
  obtain ⟨o, ho⟩ := contains_iff.1 hh
  obtain ⟨p, hp⟩ := contains_iff.1 hk
  obtain ⟨s, hs, hg, -⟩ := get?_eq_some_iff.1 ho
  obtain ⟨t, ht, hg', -⟩ := get?_eq_some_iff.1 hp
  rw [hi, ht] at hs
  cases hs
  cases h; cases k
  simp_all

theorem index_lt_of_contains (hh : heap.contains h = true) : h.index < heap.slots.size := by
  obtain ⟨o, ho⟩ := contains_iff.1 hh
  obtain ⟨s, hs, -⟩ := get?_eq_some_iff.1 ho
  exact (Array.getElem?_eq_some_iff.1 hs).1

/-- Lookup sees only the slots. -/
theorem get?_congr {heap' : Heap} (hs : heap'.slots[h.index]? = heap.slots[h.index]?) :
    heap'.get? h = heap.get? h := by
  simp only [get?, hs]

/-! ### Sums over the slots -/

/-- The sum of a weight over all slots. -/
def total (heap : Heap) (weight : Slot → Nat) : Nat := (heap.slots.toList.map weight).sum

theorem sum_map_set {α : Type} (f : α → Nat) {l : List α} {i : Nat} {a : α} (b : α)
    (hi : l[i]? = some a) : ((l.set i b).map f).sum + f a = (l.map f).sum + f b := by
  induction l generalizing i with
  | nil => simp at hi
  | cons c l ih =>
    cases i with
    | zero =>
      simp only [List.getElem?_cons_zero, Option.some.injEq] at hi
      subst hi
      simp only [List.set_cons_zero, List.map_cons, List.sum_cons]
      omega
    | succ i =>
      simp only [List.getElem?_cons_succ] at hi
      simp only [List.set_cons_succ, List.map_cons, List.sum_cons]
      have := ih hi
      omega

/-- Replacing a slot trades its weight for that of the new one. -/
theorem total_set (weight : Slot → Nat) (heap' : Heap) {i : Nat} {slot : Slot} (new : Slot)
    (hi : heap.slots[i]? = some slot) (hs : heap'.slots = heap.slots.setIfInBounds i new) :
    heap'.total weight + weight slot = heap.total weight + weight new := by
  unfold total
  rw [hs, Array.toList_setIfInBounds]
  exact sum_map_set weight new (by simpa using hi)

theorem total_congr {weight weight' : Slot → Nat} {heap' : Heap}
    (hs : ∀ i : Nat, heap'.slots[i]?.map weight' = heap.slots[i]?.map weight) :
    heap'.total weight' = heap.total weight := by
  unfold total
  congr 1
  apply List.ext_getElem?
  intro i
  simpa using hs i

/-! ### Invariants -/

/-- The free list names distinct empty slots, and nothing is marked. -/
structure Slotted (heap : Heap) : Prop where
  free_empty : ∀ i ∈ heap.freeSlots.toList,
    ∃ slot, heap.slots[i]? = some slot ∧ slot.object = none
  free_nodup : heap.freeSlots.toList.Nodup
  unmarked : ∀ (i : Nat) (slot : Slot), heap.slots[i]? = some slot → slot.marked = false

/-- The accounts agree with the objects there are. -/
structure Accounted (heap : Heap) : Prop where
  live : heap.live = heap.total Slot.count
  accounted : heap.accounted = heap.total Slot.bytes

theorem slotted_withThreshold (threshold growth : Nat) :
    (withThreshold threshold growth).Slotted := by
  constructor <;> simp [withThreshold]

theorem accounted_withThreshold (threshold growth : Nat) :
    (withThreshold threshold growth).Accounted := by
  constructor <;> simp [withThreshold, total]

/-! ### Placing an object -/

/-- Where a placed object goes: the slot emptied last, or a new one. -/
theorem alloc_cases (hs : heap.Slotted) (o : Obj) :
    (∃ i slot, heap.freeSlots.back? = some i ∧ heap.slots[i]? = some slot ∧ slot.object = none ∧
      heap.alloc o =
        (⟨i, slot.generation⟩,
          { heap with
            slots := heap.slots.setIfInBounds i ⟨slot.generation, false, some o⟩
            freeSlots := heap.freeSlots.pop
            live := heap.live + 1
            accounted := heap.accounted + o.size })) ∨
    (heap.freeSlots = #[] ∧
      heap.alloc o =
        (⟨heap.slots.size, 0⟩,
          { heap with
            slots := heap.slots.push ⟨0, false, some o⟩
            live := heap.live + 1
            accounted := heap.accounted + o.size })) := by
  cases hb : heap.freeSlots.back? with
  | none =>
    right
    refine ⟨Array.back?_eq_none_iff.1 hb, ?_⟩
    simp only [alloc, hb]
  | some i =>
    left
    have hm : i ∈ heap.freeSlots.toList := by
      simpa using Array.mem_of_back? hb
    obtain ⟨slot, hslot, hempty⟩ := hs.free_empty i hm
    refine ⟨i, slot, rfl, hslot, hempty, ?_⟩
    simp only [alloc, hb, hslot, Option.map_some, Option.getD_some]

/-- The handle of a placed object finds it. -/
theorem get?_alloc_self (hs : heap.Slotted) (o : Obj) :
    (heap.alloc o).2.get? (heap.alloc o).1 = some o := by
  rcases alloc_cases hs o with ⟨i, slot, -, hi, -, he⟩ | ⟨-, he⟩
  · rw [he]
    have hlt := (Array.getElem?_eq_some_iff.1 hi).1
    simp [get?, hlt]
  · rw [he]
    simp [get?]

/-- What handles found before, they find after an object is placed. -/
theorem get?_alloc_of_get? (hs : heap.Slotted) (o : Obj) (hp : heap.get? h = some p) :
    (heap.alloc o).2.get? h = some p := by
  obtain ⟨t, ht, hg, hobj⟩ := get?_eq_some_iff.1 hp
  rcases alloc_cases hs o with ⟨i, slot, -, hi, hempty, he⟩ | ⟨-, he⟩
  · rw [he, get?_congr, hp]
    have hne : i ≠ h.index := by
      rintro rfl
      rw [hi] at ht
      cases ht
      rw [hempty] at hobj
      cases hobj
    simp [hne]
  · rw [he, get?_congr, hp]
    have hlt := (Array.getElem?_eq_some_iff.1 ht).1
    simp [Array.getElem?_push, Nat.ne_of_lt hlt]

/-- A lookup after an object is placed finds that object or what it found before. -/
theorem get?_alloc_cases (hp : (heap.alloc o).2.get? h = some p) :
    p = o ∨ heap.get? h = some p := by
  obtain ⟨t, ht, hg, hobj⟩ := get?_eq_some_iff.1 hp
  have hnew : t.object = some o ∨ heap.slots[h.index]? = some t := by
    unfold alloc at ht
    split at ht
    · simp only [Array.getElem?_setIfInBounds] at ht
      split at ht
      · split at ht
        · cases ht
          exact .inl rfl
        · cases ht
      · exact .inr ht
    · simp only [Array.getElem?_push] at ht
      split at ht
      · cases ht
        exact .inl rfl
      · exact .inr ht
  rcases hnew with hnew | hold
  · left
    rw [hnew] at hobj
    exact (Option.some.inj hobj).symm
  · exact .inr (get?_eq_some_iff.2 ⟨t, hold, hg, hobj⟩)

/-- Handles other than the one of a placed object find what they found before. -/
theorem get?_alloc_of_ne (hs : heap.Slotted) (hne : (heap.alloc o).1 ≠ h) :
    (heap.alloc o).2.get? h = heap.get? h := by
  rcases alloc_cases hs o with ⟨i, slot, -, hi, hempty, he⟩ | ⟨-, he⟩
  · rw [he] at hne ⊢
    have hlt := (Array.getElem?_eq_some_iff.1 hi).1
    by_cases hj : i = h.index
    · -- another generation of the slot taken, which was empty
      have hgen : slot.generation ≠ h.generation := fun hg => hne (by cases h; simp_all)
      subst hj
      have hold : heap.get? h = none := by simp only [get?, hi, hempty, ite_self]
      rw [hold]
      simp [get?, hlt, hgen]
    · exact get?_congr (by simp [hj])
  · rw [he] at hne ⊢
    by_cases hj : h.index = heap.slots.size
    · have hgen : (0 : UInt32) ≠ h.generation := fun hg => hne (by cases h; simp_all)
      simp [get?, hj, hgen]
    · exact get?_congr (by simp [Array.getElem?_push, hj])

/-- The handle of a placed object found nothing before. -/
theorem contains_alloc_fresh (hs : heap.Slotted) (o : Obj) :
    heap.contains (heap.alloc o).1 = false := by
  rcases alloc_cases hs o with ⟨i, slot, -, hi, hempty, he⟩ | ⟨-, he⟩
  · rw [he]
    simp [contains, get?, hi, hempty]
  · rw [he]
    simp [contains, get?]

theorem slotted_alloc (hs : heap.Slotted) (o : Obj) : (heap.alloc o).2.Slotted := by
  rcases alloc_cases hs o with ⟨i, slot, hb, hi, -, he⟩ | ⟨hnil, he⟩
  · rw [he]
    -- the index taken was the last of the free list, so it is not among those left
    have hsplit : heap.freeSlots.toList = heap.freeSlots.pop.toList ++ [i] := by
      rw [Array.toList_pop]
      rw [← Array.getLast?_toList] at hb
      exact (List.dropLast_append_getLast? i hb).symm
    have hnd := hs.free_nodup
    rw [hsplit, List.nodup_append] at hnd
    have hne : ∀ j ∈ heap.freeSlots.pop.toList, i ≠ j :=
      fun j hj => (hnd.2.2 j hj i (List.mem_singleton_self i)).symm
    refine ⟨?_, hnd.1, ?_⟩
    · intro j hj
      obtain ⟨s, hsj, hsn⟩ := hs.free_empty j (by rw [hsplit]; exact List.mem_append_left _ hj)
      exact ⟨s, by simp [hne j hj, hsj], hsn⟩
    · intro j s hsj
      simp only [Array.getElem?_setIfInBounds] at hsj
      split at hsj
      · split at hsj
        · cases hsj; rfl
        · cases hsj
      · exact hs.unmarked j s hsj
  · rw [he]
    refine ⟨?_, hs.free_nodup, ?_⟩
    · intro j hj
      simp [hnil] at hj
    · intro j s hsj
      simp only [Array.getElem?_push] at hsj
      split at hsj
      · cases hsj; rfl
      · exact hs.unmarked j s hsj

theorem accounted_alloc (hs : heap.Slotted) (ha : heap.Accounted) (o : Obj) :
    (heap.alloc o).2.Accounted := by
  rcases alloc_cases hs o with ⟨i, slot, -, hi, hempty, he⟩ | ⟨-, he⟩
  · have hset (weight : Slot → Nat) :=
      total_set weight (heap.alloc o).2 ⟨slot.generation, false, some o⟩ hi (by rw [he])
    have hcount := hset Slot.count
    have hbytes := hset Slot.bytes
    rw [Slot.count_of_none hempty, Slot.count_of_some rfl] at hcount
    rw [Slot.bytes_of_none hempty, Slot.bytes_of_some rfl] at hbytes
    constructor
    · rw [show (heap.alloc o).2.live = heap.live + 1 by rw [he], ha.live]
      omega
    · rw [show (heap.alloc o).2.accounted = heap.accounted + o.size by rw [he], ha.accounted]
      omega
  · rw [he]
    constructor
    · simp [total, ha.live, Slot.count]
    · simp [total, ha.accounted, Slot.bytes]

/-! ### Removing an object -/

/-- What removing an object does to the heap. -/
theorem free?_eq_some {heap' : Heap} (hf : heap.free? h = some (o, heap')) :
    heap.get? h = some o ∧
      heap' =
        { heap with
          slots := heap.slots.setIfInBounds h.index ⟨h.generation + 1, false, none⟩
          freeSlots := heap.freeSlots.push h.index
          live := heap.live - 1
          accounted := heap.accounted - o.size } := by
  obtain ⟨p, hp, he⟩ := Option.map_eq_some_iff.1 hf
  cases he
  exact ⟨hp, rfl⟩

/-- What a handle finds after an object is removed, it found before. -/
theorem get?_of_free {heap' : Heap} (hf : heap.free? h = some (o, heap'))
    (hp : heap'.get? k = some p) : heap.get? k = some p := by
  obtain ⟨hget, rfl⟩ := free?_eq_some hf
  by_cases hi : h.index = k.index
  · have hlt := index_lt_of_contains (contains_of_get? hget)
    rw [hi] at hlt
    simp [get?, hi, hlt] at hp
  · exact (get?_congr (by simp [hi])).symm.trans hp

theorem slotted_free {heap' : Heap} (hs : heap.Slotted) (hf : heap.free? h = some (o, heap')) :
    heap'.Slotted := by
  obtain ⟨hget, rfl⟩ := free?_eq_some hf
  obtain ⟨slot, hslot, -, hobj⟩ := get?_eq_some_iff.1 hget
  have hlt := (Array.getElem?_eq_some_iff.1 hslot).1
  have hne : ∀ j ∈ heap.freeSlots.toList, h.index ≠ j := by
    rintro j hj rfl
    obtain ⟨s, hsj, hsn⟩ := hs.free_empty _ hj
    rw [hslot] at hsj
    cases hsj
    rw [hobj] at hsn
    cases hsn
  refine ⟨?_, ?_, ?_⟩
  · intro j hj
    rw [Array.toList_push, List.mem_append, List.mem_singleton] at hj
    rcases hj with hj | rfl
    · obtain ⟨s, hsj, hsn⟩ := hs.free_empty j hj
      exact ⟨s, by simp [hne j hj, hsj], hsn⟩
    · exact ⟨_, by simp [hlt]; rfl, rfl⟩
  · rw [Array.toList_push, List.nodup_append]
    refine ⟨hs.free_nodup, by simp, ?_⟩
    intro j hj i hi
    rw [List.mem_singleton.1 hi]
    exact (hne j hj).symm
  · intro j s hsj
    simp only [Array.getElem?_setIfInBounds, hlt, if_true] at hsj
    split at hsj
    · cases hsj; rfl
    · exact hs.unmarked j s hsj

theorem accounted_free {heap' : Heap} (ha : heap.Accounted)
    (hf : heap.free? h = some (o, heap')) : heap'.Accounted := by
  obtain ⟨hget, he⟩ := free?_eq_some hf
  obtain ⟨slot, hslot, -, hobj⟩ := get?_eq_some_iff.1 hget
  have hset (weight : Slot → Nat) :=
    total_set weight heap' ⟨h.generation + 1, false, none⟩ hslot (by rw [he])
  have hcount := hset Slot.count
  have hbytes := hset Slot.bytes
  rw [Slot.count_of_some hobj, Slot.count_of_none rfl] at hcount
  rw [Slot.bytes_of_some hobj, Slot.bytes_of_none rfl] at hbytes
  constructor
  · rw [show heap'.live = heap.live - 1 by rw [he], ha.live]
    omega
  · rw [show heap'.accounted = heap.accounted - o.size by rw [he], ha.accounted]
    omega

/-! ### Changing an object in place -/

theorem getElem?_modify (heap : Heap) (h : Handle) (f : Obj → Obj) (i : Nat) :
    (heap.modify h f).slots[i]? =
      if h.index = i then
        heap.slots[i]?.map fun slot =>
          if slot.generation = h.generation then { slot with object := slot.object.map f } else slot
      else heap.slots[i]? := by
  simp only [modify, Array.getElem?_modify]

/-- A change in place is seen through its handle and through no other. -/
theorem get?_modify (heap : Heap) (h k : Handle) (f : Obj → Obj) :
    (heap.modify h f).get? k = if k = h then (heap.get? h).map f else heap.get? k := by
  by_cases hi : h.index = k.index
  · simp only [get?, getElem?_modify, hi, if_true]
    cases hs : heap.slots[k.index]? with
    | none => simp
    | some slot =>
      by_cases hk : k = h
      · subst hk
        by_cases hg : slot.generation = k.generation <;> simp [hg]
      · have hne : h.generation ≠ k.generation := by
          intro hg
          cases h; cases k
          simp_all
        by_cases hg : slot.generation = h.generation
        · simp [hg, hne, hk]
        · simp [hg, hk]
  · have hk : k ≠ h := by rintro rfl; exact hi rfl
    simp [get?, getElem?_modify, hi, hk]

theorem contains_modify (heap : Heap) (h k : Handle) (f : Obj → Obj) :
    (heap.modify h f).contains k = heap.contains k := by
  unfold contains
  rw [get?_modify]
  split
  · rename_i hk; rw [hk, Option.isSome_map]
  · rfl

theorem slotted_modify (hs : heap.Slotted) (h : Handle) (f : Obj → Obj) :
    (heap.modify h f).Slotted := by
  refine ⟨?_, hs.free_nodup, ?_⟩
  · intro i hi
    obtain ⟨slot, hslot, hempty⟩ := hs.free_empty i hi
    rw [getElem?_modify, hslot]
    split
    · refine ⟨_, rfl, ?_⟩
      by_cases hg : slot.generation = h.generation <;> simp [hg, hempty]
    · exact ⟨slot, rfl, hempty⟩
  · intro i slot hslot
    rw [getElem?_modify] at hslot
    split at hslot
    · obtain ⟨t, ht, rfl⟩ := Option.map_eq_some_iff.1 hslot
      split
      · exact hs.unmarked i t ht
      · exact hs.unmarked i t ht
    · exact hs.unmarked i slot hslot

/-- A change that keeps the kind of the object keeps the accounts. -/
theorem accounted_modify (ha : heap.Accounted) {f : Obj → Obj}
    (hf : ∀ o, heap.get? h = some o → (f o).kind = o.kind) : (heap.modify h f).Accounted := by
  have hmap (weight : Slot → Nat)
      (hw : ∀ slot : Slot, (∀ o, slot.object = some o → (f o).kind = o.kind) →
        weight { slot with object := slot.object.map f } = weight slot) :
      (heap.modify h f).total weight = heap.total weight := by
    apply total_congr
    intro i
    rw [getElem?_modify]
    split
    · rename_i hi
      subst hi
      cases hs : heap.slots[h.index]? with
      | none => rfl
      | some slot =>
        simp only [Option.map_some, Option.some.injEq]
        split
        · rename_i hg
          exact hw slot fun o ho => hf o (get?_eq_some_iff.2 ⟨slot, hs, hg, ho⟩)
        · rfl
    · rfl
  constructor
  · rw [hmap Slot.count fun slot _ => by cases ho : slot.object <;> simp [Slot.count, ho]]
    exact ha.live
  · have hbytes : ∀ slot : Slot, (∀ o, slot.object = some o → (f o).kind = o.kind) →
        Slot.bytes { slot with object := slot.object.map f } = slot.bytes := by
      intro slot hkind
      cases ho : slot.object with
      | none => simp [Slot.bytes, ho]
      | some o => simp [Slot.bytes, ho, Obj.size, hkind o ho]
    rw [hmap Slot.bytes hbytes]
    exact ha.accounted

end Heap
end ScriptVm
