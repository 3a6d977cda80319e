import ScriptVm.Proofs.Heap.ExactCollection

/-!
# What a heap says about its slots

A heap keeps a count, a size and a free list beside its slots, and each operation updates them on
its own. Between operations they say what the slots say.

* `Represented` says that the count and the size are those of the objects in the slots, that the
  free list names each empty slot once and nothing else, and that no slot is marked.
* `Listed` is the part of it that is new here: no empty slot is missing from the free list.
* `ReleasesExactly` says that removing an object never finds the accounts too low. It holds between
  operations, and also in the middle of a collection, which removes objects as it goes.
* `representation` is the result.
-/

namespace ScriptVm
namespace Heap

variable {heap heap' : Heap} {h : Handle} {o : Obj} {roots : List Handle}

/-- A slot that holds no object. -/
def EmptyAt (heap : Heap) (i : Nat) : Prop :=
  ∃ slot, heap.slots[i]? = some slot ∧ slot.object = none

/-- The accounts, the free list and the marks agree with the slots. -/
structure Represented (heap : Heap) : Prop where
  accounted : heap.accounted = (heap.objects.map fun p => p.2.kind.size).sum
  live : heap.live = heap.objects.length
  free_nodup : heap.freeSlots.toList.Nodup
  mem_free : ∀ i, i ∈ heap.freeSlots.toList ↔ heap.EmptyAt i
  unmarked : ∀ (i : Nat) (slot : Slot), heap.slots[i]? = some slot → slot.marked = false

/-- Every empty slot is on the free list. -/
def Listed (heap : Heap) : Prop := ∀ i, heap.EmptyAt i → i ∈ heap.freeSlots.toList

/-! ### No empty slot is lost -/

theorem listed_withThreshold (threshold growth : Nat) :
    (withThreshold threshold growth).Listed := by
  rintro i ⟨slot, hslot, -⟩
  simp [withThreshold] at hslot

theorem listed_alloc (hs : heap.Slotted) (hl : heap.Listed) (o : Obj) :
    (heap.alloc o).2.Listed := by
  rcases alloc_cases hs o with ⟨i, slot, hback, hi, -, he⟩ | ⟨-, he⟩
  · rw [he]
    rintro j ⟨t, ht, hempty⟩
    have hlt := (Array.getElem?_eq_some_iff.1 hi).1
    -- the slot taken is occupied now, so that `j` is another one
    have hne : i ≠ j := by
      rintro rfl
      simp only [Array.getElem?_setIfInBounds, hlt, if_true, Option.some.injEq] at ht
      subst ht
      cases hempty
    have hold : heap.slots[j]? = some t := by simpa [hne] using ht
    have hmem := hl j ⟨t, hold, hempty⟩
    rw [← Array.getLast?_toList] at hback
    rw [← List.dropLast_append_getLast? i hback, List.mem_append, List.mem_singleton] at hmem
    show j ∈ heap.freeSlots.pop.toList
    rw [Array.toList_pop]
    exact hmem.resolve_right hne.symm
  · rw [he]
    rintro j ⟨t, ht, hempty⟩
    simp only [Array.getElem?_push] at ht
    split at ht
    · cases ht
      cases hempty
    · exact hl j ⟨t, ht, hempty⟩

theorem listed_free (hl : heap.Listed) (hf : heap.free? h = some (o, heap')) : heap'.Listed := by
  obtain ⟨-, rfl⟩ := free?_eq_some hf
  rintro j ⟨t, ht, hempty⟩
  show j ∈ (heap.freeSlots.push h.index).toList
  rw [Array.toList_push, List.mem_append, List.mem_singleton]
  by_cases hj : h.index = j
  · exact .inr hj.symm
  · exact .inl (hl j ⟨t, by simpa [hj] using ht, hempty⟩)

theorem listed_collect (hs : heap.Slotted) (hl : heap.Listed) (roots : List Handle) :
    (heap.collect roots).heap.Listed := by
  have hc := emptiesExactly_collect hs roots
  obtain ⟨gone, -, hgone, hfree, -⟩ := hc.gone
  rintro j ⟨t, ht, hempty⟩
  rw [hfree, List.mem_append]
  cases hold : heap.slots[j]?.bind Slot.object with
  | none =>
    rw [hc.untouched j hold] at ht
    exact .inl (hl j ⟨t, ht, hempty⟩)
  | some o =>
    -- an object was there, and it is not one that is kept
    obtain ⟨slot, hslot, ho⟩ := Option.bind_eq_some_iff.1 hold
    have hget : heap.get? ⟨j, slot.generation⟩ = some o := get?_eq_some_iff.2 ⟨slot, hslot, rfl, ho⟩
    refine .inr ((hgone j).2 ⟨⟨j, slot.generation⟩, rfl, contains_of_get? hget, fun hr => ?_⟩)
    rw [hc.kept _ _ hget hr] at ht
    cases ht
    cases hempty

theorem listed_modify (hl : heap.Listed) (h : Handle) (f : Obj → Obj) :
    (heap.modify h f).Listed := by
  rintro j ⟨t, ht, hempty⟩
  rw [getElem?_modify] at ht
  split at ht
  · obtain ⟨slot, hslot, rfl⟩ := Option.map_eq_some_iff.1 ht
    refine hl j ⟨slot, hslot, ?_⟩
    split at hempty
    · exact Option.map_eq_none_iff.1 hempty
    · exact hempty
  · exact hl j ⟨t, ht, hempty⟩

theorem Change.listed (hc : Change heap heap') (hs : heap.Slotted) (hl : heap.Listed) :
    heap'.Listed := by
  cases hc with
  | alloc o => exact listed_alloc hs hl o
  | free hf => exact listed_free hl hf
  | collect roots => exact listed_collect hs hl roots
  | modify _ => exact listed_modify hl _ _

theorem Reached.listed (hr : heap.Reached) : heap.Listed := by
  induction hr with
  | empty threshold growth => exact listed_withThreshold threshold growth
  | change hr hc ih => exact hc.listed hr.invariants.1 ih

/-! ### The objects in the slots -/

/-- Weighing the objects is weighing the slots by their objects. -/
theorem sum_objects (heap : Heap) (weight : Obj → Nat) :
    (heap.objects.map fun p => weight p.2).sum =
      heap.total fun slot => (slot.object.map weight).getD 0 := by
  have hlist : ∀ (slots : List Slot) (handle : Nat → Slot → Handle),
      (((slots.mapIdx fun i slot => slot.object.map fun o => (handle i slot, o)).filterMap id).map
        fun p => weight p.2).sum = (slots.map fun slot => (slot.object.map weight).getD 0).sum := by
    intro slots
    induction slots with
    | nil => exact fun _ => rfl
    | cons slot rest ih =>
      intro handle
      have hrest := ih fun i => handle (i + 1)
      cases ho : slot.object with
      | none => simpa [List.mapIdx_cons, ho] using hrest
      | some o => simpa [List.mapIdx_cons, ho] using hrest
  exact hlist heap.slots.toList fun i slot => ⟨i, slot.generation⟩

theorem length_objects (heap : Heap) : heap.objects.length = heap.total Slot.count := by
  have hsum := heap.sum_objects fun _ => 1
  rw [List.map_const', List.sum_replicate_nat, Nat.mul_one] at hsum
  exact hsum

theorem Reached.represented (hr : heap.Reached) : heap.Represented := by
  obtain ⟨hs, ha⟩ := hr.invariants
  exact {
    accounted := ha.accounted.trans (heap.sum_objects Obj.size).symm
    live := ha.live.trans heap.length_objects.symm
    free_nodup := hs.free_nodup
    mem_free := fun i => ⟨hs.free_empty i, hr.listed i⟩
    unmarked := hs.unmarked }

/-! ### Removing objects -/

/-- Removing an object is refused if its handle finds nothing, in which case nothing is done, and
for no other reason. -/
def ReleasesExactly (heap : Heap) : Prop :=
  ∀ h, heap.release h =
    match heap.free? h with
    | some (o, heap') => (.ok o, heap')
    | none => (.error .stale, heap)

/-- An object is on the accounts as long as it is there. -/
theorem Accounted.le_of_get? (ha : heap.Accounted) (ho : heap.get? h = some o) :
    1 ≤ heap.live ∧ o.size ≤ heap.accounted := by
  obtain ⟨slot, hslot, -, hobj⟩ := get?_eq_some_iff.1 ho
  let emptied : Heap := { heap with slots := heap.slots.setIfInBounds h.index ⟨0, false, none⟩ }
  have hset (weight : Slot → Nat) := total_set weight emptied ⟨0, false, none⟩ hslot rfl
  have hcount := hset Slot.count
  have hbytes := hset Slot.bytes
  rw [Slot.count_of_some hobj, Slot.count_of_none rfl, ← ha.live] at hcount
  rw [Slot.bytes_of_some hobj, Slot.bytes_of_none rfl, ← ha.accounted] at hbytes
  omega

theorem Accounted.releasesExactly (ha : heap.Accounted) : heap.ReleasesExactly := by
  intro h
  cases ho : heap.get? h with
  | none => simp only [release, free?, ho, Option.map_none]
  | some o =>
    obtain ⟨hlive, hsize⟩ := ha.le_of_get? ho
    have hcount : ¬ heap.live = 0 := by omega
    have hbytes : ¬ heap.accounted < o.size := by omega
    simp only [release, free?, ho, Option.map_some, hcount, hbytes, if_false]

/-- A collection that has swept the slots below an index. -/
def sweptBelow (heap : Heap) (roots : List Handle) (n : Nat) : Sweep :=
  (List.range n).foldl sweepAt ⟨heap.mark roots, #[], 0⟩

theorem accounted_mark (hs : heap.Slotted) (ha : heap.Accounted) (roots : List Handle) :
    (heap.mark roots).Accounted := by
  obtain ⟨p, hm, -⟩ := mark_eq hs roots
  rw [hm]
  constructor
  · rw [total_withMarks fun _ _ => rfl]
    exact ha.live
  · rw [total_withMarks fun _ _ => rfl]
    exact ha.accounted

theorem accounted_setMark (ha : heap.Accounted) (i : Nat) (marked : Bool) :
    (heap.setMark i marked).Accounted := by
  have hsame (weight : Slot → Nat) (hw : ∀ slot : Slot, weight { slot with marked } = weight slot) :
      (heap.setMark i marked).total weight = heap.total weight := by
    apply total_congr
    intro j
    simp only [setMark, Array.getElem?_modify]
    split
    · cases heap.slots[j]? with
      | none => rfl
      | some slot => simp [hw]
    · rfl
  constructor
  · rw [hsame Slot.count fun _ => rfl]
    exact ha.live
  · rw [hsame Slot.bytes fun _ => rfl]
    exact ha.accounted

/-- The sweep keeps the accounts right at every slot. -/
theorem accounted_sweepAt {s : Sweep} (ha : s.heap.Accounted) (i : Nat) :
    (sweepAt s i).heap.Accounted := by
  obtain ⟨heap, gone, kept⟩ := s
  unfold sweepAt
  dsimp only
  split
  · split
    · exact accounted_setMark ha i false
    · split
      · rename_i hf
        exact accounted_free ha hf
      · exact ha
  · exact ha

theorem accounted_sweptBelow (hs : heap.Slotted) (ha : heap.Accounted) (roots : List Handle)
    (n : Nat) : (heap.sweptBelow roots n).heap.Accounted := by
  induction n with
  | zero => exact accounted_mark hs ha roots
  | succ n ih =>
    unfold sweptBelow at ih ⊢
    rw [List.range_succ, List.foldl_append, List.foldl_cons, List.foldl_nil]
    exact accounted_sweepAt ih n

/-! ### The result -/

/-- **Between operations a heap says what is in its slots.** So removing an object is refused only
if its handle finds nothing, and no account is ever too low for it. -/
theorem representation (hr : heap.Reached) :
    heap.Represented ∧
    (∀ h, (∃ refusal, (heap.release h).1 = .error refusal) ↔ heap.contains h = false) ∧
    (∀ h, heap.contains h = false → heap.release h = (.error .stale, heap)) ∧
    (∀ h o, heap.get? h = some o →
      ∃ heap', heap.release h = (.ok o, heap') ∧ Change heap heap') ∧
    ∀ roots n, (heap.sweptBelow roots n).heap.ReleasesExactly := by
  obtain ⟨hs, ha⟩ := hr.invariants
  have hrelease := ha.releasesExactly
  have hstale : ∀ h, heap.contains h = false → heap.release h = (.error .stale, heap) := by
    intro h hc
    have hnone : heap.free? h = none := by
      simpa [contains, free?] using hc
    rw [hrelease h, hnone]
  have hremoved : ∀ h o, heap.get? h = some o →
      ∃ heap', heap.release h = (.ok o, heap') ∧ Change heap heap' := by
    intro h o ho
    obtain ⟨heap', hf⟩ : ∃ heap', heap.free? h = some (o, heap') := ⟨_, by rw [free?, ho]; rfl⟩
    exact ⟨heap', by rw [hrelease h, hf], .free hf⟩
  refine ⟨hr.represented, fun h => ⟨?_, fun hc => ?_⟩, hstale, hremoved, fun roots n => ?_⟩
  · rintro ⟨refusal, hrefused⟩
    by_contra hc
    obtain ⟨o, ho⟩ := contains_iff.1 (by simpa using hc)
    obtain ⟨heap', hdone, -⟩ := hremoved h o ho
    rw [hdone] at hrefused
    cases hrefused
  · exact ⟨.stale, by rw [hstale h hc]⟩
  · exact (accounted_sweptBelow hs ha roots n).releasesExactly

/-- A heap in which a string was removed and a class placed in its slot: it holds the class, nothing
is free, and removing the string again is refused and changes nothing. -/
theorem representation_reused :
    let first := (Heap.empty.alloc (.string "lamp")).2
    let heap :=
      ((first.free? ⟨0, 0⟩).map fun p => (p.2.alloc (.scriptClass (.ofHash 1))).2).getD first
    heap.Reached ∧ heap.accounted = 160 ∧ heap.live = 1 ∧ heap.freeSlots.toList = [] ∧
      heap.Represented ∧ heap.release ⟨0, 0⟩ = (.error .stale, heap) := by
  intro first heap
  have hfirst : first.Reached := .change (.empty defaultThreshold defaultGrowth) (.alloc _)
  have hr : heap.Reached := .change (.change hfirst (.free (h := ⟨0, 0⟩) rfl)) (.alloc _)
  obtain ⟨hrepresented, -, hstale, -⟩ := representation hr
  exact ⟨hr, rfl, rfl, rfl, hrepresented, hstale _ rfl⟩

end Heap
end ScriptVm
