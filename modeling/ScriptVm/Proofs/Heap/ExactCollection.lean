import ScriptVm.Memory
import ScriptVm.Proofs.Heap.Marking
import ScriptVm.Proofs.Heap.Sweeping

/-!
# Collections are exact

A collection keeps the objects that the roots reach and removes all others.

* `Change` and `Reached` are the heaps that placing, removing, collecting and changing objects in
  place lead to; they are `Slotted` and `Accounted`.
* `EmptiesExactly` says what a collection does to every slot, to the free list and to the host
  objects whose instances go away, `CollectsExactly` what it does to the accounts as well.
* `collect_exact` says that every collection of such a heap is exact, that the memory tells each
  host object as often as it lost an instance, and that only the set of roots matters.
-/

namespace ScriptVm
namespace Heap

/-- One operation on a heap. -/
inductive Change : Heap → Heap → Prop
  | alloc {heap : Heap} (o : Obj) : Change heap (heap.alloc o).2
  | free {heap heap' : Heap} {h : Handle} {o : Obj} :
    heap.free? h = some (o, heap') → Change heap heap'
  | collect {heap : Heap} (roots : List Handle) : Change heap (heap.collect roots).heap
  | modify {heap : Heap} {h : Handle} {f : Obj → Obj} :
    (∀ o, heap.get? h = some o → (f o).kind = o.kind) → Change heap (heap.modify h f)

/-- The heaps that operations lead to from an empty one. -/
inductive Reached : Heap → Prop
  | empty (threshold growth : Nat) : Reached (withThreshold threshold growth)
  | change {heap heap' : Heap} : Reached heap → Change heap heap' → Reached heap'

/-- The entity of the instance in a slot. -/
def entityAt? (heap : Heap) (i : Nat) : Option EntityId :=
  (heap.slots[i]?.bind Slot.object).bind reclaimedEntity?

/-- The accounted size of what a slot holds. -/
def bytesAt (heap : Heap) (i : Nat) : Nat := (heap.slots[i]?.map Slot.bytes).getD 0

/-- The collection `c` of a heap empties exactly the slots of what the roots do not reach. -/
structure EmptiesExactly (heap : Heap) (roots : List Handle) (c : Collection) : Prop where
  /-- What is reached stays, with its generation. -/
  kept : ∀ h o, heap.get? h = some o → heap.Reaches roots h →
    c.heap.slots[h.index]? = some ⟨h.generation, false, some o⟩
  /-- What is not reached goes, and its slot gets the next generation. -/
  emptied : ∀ h o, heap.get? h = some o → ¬ heap.Reaches roots h →
    c.heap.slots[h.index]? = some ⟨h.generation + 1, false, none⟩
  /-- Slots that were empty stay as they were, and there are no others. -/
  untouched : ∀ i : Nat, heap.slots[i]?.bind Slot.object = none →
    c.heap.slots[i]? = heap.slots[i]?
  /-- The slots emptied are appended to the free list in order, and the entities of their
  instances are told in that order, each once for each instance. -/
  gone : ∃ gone : List Nat, gone.Pairwise (· < ·) ∧
    (∀ i, i ∈ gone ↔ ∃ h, h.index = i ∧ heap.contains h = true ∧ ¬ heap.Reaches roots h) ∧
    c.heap.freeSlots.toList = heap.freeSlots.toList ++ gone ∧
    c.report.freed = gone.length ∧
    c.reclaimed = gone.filterMap heap.entityAt?
  /-- No mark is left. -/
  unmarked : ∀ (i : Nat) (slot : Slot), c.heap.slots[i]? = some slot → slot.marked = false

/-- The collection `c` of a heap removes exactly what the roots do not reach and accounts for it. -/
structure CollectsExactly (heap : Heap) (roots : List Handle) (c : Collection) : Prop extends
    EmptiesExactly heap roots c where
  /-- The accounts are those of the objects reached. -/
  accounts : ∃ kept : List Nat, kept.Pairwise (· < ·) ∧
    (∀ i, i ∈ kept ↔ ∃ h, h.index = i ∧ heap.Reaches roots h) ∧
    c.heap.live = kept.length ∧ c.heap.accounted = (kept.map heap.bytesAt).sum
  /-- Removed and kept objects are all that were live. -/
  counts : c.report.freed + c.report.survivors = heap.live
  /-- The bytes freed are what the accounted size lost. -/
  bytes : c.heap.accounted + c.report.freedBytes = heap.accounted
  /-- The next threshold lies by the growth above what is left, if that is a size. -/
  threshold : c.heap.accounted + heap.growth < sizeRange →
    c.heap.threshold = c.heap.accounted + heap.growth

variable {heap : Heap} {roots : List Handle} {p : Nat → Bool}

/-! ### A collection as a sweep of the marked heap -/

theorem collect_heap (heap : Heap) (roots : List Handle) :
    (heap.collect roots).heap.slots = (heap.mark roots).sweep.heap.slots ∧
    (heap.collect roots).heap.freeSlots = (heap.mark roots).sweep.heap.freeSlots ∧
    (heap.collect roots).heap.live = (heap.mark roots).sweep.heap.live ∧
    (heap.collect roots).heap.accounted = (heap.mark roots).sweep.heap.accounted ∧
    ((heap.mark roots).sweep.heap.accounted + (heap.mark roots).sweep.heap.growth < sizeRange →
      (heap.collect roots).heap.threshold =
        (heap.mark roots).sweep.heap.accounted + (heap.mark roots).sweep.heap.growth) := by
  simp only [collect]
  split
  · rename_i ho
    have hle : sizeRange ≤ (heap.mark roots).sweep.heap.accounted +
      (heap.mark roots).sweep.heap.growth := by simpa using ho
    exact ⟨rfl, rfl, rfl, rfl, fun hlt => by omega⟩
  · exact ⟨rfl, rfl, rfl, rfl, fun _ => rfl⟩

/-- A collection overflows if the next threshold would leave the range of sizes. -/
theorem overflow_collect : (heap.collect roots).overflow = true ↔
    sizeRange ≤ (heap.collect roots).heap.accounted + (heap.collect roots).heap.growth := by
  unfold collect
  dsimp only
  split
  · exact decide_eq_true_iff
  · exact decide_eq_true_iff

theorem collect_report (heap : Heap) (roots : List Handle) :
    (heap.collect roots).report =
      { freed := (heap.mark roots).sweep.gone.toList.length
        freedBytes := totalSize (heap.mark roots).sweep.gone.toList
        survivors := (heap.mark roots).sweep.kept } :=
  rfl

/-- Slot by slot, a collection sweeps the marked slot. -/
theorem getElem?_collect (hm : heap.mark roots = heap.withMarks p) (i : Nat) :
    (heap.collect roots).heap.slots[i]? =
      heap.slots[i]?.map fun slot => Slot.swept { slot with marked := p i } := by
  rw [(collect_heap heap roots).1, hm, (swept_sweep _).slots, getElem?_withMarks, size_withMarks]
  split
  · simp only [Option.map_map]; rfl
  · rename_i hi
    rw [Array.getElem?_eq_none (by omega)]
    rfl

/-- The marks say of each occupied slot whether it is reached. -/
theorem marked_iff (hp : ∀ i, p i = true ↔ ∃ h, h.index = i ∧ heap.Reaches roots h) {h : Handle}
    (hc : heap.contains h = true) : p h.index = true ↔ heap.Reaches roots h := by
  rw [hp]
  constructor
  · rintro ⟨k, hk, hr⟩
    rwa [eq_of_index_eq hr.contains hc hk] at hr
  · exact fun hr => ⟨h, rfl, hr⟩

/-- A slot is occupied if some handle finds an object in it. -/
theorem occupied_iff {i : Nat} :
    (∃ h, h.index = i ∧ heap.contains h = true) ↔
      ∃ slot o, heap.slots[i]? = some slot ∧ slot.object = some o := by
  constructor
  · rintro ⟨h, rfl, hc⟩
    obtain ⟨o, ho⟩ := contains_iff.1 hc
    obtain ⟨slot, hs, -, hobj⟩ := get?_eq_some_iff.1 ho
    exact ⟨slot, o, hs, hobj⟩
  · rintro ⟨slot, o, hs, hobj⟩
    exact ⟨⟨i, slot.generation⟩, rfl,
      contains_of_get? (get?_eq_some_iff.2 ⟨slot, hs, rfl, hobj⟩)⟩

/-- An empty slot is not marked. -/
theorem unmarked_of_empty (hp : ∀ i, p i = true ↔ ∃ h, h.index = i ∧ heap.Reaches roots h)
    {i : Nat} {slot : Slot} (hi : heap.slots[i]? = some slot) (hempty : slot.object = none) :
    p i = false := by
  rw [← Bool.not_eq_true, hp]
  rintro ⟨h, hindex, hr⟩
  obtain ⟨s, o, hs, ho⟩ := occupied_iff.1 ⟨h, hindex, hr.contains⟩
  cases hi.symm.trans hs
  cases hempty.symm.trans ho

theorem mem_pick_withMarks {pick : Slot → Option Obj} {i : Nat} :
    i ∈ ((heap.withMarks p).pickBelow pick heap.slots.size).map (·.1) ↔
      ∃ slot o, heap.slots[i]? = some slot ∧ pick { slot with marked := p i } = some o := by
  rw [List.mem_map]
  constructor
  · rintro ⟨⟨j, o⟩, hj, rfl⟩
    obtain ⟨-, slot, hs, ho⟩ := mem_pickBelow.1 hj
    rw [getElem?_withMarks] at hs
    obtain ⟨t, ht, rfl⟩ := Option.map_eq_some_iff.1 hs
    exact ⟨t, o, ht, ho⟩
  · rintro ⟨slot, o, hs, ho⟩
    refine ⟨(i, o), mem_pickBelow.2 ⟨(Array.getElem?_eq_some_iff.1 hs).1, _, ?_, ho⟩, rfl⟩
    rw [getElem?_withMarks, hs]
    rfl

theorem mem_garbage_withMarks {i : Nat} :
    i ∈ (heap.withMarks p).garbage.map (·.1) ↔
      p i = false ∧ ∃ h, h.index = i ∧ heap.contains h = true := by
  rw [garbage, size_withMarks, mem_pick_withMarks, occupied_iff]
  cases hp : p i <;> simp [Slot.garbage?]

theorem mem_survivors_withMarks {i : Nat} :
    i ∈ (heap.withMarks p).survivors.map (·.1) ↔
      p i = true ∧ ∃ h, h.index = i ∧ heap.contains h = true := by
  rw [survivors, size_withMarks, mem_pick_withMarks, occupied_iff]
  cases hp : p i <;> simp [Slot.survivor?]

theorem total_withMarks {weight : Slot → Nat}
    (hw : ∀ (slot : Slot) (marked : Bool), weight { slot with marked } = weight slot) :
    (heap.withMarks p).total weight = heap.total weight := by
  apply total_congr
  intro i
  rw [getElem?_withMarks, Option.map_map]
  cases heap.slots[i]? with
  | none => rfl
  | some slot => simp [hw]

/-- Marking does not touch the objects that slots hold. -/
theorem object_of_mem_pick {pick : Slot → Option Obj} {n : Nat} {g : Nat × Obj}
    (hpick : ∀ slot o, pick slot = some o → slot.object = some o)
    (hg : g ∈ (heap.withMarks p).pickBelow pick n) :
    heap.slots[g.1]?.bind Slot.object = some g.2 := by
  obtain ⟨-, slot, hs, ho⟩ := mem_pickBelow.1 hg
  rw [getElem?_withMarks] at hs
  obtain ⟨t, ht, rfl⟩ := Option.map_eq_some_iff.1 hs
  rw [ht]
  exact hpick { t with marked := p g.1 } g.2 ho

/-! ### The accounts after a collection -/

/-- What is left on the accounts is what survives. -/
theorem accounts_collect (ha : heap.Accounted) (hm : heap.mark roots = heap.withMarks p) :
    (heap.collect roots).heap.live = (heap.withMarks p).survivors.length ∧
    (heap.collect roots).heap.accounted = totalSize ((heap.withMarks p).survivors.map (·.2)) ∧
    (heap.withMarks p).garbage.length + (heap.withMarks p).survivors.length = heap.live ∧
    totalSize ((heap.withMarks p).garbage.map (·.2)) +
      totalSize ((heap.withMarks p).survivors.map (·.2)) = heap.accounted := by
  obtain ⟨-, -, hlive, haccounted, -⟩ := collect_heap heap roots
  have hs := swept_sweep (heap.withMarks p)
  have hlen := length_garbage_add_survivors (heap.withMarks p)
  have hsize := totalSize_garbage_add_survivors (heap.withMarks p)
  rw [total_withMarks fun _ _ => rfl, ← ha.live] at hlen
  rw [total_withMarks fun _ _ => rfl, ← ha.accounted] at hsize
  refine ⟨?_, ?_, hlen, hsize⟩
  · rw [hlive, hm, hs.live]
    show heap.live - (heap.withMarks p).garbage.length = _
    omega
  · rw [haccounted, hm, hs.accounted]
    show heap.accounted - totalSize ((heap.withMarks p).garbage.map (·.2)) = _
    omega

/-! ### What a collection does -/

/-- A collection of a heap whose marks are clear empties the right slots. -/
theorem emptiesExactly_collect (hs : heap.Slotted) (roots : List Handle) :
    EmptiesExactly heap roots (heap.collect roots) := by
  obtain ⟨p, hm, hp⟩ := mark_eq hs roots
  obtain ⟨-, hfree, -⟩ := collect_heap heap roots
  have hsw := swept_sweep (heap.withMarks p)
  have hslot := getElem?_collect hm
  have hgone : (heap.mark roots).sweep.gone.toList = (heap.withMarks p).garbage.map (·.2) := by
    rw [hm]; exact hsw.gone
  constructor
  case kept =>
    intro h o ho hr
    obtain ⟨slot, hi, hg, hobj⟩ := get?_eq_some_iff.1 ho
    rw [hslot, hi, (marked_iff hp hr.contains).2 hr, ← hg]
    simp [Slot.swept, hobj]
  case emptied =>
    intro h o ho hr
    obtain ⟨slot, hi, hg, hobj⟩ := get?_eq_some_iff.1 ho
    have hclear : p h.index = false := by
      rw [← Bool.not_eq_true, marked_iff hp (contains_of_get? ho)]
      exact hr
    rw [hslot, hi, hclear, ← hg]
    simp [Slot.swept, hobj]
  case untouched =>
    intro i hi
    rw [hslot]
    cases hslots : heap.slots[i]? with
    | none => rfl
    | some slot =>
      rw [hslots] at hi
      have hobj : slot.object = none := hi
      have hmark := hs.unmarked i slot hslots
      obtain ⟨generation, marked, object⟩ := slot
      simp only at hobj hmark
      subst hobj hmark
      simp [unmarked_of_empty hp hslots rfl, Slot.swept]
  case gone =>
    refine ⟨(heap.withMarks p).garbage.map (·.1), pairwise_pickBelow _ _ _, ?_, ?_, ?_, ?_⟩
    · intro i
      rw [mem_garbage_withMarks]
      constructor
      · rintro ⟨hclear, h, rfl, hc⟩
        refine ⟨h, rfl, hc, ?_⟩
        rw [← marked_iff hp hc, hclear]
        exact Bool.false_ne_true
      · rintro ⟨h, rfl, hc, hr⟩
        rw [← marked_iff hp hc, Bool.not_eq_true] at hr
        exact ⟨hr, h, rfl, hc⟩
    · rw [hfree, hm]
      exact hsw.free
    · rw [collect_report, hgone, List.length_map, List.length_map]
    · show (heap.mark roots).sweep.gone.toList.filterMap reclaimedEntity? = _
      rw [hgone, List.filterMap_map, List.filterMap_map]
      apply List.filterMap_congr
      intro g hg
      simp only [Function.comp_apply, entityAt?]
      rw [object_of_mem_pick (fun _ _ => Slot.object_of_garbage?) hg]
      rfl
  case unmarked =>
    intro i slot hi
    rw [hslot] at hi
    obtain ⟨t, ht, rfl⟩ := Option.map_eq_some_iff.1 hi
    cases hobj : t.object with
    | none => simp [Slot.swept, unmarked_of_empty hp ht hobj]
    | some o => cases p i <;> simp [Slot.swept]

/-- A collection of a heap whose marks are clear and whose accounts are right is exact. -/
theorem collectsExactly_collect (hs : heap.Slotted) (ha : heap.Accounted) (roots : List Handle) :
    CollectsExactly heap roots (heap.collect roots) := by
  obtain ⟨p, hm, hp⟩ := mark_eq hs roots
  obtain ⟨hlive, haccounted, hlen, hsize⟩ := accounts_collect ha hm
  obtain ⟨-, -, -, hacc, hthreshold⟩ := collect_heap heap roots
  have hsw := swept_sweep (heap.withMarks p)
  refine ⟨emptiesExactly_collect hs roots, ?_, ?_, ?_, ?_⟩
  · refine ⟨(heap.withMarks p).survivors.map (·.1), pairwise_pickBelow _ _ _, ?_, ?_, ?_⟩
    · intro i
      rw [mem_survivors_withMarks]
      constructor
      · rintro ⟨hset, h, rfl, hc⟩
        exact ⟨h, rfl, (marked_iff hp hc).1 hset⟩
      · rintro ⟨h, rfl, hr⟩
        exact ⟨(marked_iff hp hr.contains).2 hr, h, rfl, hr.contains⟩
    · rw [hlive, List.length_map]
    · rw [haccounted, totalSize_eq_sum, List.map_map, List.map_map]
      congr 1
      apply List.map_congr_left
      intro g hg
      have hobj := object_of_mem_pick (fun _ _ => Slot.object_of_survivor?) hg
      obtain ⟨slot, hi, ho⟩ := Option.bind_eq_some_iff.1 hobj
      simp [bytesAt, hi, Slot.bytes_of_some ho]
  · rw [collect_report, hm, hsw.kept, hsw.gone, List.length_map]
    exact hlen
  · rw [collect_report, hm, hsw.gone, haccounted]
    exact (Nat.add_comm _ _).trans hsize
  · intro hlt
    have hgrowth : (heap.mark roots).sweep.heap.growth = heap.growth := by
      rw [hm]; exact hsw.limits.2.1
    rw [hgrowth] at hthreshold
    rw [hacc] at hlt ⊢
    exact hthreshold hlt

theorem growth_collect (hs : heap.Slotted) (roots : List Handle) :
    (heap.collect roots).heap.growth = heap.growth := by
  obtain ⟨p, hm, -⟩ := mark_eq hs roots
  have hswept : (heap.mark roots).sweep.heap.growth = heap.growth := by
    rw [hm]
    exact (swept_sweep (heap.withMarks p)).limits.2.1
  unfold collect
  dsimp only
  split
  · exact hswept
  · exact hswept

/-- A collection is out of range if what it leaves and the growth are. -/
theorem overflow_collect_iff (hs : heap.Slotted) (roots : List Handle) :
    (heap.collect roots).overflow = true ↔
      sizeRange ≤ (heap.collect roots).heap.accounted + heap.growth := by
  rw [overflow_collect, growth_collect hs]

/-- A collection leaves no more than there was. -/
theorem accounted_collect_le (hs : heap.Slotted) (ha : heap.Accounted) (roots : List Handle) :
    (heap.collect roots).heap.accounted ≤ heap.accounted :=
  Nat.le.intro (collectsExactly_collect hs ha roots).bytes

/-- What is reached is found after a collection. -/
theorem get?_collect_of_reaches (hs : heap.Slotted) {h : Handle} {o : Obj}
    (ho : heap.get? h = some o) (hr : heap.Reaches roots h) :
    (heap.collect roots).heap.get? h = some o :=
  get?_eq_some_iff.2 ⟨_, (emptiesExactly_collect hs roots).kept h o ho hr, rfl, rfl⟩

/-- What is found after a collection was there before and is reached. -/
theorem get?_collect_cases (hs : heap.Slotted) {h : Handle} {o : Obj}
    (ho : (heap.collect roots).heap.get? h = some o) :
    heap.get? h = some o ∧ heap.Reaches roots h := by
  have hc := emptiesExactly_collect hs roots
  obtain ⟨slot, hslot, hg, hobj⟩ := get?_eq_some_iff.1 ho
  cases hold : heap.slots[h.index]?.bind Slot.object with
  | none =>
    rw [hc.untouched _ hold] at hslot
    rw [hslot] at hold
    simp [hobj] at hold
  | some old =>
    -- the slot was occupied, by an object that stayed or by one that went
    obtain ⟨t, ht, hto⟩ := Option.bind_eq_some_iff.1 hold
    have hget : heap.get? ⟨h.index, t.generation⟩ = some old :=
      get?_eq_some_iff.2 ⟨t, ht, rfl, hto⟩
    by_cases hr : heap.Reaches roots ⟨h.index, t.generation⟩
    · have hkept := hc.kept _ _ hget hr
      rw [hslot] at hkept
      cases hkept
      obtain ⟨index, generation⟩ := h
      simp only at hg
      subst hg
      cases hobj
      exact ⟨hget, hr⟩
    · have hemptied := hc.emptied _ _ hget hr
      rw [hslot] at hemptied
      cases hemptied
      cases hobj

/-! ### Reached heaps -/

theorem slotted_collect (hs : heap.Slotted) (roots : List Handle) :
    (heap.collect roots).heap.Slotted := by
  have hc := emptiesExactly_collect hs roots
  obtain ⟨gone, hasc, hgone, hfree, -⟩ := hc.gone
  refine ⟨?_, ?_, hc.unmarked⟩
  · intro i hi
    rw [hfree, List.mem_append] at hi
    rcases hi with hi | hi
    · obtain ⟨slot, hslot, hobj⟩ := hs.free_empty i hi
      exact ⟨slot, by rw [hc.untouched i (by rw [hslot]; exact hobj), hslot], hobj⟩
    · obtain ⟨h, rfl, hlive, hr⟩ := (hgone i).1 hi
      obtain ⟨o, ho⟩ := contains_iff.1 hlive
      exact ⟨_, hc.emptied h o ho hr, rfl⟩
  · rw [hfree, List.nodup_append]
    refine ⟨hs.free_nodup, hasc.imp Nat.ne_of_lt, ?_⟩
    rintro i hi _ hj rfl
    -- slots on the free list are empty, those of the garbage are not
    obtain ⟨slot, hslot, hobj⟩ := hs.free_empty i hi
    obtain ⟨h, hh, hlive, -⟩ := (hgone i).1 hj
    obtain ⟨t, o, ht, ho⟩ := occupied_iff.1 ⟨h, hh, hlive⟩
    rw [hslot] at ht
    cases ht
    rw [hobj] at ho
    cases ho

/-- The slots after a collection weigh what survives. -/
theorem total_collect (hm : heap.mark roots = heap.withMarks p) (weight : Slot → Nat)
    (size : Obj → Nat) (hw : ∀ slot : Slot, weight slot = (slot.object.map size).getD 0) :
    (heap.collect roots).heap.total weight =
      ((heap.withMarks p).survivors.map fun g => size g.2).sum := by
  rw [survivors, sum_pickBelow]
  apply total_congr
  intro i
  rw [getElem?_collect hm, getElem?_withMarks, Option.map_map, Option.map_map]
  congr 1
  funext slot
  obtain ⟨generation, marked, object⟩ := slot
  cases object <;> cases p i <;> simp [Slot.swept, Slot.survivor?, hw]

theorem accounted_collect (hs : heap.Slotted) (ha : heap.Accounted) (roots : List Handle) :
    (heap.collect roots).heap.Accounted := by
  obtain ⟨p, hm, -⟩ := mark_eq hs roots
  obtain ⟨hlive, haccounted, -⟩ := accounts_collect ha hm
  constructor
  · rw [hlive, total_collect hm Slot.count (fun _ => 1) fun _ => rfl]
    simp
  · rw [haccounted, total_collect hm Slot.bytes Obj.size fun _ => rfl, totalSize_eq_sum,
      List.map_map]
    rfl

theorem Change.preserves {heap' : Heap} (hc : Change heap heap') (hs : heap.Slotted)
    (ha : heap.Accounted) : heap'.Slotted ∧ heap'.Accounted := by
  cases hc with
  | alloc o => exact ⟨slotted_alloc hs o, accounted_alloc hs ha o⟩
  | free hf => exact ⟨slotted_free hs hf, accounted_free ha hf⟩
  | collect roots => exact ⟨slotted_collect hs roots, accounted_collect hs ha roots⟩
  | modify hkind => exact ⟨slotted_modify hs _ _, accounted_modify ha hkind⟩

theorem Reached.invariants (hr : heap.Reached) : heap.Slotted ∧ heap.Accounted := by
  induction hr with
  | empty threshold growth =>
    exact ⟨slotted_withThreshold threshold growth, accounted_withThreshold threshold growth⟩
  | change _ hc ih => exact hc.preserves ih.1 ih.2

/-- Only the set of live roots matters. -/
theorem collect_congr (hs : heap.Slotted) {roots' : List Handle}
    (hroots : ∀ h, heap.contains h = true → (h ∈ roots' ↔ h ∈ roots)) :
    heap.collect roots' = heap.collect roots := by
  obtain ⟨p, hm, hp⟩ := mark_eq hs roots
  obtain ⟨p', hm', hp'⟩ := mark_eq hs roots'
  have hpp : p' = p := by
    funext i
    rw [Bool.eq_iff_iff, hp, hp']
    constructor
    · rintro ⟨h, hi, hr⟩
      exact ⟨h, hi, hr.of_roots fun k hk hc => (hroots k hc).1 hk⟩
    · rintro ⟨h, hi, hr⟩
      exact ⟨h, hi, hr.of_roots fun k hk hc => (hroots k hc).2 hk⟩
  unfold collect
  rw [hm, hm', hpp]

end Heap

/-! ### The host objects -/

namespace Memory

theorem reclaimedCount_reclaim (mem : Memory) (d : EntityId) {e : EntityId}
    (he : e.index < mem.entities.size) :
    (mem.reclaim d).reclaimedCount e = mem.reclaimedCount e + if d = e then 1 else 0 := by
  have hlookup : mem.entities[e.index]? = some mem.entities[e.index] :=
    Array.getElem?_eq_getElem he
  simp only [reclaimedCount, reclaim, Array.getElem?_modify]
  by_cases hd : d = e
  · subst hd
    simp [hlookup]
  · have hi : d.index ≠ e.index := by
      intro hi
      cases d; cases e
      exact hd (congrArg EntityId.mk hi)
    simp [hi, hd]

theorem foldl_reclaim (l : List EntityId) (mem : Memory) :
    (l.foldl reclaim mem).heap = mem.heap ∧
    ∀ e : EntityId, e.index < mem.entities.size →
      (l.foldl reclaim mem).reclaimedCount e = mem.reclaimedCount e + l.count e := by
  induction l generalizing mem with
  | nil => exact ⟨rfl, fun _ _ => rfl⟩
  | cons d l ih =>
    obtain ⟨hheap, hcount⟩ := ih (mem.reclaim d)
    refine ⟨hheap, fun e he => ?_⟩
    have he' : e.index < (mem.reclaim d).entities.size := by simpa [reclaim] using he
    rw [List.foldl_cons, hcount e he', reclaimedCount_reclaim mem d he, List.count_cons]
    by_cases hd : d = e
    · subst hd
      simp
      omega
    · simp [hd]

/-- **A collection keeps exactly what the roots reach,** as `CollectsExactly` says, in whatever
order roots stand, and tells each host object once for each instance that went. -/
theorem collect_exact (mem : Memory) (hr : mem.heap.Reached) (roots : List Handle) :
    mem.heap.CollectsExactly roots (mem.collect roots).1 ∧
    (mem.collect roots).2.heap = (mem.collect roots).1.heap ∧
    (∀ e : EntityId, e.index < mem.entities.size →
      (mem.collect roots).2.reclaimedCount e =
        mem.reclaimedCount e + (mem.collect roots).1.reclaimed.count e) ∧
    ∀ roots', (∀ h, mem.heap.contains h = true → (h ∈ roots' ↔ h ∈ roots)) →
      mem.collect roots' = mem.collect roots := by
  obtain ⟨hs, ha⟩ := hr.invariants
  obtain ⟨hheap, hcount⟩ := foldl_reclaim (mem.heap.collect roots).reclaimed
    { mem with heap := (mem.heap.collect roots).heap }
  refine ⟨Heap.collectsExactly_collect hs ha roots, hheap, hcount, ?_⟩
  intro roots' hroots
  simp only [collect, Heap.collect_congr hs hroots]

/-- A class that a root holds stays, an instance of it that no root reaches goes, and the entity of
the instance is told. -/
theorem collect_exact_unheld_instance :
    let mem : Memory :=
      { heap := ((Heap.empty.alloc (.scriptClass (.ofHash 1))).2.alloc
          (.inst ⟨⟨0, 0⟩, ∅, some ⟨0⟩⟩)).2
        cells := .empty
        entities := #[⟨[], 0⟩] }
    let roots : List Handle := [⟨0, 0⟩, ⟨0, 7⟩, ⟨0, 0⟩]
    mem.heap.Reached ∧ mem.heap.CollectsExactly roots (mem.collect roots).1 ∧
      (mem.collect roots).2.reclaimedCount ⟨0⟩ = 1 := by
  intro mem roots
  have hr : mem.heap.Reached :=
    .change (.change (.empty Heap.defaultThreshold Heap.defaultGrowth) (.alloc _)) (.alloc _)
  have htold : mem.reclaimedCount ⟨0⟩ + (mem.collect roots).1.reclaimed.count ⟨0⟩ = 1 := by
    decide +kernel
  obtain ⟨hexact, -, hcount, -⟩ := collect_exact mem hr roots
  exact ⟨hr, hexact, (hcount ⟨0⟩ Nat.one_pos).trans htold⟩

end Memory
end ScriptVm
