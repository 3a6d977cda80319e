import ScriptVm.Proofs.Heap.Accounts

/-!
# What a sweep does

The sweep frees while it goes over the slots. Its result is described slot by slot.

* `Slot.swept` is what becomes of one slot, `Slot.garbage?` the object that is removed from it.
* `garbage` and `survivors` are the objects to remove and to keep, with their slots, in order.
* `swept_sweep` says that the sweep turns each slot into its `swept` form, appends the slots of the
  garbage to the free list in order, and takes the garbage off the accounts.
-/

namespace ScriptVm

namespace Slot

/-- What a sweep makes of a slot. -/
def swept : Slot → Slot
  | ⟨generation, marked, some o⟩ =>
    if marked then ⟨generation, false, some o⟩ else ⟨generation + 1, false, none⟩
  | ⟨generation, marked, none⟩ => ⟨generation, marked, none⟩

/-- The object that a sweep removes from a slot. -/
def garbage? (s : Slot) : Option Obj := if s.marked then none else s.object

/-- The object that a sweep leaves in a slot. -/
def survivor? (s : Slot) : Option Obj := if s.marked then s.object else none

theorem object_of_garbage? {s : Slot} {o : Obj} (h : s.garbage? = some o) : s.object = some o := by
  unfold garbage? at h
  split at h
  · cases h
  · exact h

theorem object_of_survivor? {s : Slot} {o : Obj} (h : s.survivor? = some o) :
    s.object = some o := by
  unfold survivor? at h
  split at h
  · exact h
  · cases h

end Slot

namespace Heap

variable {heap : Heap}

/-- The objects that `pick` takes from the slots below an index, with their slots, in order. -/
def pickBelow (heap : Heap) (pick : Slot → Option Obj) (n : Nat) : List (Nat × Obj) :=
  (List.range n).filterMap fun i => (heap.slots[i]?.bind pick).map (i, ·)

section Pick

variable {pick : Slot → Option Obj} {n : Nat}

theorem pickBelow_succ (heap : Heap) (pick : Slot → Option Obj) (n : Nat) :
    heap.pickBelow pick (n + 1) =
      heap.pickBelow pick n ++ ((heap.slots[n]?.bind pick).map (n, ·)).toList := by
  simp only [pickBelow, List.range_succ, List.filterMap_append, List.filterMap_cons,
    List.filterMap_nil]
  cases heap.slots[n]?.bind pick <;> rfl

theorem pickBelow_succ_some {slot : Slot} {o : Obj} (hs : heap.slots[n]? = some slot)
    (ho : pick slot = some o) :
    heap.pickBelow pick (n + 1) = heap.pickBelow pick n ++ [(n, o)] := by
  simp [pickBelow_succ, hs, ho]

theorem pickBelow_succ_none (hs : heap.slots[n]?.bind pick = none) :
    heap.pickBelow pick (n + 1) = heap.pickBelow pick n := by
  simp [pickBelow_succ, hs]

theorem mem_pickBelow {i : Nat} {o : Obj} :
    (i, o) ∈ heap.pickBelow pick n ↔
      i < n ∧ ∃ slot, heap.slots[i]? = some slot ∧ pick slot = some o := by
  simp only [pickBelow, List.mem_filterMap, List.mem_range, Option.map_eq_some_iff,
    Option.bind_eq_some_iff, Prod.mk.injEq]
  constructor
  · rintro ⟨j, hj, p, ⟨slot, hs, hg⟩, rfl, rfl⟩
    exact ⟨hj, slot, hs, hg⟩
  · rintro ⟨hi, slot, hs, hg⟩
    exact ⟨i, hi, o, ⟨slot, hs, hg⟩, rfl, rfl⟩

/-- The slots picked from ascend. -/
theorem pairwise_pickBelow (heap : Heap) (pick : Slot → Option Obj) (n : Nat) :
    ((heap.pickBelow pick n).map (·.1)).Pairwise (· < ·) := by
  induction n with
  | zero => exact List.Pairwise.nil
  | succ n ih =>
    rw [pickBelow_succ, List.map_append, List.pairwise_append]
    refine ⟨ih, ?_, ?_⟩
    · cases heap.slots[n]?.bind pick <;> simp
    · intro a ha b hb
      obtain ⟨⟨i, o⟩, hi, rfl⟩ := List.mem_map.1 ha
      have hlt := (mem_pickBelow.1 hi).1
      have hbn : b = n := by
        cases hg : heap.slots[n]?.bind pick with
        | none => simp [hg] at hb
        | some o => simpa [hg] using hb
      omega

/-- Weighing what is picked is weighing the slots by what is picked from them. -/
theorem sum_pickBelow_take (heap : Heap) (pick : Slot → Option Obj) (weight : Obj → Nat) (n : Nat) :
    ((heap.pickBelow pick n).map fun g => weight g.2).sum =
      ((heap.slots.toList.take n).map fun slot => ((pick slot).map weight).getD 0).sum := by
  induction n with
  | zero => simp [pickBelow]
  | succ n ih =>
    rw [pickBelow_succ, List.map_append, List.sum_append, ih, List.take_add_one, List.map_append,
      List.sum_append, Array.getElem?_toList]
    cases heap.slots[n]? with
    | none => rfl
    | some slot => cases hp : pick slot <;> simp [hp]

theorem sum_pickBelow (heap : Heap) (pick : Slot → Option Obj) (weight : Obj → Nat) :
    ((heap.pickBelow pick heap.slots.size).map fun g => weight g.2).sum =
      heap.total fun slot => ((pick slot).map weight).getD 0 := by
  rw [sum_pickBelow_take, total, List.take_of_length_le (Nat.le_of_eq Array.length_toList)]

end Pick

/-- The objects to remove, with their slots. -/
def garbage (heap : Heap) : List (Nat × Obj) := heap.pickBelow Slot.garbage? heap.slots.size

/-- The objects to keep, with their slots. -/
def survivors (heap : Heap) : List (Nat × Obj) := heap.pickBelow Slot.survivor? heap.slots.size

theorem totalSize_eq_sum (l : List Obj) : totalSize l = (l.map Obj.size).sum := by
  induction l with
  | nil => rfl
  | cons o l ih => simp only [totalSize, List.map_cons, List.sum_cons, ih]

theorem totalSize_append (l m : List Obj) : totalSize (l ++ m) = totalSize l + totalSize m := by
  rw [totalSize_eq_sum, totalSize_eq_sum, totalSize_eq_sum, List.map_append, List.sum_append]

/-! ### The loop -/

/-- The state of a sweep of `heap` that has gone over the slots below `n`. -/
structure SweptTo (heap : Heap) (n : Nat) (s : Sweep) : Prop where
  slots : ∀ i, s.heap.slots[i]? =
    if i < n then heap.slots[i]?.map Slot.swept else heap.slots[i]?
  free : s.heap.freeSlots.toList =
    heap.freeSlots.toList ++ (heap.pickBelow Slot.garbage? n).map (·.1)
  live : s.heap.live = heap.live - (heap.pickBelow Slot.garbage? n).length
  accounted : s.heap.accounted =
    heap.accounted - totalSize ((heap.pickBelow Slot.garbage? n).map (·.2))
  limits : s.heap.threshold = heap.threshold ∧ s.heap.growth = heap.growth ∧
    s.heap.stats = heap.stats
  gone : s.gone.toList = (heap.pickBelow Slot.garbage? n).map (·.2)
  kept : s.kept = (heap.pickBelow Slot.survivor? n).length

section Loop

variable {n : Nat} {s : Sweep}

/-- The slot that comes next is as it was. -/
theorem SweptTo.getElem?_next (hs : SweptTo heap n s) : s.heap.slots[n]? = heap.slots[n]? := by
  rw [hs.slots, if_neg (Nat.lt_irrefl n)]

/-- Going over slot `n` leaves the others as they are. -/
theorem SweptTo.slots_succ (hs : SweptTo heap n s) {next : Heap}
    (hother : ∀ i, i ≠ n → next.slots[i]? = s.heap.slots[i]?)
    (hswept : next.slots[n]? = heap.slots[n]?.map Slot.swept) (i : Nat) :
    next.slots[i]? = if i < n + 1 then heap.slots[i]?.map Slot.swept else heap.slots[i]? := by
  by_cases hi : i = n
  · subst hi
    rw [hswept, if_pos (Nat.lt_succ_self i)]
  · rw [hother i hi, hs.slots]
    by_cases hlt : i < n
    · rw [if_pos hlt, if_pos (by omega)]
    · rw [if_neg hlt, if_neg (by omega)]

/-- A slot from which nothing is taken and in which nothing is kept stays as it is. -/
theorem SweptTo.skip (hs : SweptTo heap n s)
    (hswept : heap.slots[n]?.map Slot.swept = heap.slots[n]?)
    (hgarbage : heap.slots[n]?.bind Slot.garbage? = none)
    (hsurvivor : heap.slots[n]?.bind Slot.survivor? = none) : SweptTo heap (n + 1) s := by
  refine ⟨hs.slots_succ (fun _ _ => rfl) (hs.getElem?_next.trans hswept.symm), ?_, ?_, ?_,
    hs.limits, ?_, (pickBelow_succ_none hsurvivor).symm ▸ hs.kept⟩
  all_goals rw [pickBelow_succ_none hgarbage]
  exacts [hs.free, hs.live, hs.accounted, hs.gone]

/-- An object that is marked stays. -/
theorem SweptTo.keep (hs : SweptTo heap n s) {generation : UInt32} {o : Obj}
    (hslot : heap.slots[n]? = some ⟨generation, true, some o⟩) :
    SweptTo heap (n + 1) ⟨s.heap.setMark n false, s.gone, s.kept + 1⟩ := by
  have hgarbage : heap.slots[n]?.bind Slot.garbage? = none := by rw [hslot]; rfl
  refine ⟨hs.slots_succ (fun i hi => ?_) ?_, ?_, ?_, ?_, hs.limits, ?_, ?_⟩
  · simp only [setMark, Array.getElem?_modify, if_neg (Ne.symm hi)]
  · simp only [setMark, Array.getElem?_modify, if_true, hs.getElem?_next, hslot]
    rfl
  · rw [pickBelow_succ_none hgarbage]; exact hs.free
  · rw [pickBelow_succ_none hgarbage]; exact hs.live
  · rw [pickBelow_succ_none hgarbage]; exact hs.accounted
  · rw [pickBelow_succ_none hgarbage]; exact hs.gone
  · rw [pickBelow_succ_some hslot rfl, List.length_append, ← hs.kept]
    rfl

/-- An object that is not marked is removed. -/
theorem SweptTo.remove (hs : SweptTo heap n s) {generation : UInt32} {o : Obj} {next : Heap}
    (hslot : heap.slots[n]? = some ⟨generation, false, some o⟩)
    (hfree : s.heap.free? ⟨n, generation⟩ = some (o, next)) :
    SweptTo heap (n + 1) ⟨next, s.gone.push o, s.kept⟩ := by
  obtain ⟨hget, rfl⟩ := free?_eq_some hfree
  have hlt : n < s.heap.slots.size := index_lt_of_contains (contains_of_get? hget)
  have hgarbage : heap.pickBelow Slot.garbage? (n + 1) =
      heap.pickBelow Slot.garbage? n ++ [(n, o)] := pickBelow_succ_some hslot rfl
  refine ⟨hs.slots_succ (fun i hi => ?_) ?_, ?_, ?_, ?_, hs.limits, ?_, ?_⟩
  · simp only [Array.getElem?_setIfInBounds, if_neg (Ne.symm hi)]
  · simp only [Array.getElem?_setIfInBounds, if_true, hlt, hslot]
    rfl
  · rw [hgarbage, Array.toList_push, List.map_append, ← List.append_assoc, ← hs.free]
    rfl
  · rw [hgarbage, List.length_append, ← Nat.sub_sub, ← hs.live]
    rfl
  · rw [hgarbage, List.map_append, totalSize_append, ← Nat.sub_sub, ← hs.accounted]
    rfl
  · rw [hgarbage, Array.toList_push, List.map_append, ← hs.gone]
    rfl
  · rw [pickBelow_succ_none (by rw [hslot]; rfl)]
    exact hs.kept

/-- Sweeping slot `n` takes the loop from `n` to `n + 1`. -/
theorem sweptTo_succ (hs : SweptTo heap n s) : SweptTo heap (n + 1) (sweepAt s n) := by
  have hn := hs.getElem?_next
  obtain ⟨cur, gone, kept⟩ := s
  dsimp only at hn
  cases hslot : heap.slots[n]? with
  | none =>
    have hstep : sweepAt ⟨cur, gone, kept⟩ n = ⟨cur, gone, kept⟩ := by
      simp only [sweepAt, hn, hslot]
    rw [hstep]
    exact hs.skip (by rw [hslot]; rfl) (by rw [hslot]; rfl) (by rw [hslot]; rfl)
  | some slot =>
    obtain ⟨generation, marked, object⟩ := slot
    cases object with
    | none =>
      have hstep : sweepAt ⟨cur, gone, kept⟩ n = ⟨cur, gone, kept⟩ := by
        simp only [sweepAt, hn, hslot]
      rw [hstep]
      exact hs.skip (by rw [hslot]; rfl) (by rw [hslot]; cases marked <;> rfl)
        (by rw [hslot]; cases marked <;> rfl)
    | some o =>
      cases marked with
      | true =>
        have hstep : sweepAt ⟨cur, gone, kept⟩ n = ⟨cur.setMark n false, gone, kept + 1⟩ := by
          simp only [sweepAt, hn, hslot, if_true]
        rw [hstep]
        exact hs.keep hslot
      | false =>
        have hget : cur.get? ⟨n, generation⟩ = some o :=
          get?_eq_some_iff.2 ⟨_, hn.trans hslot, rfl, rfl⟩
        obtain ⟨next, hfree⟩ : ∃ next, cur.free? ⟨n, generation⟩ = some (o, next) :=
          ⟨_, Option.map_eq_some_iff.2 ⟨o, hget, rfl⟩⟩
        have hstep : sweepAt ⟨cur, gone, kept⟩ n = ⟨next, gone.push o, kept⟩ := by
          simp only [sweepAt, hn, hslot, hfree, Bool.false_eq_true, if_false]
        rw [hstep]
        exact hs.remove hslot hfree

end Loop

/-- A sweep of the slots below an index. -/
theorem sweptTo_foldl (heap : Heap) (n : Nat) :
    SweptTo heap n ((List.range n).foldl sweepAt ⟨heap, #[], 0⟩) := by
  induction n with
  | zero => constructor <;> simp [pickBelow, totalSize]
  | succ n ih =>
    rw [List.range_succ, List.foldl_append, List.foldl_cons, List.foldl_nil]
    exact sweptTo_succ ih

theorem swept_sweep (heap : Heap) : SweptTo heap heap.slots.size heap.sweep :=
  sweptTo_foldl heap heap.slots.size

/-! ### Garbage and survivors together -/

/-- Every object is garbage or a survivor. -/
theorem length_garbage_add_survivors (heap : Heap) :
    heap.garbage.length + heap.survivors.length = heap.total Slot.count := by
  have hweigh (pick : Slot → Option Obj) := sum_pickBelow heap pick fun _ => 1
  simp only [List.map_const', List.sum_replicate_nat, Nat.mul_one] at hweigh
  rw [garbage, survivors, hweigh, hweigh, total, total, total, ← List.sum_map_add]
  congr 1
  apply List.map_congr_left
  rintro ⟨generation, marked, object⟩ -
  cases marked <;> cases object <;> rfl

theorem totalSize_garbage_add_survivors (heap : Heap) :
    totalSize (heap.garbage.map (·.2)) + totalSize (heap.survivors.map (·.2)) =
      heap.total Slot.bytes := by
  have hweigh (pick : Slot → Option Obj) := sum_pickBelow heap pick Obj.size
  rw [totalSize_eq_sum, totalSize_eq_sum, List.map_map, List.map_map, garbage, survivors]
  rw [show (Obj.size ∘ fun g : Nat × Obj => g.2) = fun g => g.2.size from rfl, hweigh, hweigh,
    total, total, total, ← List.sum_map_add]
  congr 1
  apply List.map_congr_left
  rintro ⟨generation, marked, object⟩ -
  cases marked <;> cases object <;> simp [Slot.garbage?, Slot.survivor?, Slot.bytes]

end Heap
end ScriptVm
