import Mathlib.Algebra.BigOperators.Ring.List
import Mathlib.Algebra.Order.BigOperators.Group.List
import Mathlib.Algebra.Order.Group.Nat
import ScriptVm.Proofs.Heap.Generations

/-!
# The arithmetic of a heap

The accounts of a heap, the tallies of its collections and their statistics are sizes. Each
operation computes some of them anew, and what it computes has to be a size as well.

* `results` are the sums and differences that an operation takes, one by one; `InRange` says that
  all of them are sizes.
* `RoomFor` is what that takes. Only a collection needs any: for its next threshold and for
  the statistics.
* `inRange_iff` is the result for a heap whose objects can be counted with 32 bits.
  `Reached.stats_run_le` says that the statistics grow by no more than the number of
  operations of a run.
-/

namespace ScriptVm

theorem Kind.size_le (k : Kind) : k.size ≤ 160 := by cases k <;> decide

theorem Slot.bytes_le (s : Slot) : s.bytes ≤ 160 * s.count := by
  cases ho : s.object with
  | none => rw [bytes_of_none ho, count_of_none ho]
  | some o =>
    rw [bytes_of_some ho, count_of_some ho]
    exact o.kind.size_le

namespace Heap

variable {heap : Heap} {roots : List Handle} {h : Handle} {o : Obj} {n : Nat}

/-! ### What operations compute -/

/-- The sums that placing an object takes. -/
def allocSums (heap : Heap) (o : Obj) : List Int := [heap.accounted + o.size, heap.live + 1]

/-- The differences that removing the object of a handle takes. -/
def freeDifferences (heap : Heap) (h : Handle) : List Int :=
  match heap.get? h with
  | some o => [heap.live - 1, heap.accounted - o.size]
  | none => []

/-- What a collection computes when its sweep comes to a slot: the number of objects of that kind so
far, and then the number of objects kept, or all that removing the object changes. -/
def sweepResults (heap : Heap) (roots : List Handle) (i : Nat) : List Int :=
  let s := heap.sweptBelow roots i
  match s.heap.slots[i]? with
  | some ⟨generation, marked, some o⟩ =>
    let seen := ((heap.mark roots).pickBelow Slot.object i).countP (·.2.kind == o.kind)
    if marked then [seen + 1, s.kept + 1]
    else
      let report : List Int := [s.gone.size + 1, totalSize s.gone.toList + o.size]
      (seen + 1 : Int) :: (s.gone.toList.countP (·.kind == o.kind) + 1 : Int) ::
        s.heap.freeDifferences ⟨i, generation⟩ ++ report
  | _ => []

/-- The sums that the end of a collection takes: the next threshold and the statistics. -/
def closingSums (heap : Heap) (roots : List Handle) : List Int :=
  let c := heap.collect roots
  [c.heap.accounted + c.heap.growth, heap.stats.collections + 1,
    heap.stats.totalFreed + c.report.freed]

/-- The sums and differences that an operation takes. -/
def results (heap : Heap) : Operation → List Int
  | .alloc o => heap.allocSums o
  | .free h => heap.freeDifferences h
  | .collect roots =>
    (List.range (heap.mark roots).slots.size).flatMap (heap.sweepResults roots) ++
      heap.closingSums roots
  | .modify .. => []

/-- A number is a size. -/
def IsSize (x : Int) : Prop := 0 ≤ x ∧ x < sizeRange

/-- All that an operation computes are sizes. -/
def InRange (heap : Heap) (op : Operation) : Prop := ∀ x ∈ heap.results op, IsSize x

/-- The next threshold and the statistics of a collection are sizes. -/
def RoomFor (heap : Heap) : Operation → Prop
  | .collect roots =>
    (heap.collect roots).heap.accounted + heap.growth < sizeRange ∧
      heap.stats.collections + 1 < sizeRange ∧
      heap.stats.totalFreed + (heap.collect roots).report.freed < sizeRange
  | _ => True

/-! ### The accounts -/

theorem isSize_add {a b : Nat} : IsSize (a + b) ↔ a + b < sizeRange := by
  unfold IsSize
  omega

theorem isSize_add_one {a : Nat} : IsSize (a + 1) ↔ a + 1 < sizeRange := isSize_add

/-- No object is accounted with more than 160 bytes. -/
theorem Accounted.accounted_le (ha : heap.Accounted) : heap.accounted ≤ 160 * heap.live := by
  rw [ha.accounted, ha.live, total, total, ← List.sum_map_mul_left]
  exact List.sum_le_sum fun s _ => s.bytes_le

/-- What is picked from the slots below an index weighs no more than all objects. -/
theorem sum_pickBelow_le {pick : Slot → Option Obj}
    (hpick : ∀ slot o, pick slot = some o → slot.object = some o) (weight : Obj → Nat) :
    ((heap.pickBelow pick n).map fun g => weight g.2).sum ≤
      heap.total fun slot => (slot.object.map weight).getD 0 := by
  rw [sum_pickBelow_take]
  calc ((heap.slots.toList.take n).map fun slot => ((pick slot).map weight).getD 0).sum
      ≤ ((heap.slots.toList.take n).map fun slot => (slot.object.map weight).getD 0).sum := by
        refine List.sum_le_sum fun slot _ => ?_
        cases hp : pick slot with
        | none => exact Nat.zero_le _
        | some o => rw [hpick slot o hp]
    _ ≤ _ := ((List.take_sublist n _).map _).sum_le_sum fun _ _ => Nat.zero_le _

theorem Accounted.length_pickBelow_le (ha : heap.Accounted) {pick : Slot → Option Obj}
    (hpick : ∀ slot o, pick slot = some o → slot.object = some o) :
    (heap.pickBelow pick n).length ≤ heap.live := by
  calc (heap.pickBelow pick n).length = ((heap.pickBelow pick n).map fun _ => 1).sum := by
        rw [List.map_const', List.sum_replicate_nat, Nat.mul_one]
    _ ≤ heap.total Slot.count := sum_pickBelow_le hpick fun _ => 1
    _ = heap.live := ha.live.symm

theorem Accounted.totalSize_pickBelow_le (ha : heap.Accounted) {pick : Slot → Option Obj}
    (hpick : ∀ slot o, pick slot = some o → slot.object = some o) :
    totalSize ((heap.pickBelow pick n).map (·.2)) ≤ heap.accounted := by
  calc totalSize ((heap.pickBelow pick n).map (·.2))
      = ((heap.pickBelow pick n).map fun g => g.2.size).sum := by
        rw [totalSize_eq_sum, List.map_map]
        rfl
    _ ≤ heap.total Slot.bytes := sum_pickBelow_le hpick Obj.size
    _ = heap.accounted := ha.accounted.symm

theorem live_mark (hs : heap.Slotted) (roots : List Handle) :
    (heap.mark roots).live = heap.live := by
  obtain ⟨p, hm, -⟩ := mark_eq hs roots
  rw [hm]
  rfl

/-! ### Removing an object -/

theorem Accounted.isSize_freeDifferences (ha : heap.Accounted) (hlive : heap.live < 2 ^ 32) :
    ∀ x ∈ heap.freeDifferences h, IsSize x := by
  unfold freeDifferences
  cases ho : heap.get? h with
  | none => exact fun _ hx => absurd hx List.not_mem_nil
  | some o =>
    obtain ⟨hcount, hbytes⟩ := ha.le_of_get? ho
    have htotal := ha.accounted_le
    simp only [List.forall_mem_cons, IsSize, sizeRange]
    refine ⟨⟨?_, ?_⟩, ⟨?_, ?_⟩, fun _ hx => absurd hx List.not_mem_nil⟩ <;> omega

/-! ### Sweeping -/

/-- While a heap is swept, what is counted are objects of the heap. -/
theorem isSize_sweepResults (hs : heap.Slotted) (ha : heap.Accounted) (hlive : heap.live < 2 ^ 32)
    (i : Nat) :
    ∀ x ∈ heap.sweepResults roots i, IsSize x := by
  have hmarked := accounted_mark hs ha roots
  have hsame := live_mark hs roots
  have hswept : SweptTo (heap.mark roots) i (heap.sweptBelow roots i) := sweptTo_foldl _ i
  have haccounted := accounted_sweptBelow hs ha roots i
  have hbytes := hmarked.accounted_le
  have hseen (k : Kind) : ((heap.mark roots).pickBelow Slot.object i).countP (·.2.kind == k) ≤
      heap.live :=
    List.countP_le_length.trans (hsame ▸ hmarked.length_pickBelow_le fun _ _ => id)
  have hgone : (heap.sweptBelow roots i).gone.toList.length ≤ heap.live := by
    rw [hswept.gone, List.length_map, ← hsame]
    exact hmarked.length_pickBelow_le fun _ _ => Slot.object_of_garbage?
  have hkept : (heap.sweptBelow roots i).kept ≤ heap.live := by
    rw [hswept.kept, ← hsame]
    exact hmarked.length_pickBelow_le fun _ _ => Slot.object_of_survivor?
  have hsize : totalSize (heap.sweptBelow roots i).gone.toList ≤ (heap.mark roots).accounted := by
    rw [hswept.gone]
    exact hmarked.totalSize_pickBelow_le fun _ _ => Slot.object_of_garbage?
  have hleft : (heap.sweptBelow roots i).heap.live < 2 ^ 32 := by
    rw [hswept.live, hsame]
    omega
  have hcounted {x : Nat} (hx : x ≤ heap.live) : IsSize (x + 1) := by
    rw [isSize_add_one, sizeRange]
    omega
  unfold sweepResults
  dsimp only
  split
  · rename_i o hslot
    split
    · simp only [List.forall_mem_cons]
      exact ⟨hcounted (hseen o.kind), hcounted hkept, fun _ hx => absurd hx List.not_mem_nil⟩
    · have hkind := List.countP_le_length (p := fun p : Obj => p.kind == o.kind)
        (l := (heap.sweptBelow roots i).gone.toList)
      have hremoved : IsSize (totalSize (heap.sweptBelow roots i).gone.toList + o.size) := by
        have hobject : o.size ≤ 160 := o.kind.size_le
        rw [isSize_add, sizeRange]
        omega
      simp only [List.cons_append, List.forall_mem_cons, List.forall_mem_append]
      refine ⟨hcounted (hseen o.kind), hcounted (hkind.trans hgone),
        haccounted.isSize_freeDifferences hleft, hcounted ?_, hremoved, fun _ hx =>
          absurd hx List.not_mem_nil⟩
      rwa [← Array.length_toList]
  · exact fun _ hx => absurd hx List.not_mem_nil

theorem isSize_closingSums_iff (hs : heap.Slotted) :
    (∀ x ∈ heap.closingSums roots, IsSize x) ↔ heap.RoomFor (.collect roots) := by
  simp only [closingSums, List.forall_mem_cons, growth_collect hs, RoomFor, isSize_add,
    isSize_add_one, List.not_mem_nil, false_imp_iff, implies_true, and_true]

/-! ### The result -/

/-- **Collections need room for their next threshold and their statistics, and no other arithmetic
of a heap leaves the range of sizes.** -/
theorem inRange_iff (hs : heap.Slotted) (ha : heap.Accounted) (hlive : heap.live < 2 ^ 32)
    (op : Operation) : heap.InRange op ↔ heap.RoomFor op := by
  cases op with
  | alloc o =>
    have hbytes := ha.accounted_le
    have hobject : o.size ≤ 160 := o.kind.size_le
    refine iff_of_true ?_ trivial
    simp only [InRange, results, allocSums, List.forall_mem_cons, isSize_add, isSize_add_one,
      sizeRange]
    exact ⟨by omega, by omega, fun _ hx => absurd hx List.not_mem_nil⟩
  | free h => exact iff_of_true (ha.isSize_freeDifferences hlive) trivial
  | modify h f hf => exact iff_of_true (fun _ hx => absurd hx List.not_mem_nil) trivial
  | collect roots =>
    simp only [InRange, results, List.forall_mem_append, List.forall_mem_flatMap]
    rw [isSize_closingSums_iff hs]
    exact and_iff_right fun i _ => isSize_sweepResults hs ha hlive i

/-! ### Statistics of a run -/

/-- What a collection reports as freed is what the count lost. -/
theorem live_collect (hs : heap.Slotted) (ha : heap.Accounted) (roots : List Handle) :
    (heap.collect roots).heap.live + (heap.collect roots).report.freed = heap.live := by
  obtain ⟨p, hm, -⟩ := mark_eq hs roots
  obtain ⟨hlive, -, hcount, -⟩ := accounts_collect ha hm
  rw [collect_report, hlive, hm, (swept_sweep _).gone, List.length_map]
  exact (Nat.add_comm _ _).trans hcount

/-- A collection is counted with what it frees, or its threshold is out of range and it is not. -/
theorem stats_collect (hs : heap.Slotted) (roots : List Handle) :
    (heap.collect roots).heap.stats = heap.stats ∨
      (heap.collect roots).heap.stats.collections = heap.stats.collections + 1 ∧
      (heap.collect roots).heap.stats.totalFreed =
        heap.stats.totalFreed + (heap.collect roots).report.freed := by
  obtain ⟨p, hm, -⟩ := mark_eq hs roots
  have hswept : (heap.mark roots).sweep.heap.stats = heap.stats := by
    rw [hm]
    exact (swept_sweep (heap.withMarks p)).limits.2.2
  rw [← hswept]
  unfold collect
  dsimp only
  split
  · exact .inl rfl
  · exact .inr ⟨rfl, rfl⟩

theorem limits_alloc (heap : Heap) (o : Obj) :
    (heap.alloc o).2.growth = heap.growth ∧ (heap.alloc o).2.stats = heap.stats ∧
      (heap.alloc o).2.live = heap.live + 1 := by
  unfold alloc
  split <;> exact ⟨rfl, rfl, rfl⟩

theorem limits_release (heap : Heap) (h : Handle) :
    (heap.release h).2.growth = heap.growth ∧ (heap.release h).2.stats = heap.stats ∧
      (heap.release h).2.live ≤ heap.live := by
  unfold release
  split
  · exact ⟨rfl, rfl, Nat.le_refl _⟩
  · dsimp only
    split
    · exact ⟨rfl, rfl, Nat.le_refl _⟩
    · split <;> exact ⟨rfl, rfl, Nat.sub_le _ _⟩

theorem Reached.growth_operate (hr : heap.Reached) (op : Operation) :
    (heap.operate op).growth = heap.growth := by
  cases op with
  | alloc o => exact (heap.limits_alloc o).1
  | free h => exact (heap.limits_release h).1
  | modify h f hf => rfl
  | collect roots => exact growth_collect hr.invariants.1 roots

theorem Reached.growth_run (hr : heap.Reached) (ops : List Operation) :
    (heap.run ops).growth = heap.growth := by
  induction ops generalizing heap with
  | nil => rfl
  | cons op ops ih => exact (ih (hr.operate op)).trans (hr.growth_operate op)

/-- An operation counts one collection at most, and what it frees was there or is one new object. -/
theorem Reached.stats_operate_le (hr : heap.Reached) (op : Operation) :
    (heap.operate op).stats.collections ≤ heap.stats.collections + 1 ∧
      (heap.operate op).stats.totalFreed + (heap.operate op).live ≤ heap.stats.totalFreed +
        heap.live + 1 := by
  obtain ⟨hs, ha⟩ := hr.invariants
  cases op with
  | alloc o =>
    obtain ⟨-, hstats, hlive⟩ := heap.limits_alloc o
    rw [Heap.operate, hstats, hlive]
    omega
  | free h =>
    obtain ⟨-, hstats, hlive⟩ := heap.limits_release h
    rw [Heap.operate, hstats]
    omega
  | modify h f hf => exact ⟨Nat.le_succ _, Nat.le_succ _⟩
  | collect roots =>
    have hlive := live_collect hs ha roots
    rw [Heap.operate]
    rcases stats_collect hs roots with hstats | ⟨hcollections, hfreed⟩
    · rw [hstats]
      omega
    · omega

/-- The statistics grow by no more than the number of operations of a run. -/
theorem Reached.stats_run_le (hr : heap.Reached) (ops : List Operation) :
    (heap.run ops).stats.collections ≤ heap.stats.collections + ops.length ∧
      (heap.run ops).stats.totalFreed + (heap.run ops).live ≤
        heap.stats.totalFreed + heap.live + ops.length := by
  induction ops generalizing heap with
  | nil => exact ⟨Nat.le_refl _, Nat.le_refl _⟩
  | cons op ops ih =>
    obtain ⟨hcollections, hfreed⟩ := hr.stats_operate_le op
    obtain ⟨hcollections', hfreed'⟩ := ih (hr.operate op)
    rw [List.length_cons, Heap.run]
    omega

end Heap
end ScriptVm
