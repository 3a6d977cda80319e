import Mathlib.Data.Nat.ModEq
import ScriptVm.Proofs.Heap.Representation

/-!
# Handles and generations

A slot is used again and again, and a handle tells its uses apart by the generation, a counter of 32
bits that goes round. What a handle finds is decided by the history of its slot.

* `Operation`, `operate` and `run` are the operations on a heap and their sequences.
* `timesEmptied` counts how often a run takes an object out of a slot, `latest?` is the object that
  a run placed last under a handle.
* `Dates` says what one operation does to the generation of one slot; `generationAt_run` says it of
  whole runs.
* `generational_handles` is the result.
-/

namespace ScriptVm
namespace Heap

/-- An operation on a heap. A change in place keeps the kind of the object. -/
inductive Operation where
  | alloc (o : Obj)
  | free (h : Handle)
  | collect (roots : List Handle)
  | modify (h : Handle) (f : Obj → Obj) (hf : ∀ o, (f o).kind = o.kind)

/-- The heap after an operation. -/
def operate (heap : Heap) : Operation → Heap
  | .alloc o => (heap.alloc o).2
  | .free h => (heap.release h).2
  | .collect roots => (heap.collect roots).heap
  | .modify h f _ => heap.modify h f

/-- The heap after a sequence of operations. -/
def run (heap : Heap) : List Operation → Heap
  | [] => heap
  | op :: ops => (heap.operate op).run ops

/-- Whether a slot holds an object. -/
def occupied (heap : Heap) (i : Nat) : Bool := (heap.slots[i]?.bind Slot.object).isSome

/-- Whether an operation takes the object out of a slot. -/
def empties (heap : Heap) (op : Operation) (i : Nat) : Bool :=
  heap.occupied i && !(heap.operate op).occupied i

/-- How often a run takes an object out of a slot. -/
def timesEmptied (heap : Heap) : List Operation → Nat → Nat
  | [], _ => 0
  | op :: ops, i => (heap.empties op i).toNat + (heap.operate op).timesEmptied ops i

/-- The object last placed under a handle, with the changes made to it in place, after one more
operation. -/
def Operation.latest (heap : Heap) (h : Handle) (latest : Option Obj) : Operation → Option Obj
  | .alloc o => if (heap.alloc o).1 = h then some o else latest
  | .modify k f _ => if k = h then latest.map f else latest
  | .free _ | .collect _ => latest

/-- The object that a run placed last under a handle, with the changes made to it in place since. -/
def latest? (h : Handle) (heap : Heap) (latest : Option Obj) : List Operation → Option Obj
  | [] => latest
  | op :: ops => latest? h (heap.operate op) (op.latest heap h latest) ops

variable {heap heap' : Heap} {h : Handle} {o : Obj}

/-! ### Operations lead to reached heaps -/

/-- An attempt to remove an object does nothing or removes it. -/
theorem Accounted.release_cases (ha : heap.Accounted) (h : Handle) :
    (heap.release h).2 = heap ∨ ∃ o, heap.free? h = some (o, (heap.release h).2) := by
  rw [ha.releasesExactly h]
  cases hf : heap.free? h with
  | none => exact .inl rfl
  | some r => exact .inr ⟨r.1, rfl⟩

theorem Reached.operate (hr : heap.Reached) (op : Operation) : (heap.operate op).Reached := by
  cases op with
  | alloc o => exact hr.change (.alloc o)
  | free h =>
    rcases hr.invariants.2.release_cases h with he | ⟨o, hf⟩
    · rwa [Heap.operate, he]
    · exact hr.change (.free hf)
  | collect roots => exact hr.change (.collect roots)
  | modify h f hf => exact hr.change (.modify fun o _ => hf o)

theorem Reached.run (hr : heap.Reached) (ops : List Operation) : (heap.run ops).Reached := by
  induction ops generalizing heap with
  | nil => exact hr
  | cons op ops ih => exact ih (hr.operate op)

/-! ### The generation of a slot -/

/-- The generation of a slot; a slot that is not there yet will start with the first. -/
def generationAt (heap : Heap) (i : Nat) : UInt32 := (heap.slots[i]?.map Slot.generation).getD 0

theorem contains_iff_generationAt :
    heap.contains h = true ↔
      heap.occupied h.index = true ∧ heap.generationAt h.index = h.generation := by
  rw [contains_iff]
  simp only [get?_eq_some_iff, occupied, generationAt]
  cases heap.slots[h.index]? with
  | none => simp
  | some slot => simp [Option.isSome_iff_exists, and_comm]

/-- What an operation may do to a slot: it leaves the generation and the object there, or it takes
the object out and moves the slot on to the next generation. -/
inductive Dates (heap heap' : Heap) (i : Nat) : Prop
  | stays : heap'.generationAt i = heap.generationAt i →
    (heap.occupied i = true → heap'.occupied i = true) → Dates heap heap' i
  | leaves : heap'.generationAt i = heap.generationAt i + 1 → heap.occupied i = true →
    heap'.occupied i = false → Dates heap heap' i

theorem Dates.of_slot {i : Nat} (hs : heap'.slots[i]? = heap.slots[i]?) : Dates heap heap' i :=
  .stays (by simp only [generationAt, hs]) (by simp only [occupied, hs, imp_self])

theorem dates_alloc (hs : heap.Slotted) (o : Obj) (i : Nat) : Dates heap (heap.alloc o).2 i := by
  rcases alloc_cases hs o with ⟨j, slot, -, hj, -, he⟩ | ⟨-, he⟩
  · rw [he]
    have hlt := (Array.getElem?_eq_some_iff.1 hj).1
    by_cases hi : j = i
    · subst hi
      have hgen : heap.slots[j].generation = slot.generation := by
        rw [(Array.getElem?_eq_some_iff.1 hj).2]
      exact .stays (by simp [generationAt, hlt, hgen]) (by simp [occupied, hlt])
    · exact .of_slot (by simp [hi])
  · rw [he]
    by_cases hi : i = heap.slots.size
    · subst hi
      exact .stays (by simp [generationAt]) (by simp [occupied])
    · exact .of_slot (by simp [Array.getElem?_push, hi])

theorem dates_free (hf : heap.free? h = some (o, heap')) (i : Nat) : Dates heap heap' i := by
  obtain ⟨hget, rfl⟩ := free?_eq_some hf
  by_cases hi : h.index = i
  · subst hi
    obtain ⟨hocc, hgen⟩ := contains_iff_generationAt.1 (contains_of_get? hget)
    have hlt := index_lt_of_contains (contains_of_get? hget)
    refine .leaves ?_ hocc (by simp [occupied, hlt])
    rw [hgen]
    simp [generationAt, hlt]
  · exact .of_slot (by simp [hi])

theorem dates_collect (hs : heap.Slotted) (roots : List Handle) (i : Nat) :
    Dates heap (heap.collect roots).heap i := by
  have hc := emptiesExactly_collect hs roots
  cases hold : heap.slots[i]?.bind Slot.object with
  | none => exact .of_slot (hc.untouched i hold)
  | some o =>
    -- an object was there, which the roots reach or do not reach
    obtain ⟨slot, hslot, ho⟩ := Option.bind_eq_some_iff.1 hold
    have hget : heap.get? ⟨i, slot.generation⟩ = some o :=
      get?_eq_some_iff.2 ⟨slot, hslot, rfl, ho⟩
    by_cases hr : heap.Reaches roots ⟨i, slot.generation⟩
    · have hkept : (heap.collect roots).heap.slots[i]? = some ⟨slot.generation, false, some o⟩ :=
        hc.kept ⟨i, slot.generation⟩ o hget hr
      exact .stays (by simp [generationAt, hkept, hslot]) (by simp [occupied, hkept])
    · have hgone : (heap.collect roots).heap.slots[i]? = some ⟨slot.generation + 1, false, none⟩ :=
        hc.emptied ⟨i, slot.generation⟩ o hget hr
      exact .leaves (by simp [generationAt, hgone, hslot]) (by simp [occupied, hold])
        (by simp [occupied, hgone])

theorem dates_modify (heap : Heap) (h : Handle) (f : Obj → Obj) (i : Nat) :
    Dates heap (heap.modify h f) i := by
  by_cases hi : h.index = i
  · cases hslot : heap.slots[i]? with
    | none => exact .of_slot (by simp [getElem?_modify, hslot])
    | some slot =>
      by_cases hg : slot.generation = h.generation
      · exact .stays (by simp [generationAt, getElem?_modify, hi, hslot, hg])
          (by simp [occupied, getElem?_modify, hi, hslot, hg])
      · exact .of_slot (by simp [getElem?_modify, hi, hslot, hg])
  · exact .of_slot (by simp [getElem?_modify, hi])

theorem Reached.dates (hr : heap.Reached) (op : Operation) (i : Nat) :
    Dates heap (heap.operate op) i := by
  obtain ⟨hs, ha⟩ := hr.invariants
  cases op with
  | alloc o => exact dates_alloc hs o i
  | free h =>
    rcases ha.release_cases h with he | ⟨o, hf⟩
    · exact .of_slot (by rw [Heap.operate, he])
    · exact dates_free hf i
  | collect roots => exact dates_collect hs roots i
  | modify h f _ => exact dates_modify heap h f i

/-- An operation moves a slot on to the next generation exactly if it empties it. -/
theorem generationAt_operate (hr : heap.Reached) (op : Operation) (i : Nat) :
    (heap.operate op).generationAt i =
      heap.generationAt i + UInt32.ofNat (heap.empties op i).toNat := by
  cases hr.dates op i with
  | stays hgen hocc =>
    have hkept : heap.empties op i = false := by
      cases hi : heap.occupied i with
      | false => simp [empties, hi]
      | true => simp [empties, hocc hi]
    simp [hgen, hkept]
  | leaves hgen hocc hnot =>
    have hgone : heap.empties op i = true := by simp [empties, hocc, hnot]
    simp [hgen, hgone]

/-- The generation of a slot counts how often it was emptied. -/
theorem generationAt_run (hr : heap.Reached) (ops : List Operation) (i : Nat) :
    (heap.run ops).generationAt i = heap.generationAt i +
      UInt32.ofNat (heap.timesEmptied ops i) := by
  induction ops generalizing heap with
  | nil => simp [run, timesEmptied]
  | cons op ops ih =>
    rw [run, ih (hr.operate op), generationAt_operate hr, timesEmptied, UInt32.ofNat_add,
      UInt32.add_assoc]

/-! ### The object behind a handle -/

/-- After an operation a handle finds the object placed last under it, if it did so before. -/
theorem latest_operate (hr : heap.Reached) {latest : Option Obj}
    (hl : ∀ o, heap.get? h = some o → latest = some o) (op : Operation)
    (ho : (heap.operate op).get? h = some o) : op.latest heap h latest = some o := by
  obtain ⟨hs, ha⟩ := hr.invariants
  cases op with
  | alloc p =>
    by_cases hh : (heap.alloc p).1 = h
    · have hself := get?_alloc_self hs p
      rw [hh] at hself
      simpa [Operation.latest, hh] using hself.symm.trans ho
    · rw [Heap.operate, get?_alloc_of_ne hs hh] at ho
      simpa [Operation.latest, hh] using hl o ho
  | free k =>
    rcases ha.release_cases k with he | ⟨p, hf⟩
    · rw [Heap.operate, he] at ho
      exact hl o ho
    · exact hl o (get?_of_free hf ho)
  | collect roots => exact hl o (get?_collect_cases hs ho).1
  | modify k f hf =>
    rw [Heap.operate, get?_modify] at ho
    by_cases hk : h = k
    · subst hk
      rw [if_pos rfl] at ho
      obtain ⟨p, hp, rfl⟩ := Option.map_eq_some_iff.1 ho
      simp [Operation.latest, hl p hp]
    · rw [if_neg hk] at ho
      simpa [Operation.latest, Ne.symm hk] using hl o ho

theorem latest_run (hr : heap.Reached) {latest : Option Obj}
    (hl : ∀ o, heap.get? h = some o → latest = some o) (ops : List Operation)
    (ho : (heap.run ops).get? h = some o) : latest? h heap latest ops = some o := by
  induction ops generalizing heap latest with
  | nil => exact hl o ho
  | cons op ops ih =>
    exact ih (hr.operate op) (fun p hp => latest_operate hr hl op hp) ho

/-! ### The result -/

/-- The handle of a removed object finds something again only in the same generation. -/
theorem contains_run_iff (hr : heap.Reached) (hc : heap.contains h = true)
    (later : List Operation) : (heap.run later).contains h = true ↔
      (heap.run later).occupied h.index = true ∧
        heap.timesEmptied later h.index ≡ 0 [MOD 2 ^ 32] := by
  rw [contains_iff_generationAt, generationAt_run hr, (contains_iff_generationAt.1 hc).2]
  apply and_congr_right'
  rw [UInt32.add_eq_left, ← UInt32.toNat_inj]
  simp [Nat.ModEq]

/-- **A handle finds what was placed last under it, and nothing once that is gone,** until its slot
has been emptied 2^32 times. -/
theorem generational_handles (threshold growth : Nat) (ops : List Operation) :
    let start := withThreshold threshold growth
    let heap := start.run ops
    (∀ h, heap.contains h = true ↔
      heap.occupied h.index = true ∧
        start.timesEmptied ops h.index ≡ h.generation.toNat [MOD 2 ^ 32]) ∧
    (∀ h, heap.contains h = true → heap.get? h = latest? h start none ops) ∧
    (∀ o, heap.contains (heap.alloc o).1 = false) ∧
    ∀ h, heap.contains h = true → ∀ later,
      0 < heap.timesEmptied later h.index → heap.timesEmptied later h.index < 2 ^ 32 →
      (heap.run later).contains h = false := by
  intro start heap
  have hstart : start.Reached := .empty threshold growth
  have hr : heap.Reached := hstart.run ops
  refine ⟨fun h => ?_, fun h hc => ?_, contains_alloc_fresh hr.invariants.1, ?_⟩
  · have hzero : start.generationAt h.index = 0 := by simp [start, generationAt, withThreshold]
    rw [contains_iff_generationAt, generationAt_run hstart, hzero, UInt32.zero_add]
    apply and_congr_right'
    rw [← UInt32.toNat_inj]
    simp [Nat.ModEq]
  · obtain ⟨o, ho⟩ := contains_iff.1 hc
    have hnone : ∀ o, start.get? h = some o → none = some o := by
      simp [start, withThreshold, get?]
    rw [ho, latest_run hstart hnone ops ho]
  · intro h hc later hpos hlt
    rw [← Bool.not_eq_true, contains_run_iff hr hc]
    rintro ⟨-, hmod⟩
    have hzero := Nat.eq_zero_of_dvd_of_lt (Nat.modEq_zero_iff_dvd.1 hmod) hlt
    omega

/-- A string is placed and removed, and another is placed in its slot. The old handle finds nothing,
the new one finds the second string, and a third object goes elsewhere. -/
theorem generational_handles_reuse :
    let ops : List Operation := [.alloc (.string "lamp"), .free ⟨0, 0⟩, .alloc (.string "door")]
    let heap := Heap.empty.run ops
    heap.contains ⟨0, 0⟩ = false ∧ heap.get? ⟨0, 1⟩ = latest? ⟨0, 1⟩ Heap.empty none ops ∧
      latest? ⟨0, 1⟩ Heap.empty none ops = some (.string "door") ∧
      heap.contains (heap.alloc (.string "gate")).1 = false := by
  intro ops heap
  have hfirst := generational_handles defaultThreshold defaultGrowth [.alloc (.string "lamp")]
  have hall := generational_handles defaultThreshold defaultGrowth ops
  have hpresent : (Heap.empty.run [.alloc (.string "lamp")]).contains ⟨0, 0⟩ = true := by decide
  have hreused : heap.contains ⟨0, 1⟩ = true := by decide
  have hgone := hfirst.2.2.2 ⟨0, 0⟩ hpresent [.free ⟨0, 0⟩, .alloc (.string "door")] (by decide)
    (by decide)
  exact ⟨hgone, hall.2.1 ⟨0, 1⟩ hreused, rfl, hall.2.2.1 _⟩

end Heap
end ScriptVm
