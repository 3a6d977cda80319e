import ScriptVm.Heap

/-!
# Collection

Objects that no root reaches are removed. Marking walks from the roots through the handles that
objects hold; sweeping goes over the slots from the first to the last, empties those that are not
marked and clears the marks of the others.

* `gray` marks one object and remembers to look into it, `blacken` looks into what is remembered,
  and `mark` is both from the roots on.
* `sweepAt` is what the sweep does to one slot, `sweep` the whole of it.
* `collect` is a whole collection: the heap after it, its report, the host objects whose
  instances went away, and the counts by kind.
* A collection ends by moving the threshold. When the sum leaves the range of sizes the threshold
  and the statistics stay as they were, and `overflow` says so.
-/

namespace ScriptVm

/-- What one collection did. -/
structure CollectionReport where
  freed : Nat
  freedBytes : Nat
  survivors : Nat
deriving DecidableEq, Inhabited

/-- How many objects of a kind were removed, out of how many. -/
structure Tally where
  kind : Kind
  freed : Nat
  total : Nat
deriving DecidableEq

/-- The outcome of a collection. -/
structure Collection where
  heap : Heap
  report : CollectionReport
  reclaimed : List EntityId
  tallies : List Tally
  overflow : Bool

/-- A sweep under way: the heap so far, the objects removed so far, and how many were kept. -/
structure Sweep where
  heap : Heap
  gone : Array Obj
  kept : Nat

namespace Heap

/-- The number of distinct sizes. -/
def sizeRange : Nat := 18446744073709551616

/-- The handles held by the object of a handle. -/
def childrenOf (heap : Heap) (h : Handle) : List Handle :=
  match heap.get? h with
  | some o => o.children
  | none => []

/-! ### Marking -/

/-- Sets the mark of a slot. -/
def setMark (heap : Heap) (index : Nat) (marked : Bool) : Heap :=
  { heap with slots := heap.slots.modify index fun slot => { slot with marked } }

/-- Whether the slot of an index is marked. -/
def isMarked (heap : Heap) (index : Nat) : Bool :=
  (heap.slots[index]?.map (·.marked)).getD false

/-- Marks the object of a handle and remembers to look into it, unless the handle finds nothing or
the object is marked. -/
def gray : Heap × List Handle → Handle → Heap × List Handle
  | (heap, work), h =>
    if heap.contains h && !heap.isMarked h.index then (heap.setMark h.index true, h :: work)
    else (heap, work)

/-- Looks into remembered objects until none is left. Each slot is remembered at most once, so as
many steps as there are slots are enough. -/
def blacken : Nat → Heap × List Handle → Heap
  | 0, (heap, _) => heap
  | _ + 1, (heap, []) => heap
  | n + 1, (heap, h :: rest) => blacken n ((heap.childrenOf h).foldl gray (heap, rest))

/-- Marks what the roots reach. -/
def mark (heap : Heap) (roots : List Handle) : Heap :=
  blacken heap.slots.size (roots.foldl gray (heap, []))

/-! ### Sweeping -/

/-- Sweeps one slot: an object that is marked loses its mark, any other is removed. -/
def sweepAt : Sweep → Nat → Sweep
  | ⟨heap, gone, kept⟩, index =>
    match heap.slots[index]? with
    | some ⟨generation, marked, some _⟩ =>
      if marked then ⟨heap.setMark index false, gone, kept + 1⟩
      else
        match heap.free? ⟨index, generation⟩ with
        | some (o, heap) => ⟨heap, gone.push o, kept⟩
        | none => ⟨heap, gone, kept⟩
    | _ => ⟨heap, gone, kept⟩

/-- Sweeps all slots in order. -/
def sweep (heap : Heap) : Sweep := (List.range heap.slots.size).foldl sweepAt ⟨heap, #[], 0⟩

/-- The accounted size of some objects together. -/
def totalSize : List Obj → Nat
  | [] => 0
  | o :: rest => o.size + totalSize rest

/-- The entity of an instance that goes away. -/
def reclaimedEntity? : Obj → Option EntityId
  | .inst i => i.entity
  | _ => none

/-! ### Collecting -/

/-- The counts of the kinds that occur. -/
def tallies (heap : Heap) (gone : List Obj) : List Tally :=
  let all := heap.slots.toList.filterMap (·.object)
  (Kind.all.map fun k =>
    Tally.mk k (gone.countP (·.kind == k)) (all.countP (·.kind == k))).filter (0 < ·.total)

/-- Moves the threshold and counts the collection. -/
def account (heap : Heap) (report : CollectionReport) : Heap :=
  { heap with
    threshold := heap.accounted + heap.growth
    stats :=
      { collections := heap.stats.collections + 1
        lastFreed := report.freed
        lastFreedBytes := report.freedBytes
        totalFreed := heap.stats.totalFreed + report.freed } }

/-- Removes what the roots do not reach. -/
def collect (heap : Heap) (roots : List Handle) : Collection :=
  let marked := heap.mark roots
  let ⟨swept, gone, survivors⟩ := marked.sweep
  let gone := gone.toList
  let report : CollectionReport :=
    { freed := gone.length, freedBytes := totalSize gone, survivors }
  let overflow := decide (sizeRange ≤ swept.accounted + swept.growth)
  { heap := if overflow then swept else swept.account report
    report
    reclaimed := gone.filterMap reclaimedEntity?
    tallies := marked.tallies gone
    overflow }

end Heap

/-- The lines in which a collection reports its counts. -/
def Collection.lines (c : Collection) : List String :=
  c.tallies.map fun t => s!"Freed {t.freed} {t.kind.tag} objects out of {t.total}."

end ScriptVm
