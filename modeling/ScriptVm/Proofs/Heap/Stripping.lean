import ScriptVm.Arithmetic
import ScriptVm.Memory.Inspection

/-!
# Memory without line tables

A function may carry a table of the source lines of its code. `stripped` takes the tables away from
an object, a heap or a memory.

* Whatever scripts can ask of a memory has the same answer without the tables.
* Placing, changing and collecting objects may come before the tables are taken away or after it.
-/

namespace ScriptVm

/-- The function without its line table. -/
def FunctionObject.stripped (f : FunctionObject) : FunctionObject := { f with lines := none }

/-- The object without a line table. -/
def Obj.stripped : Obj → Obj
  | .function f => .function f.stripped
  | o => o

/-- The slot with its object without a line table. -/
def Slot.stripped (slot : Slot) : Slot := { slot with object := slot.object.map Obj.stripped }

/-- The heap without line tables. -/
def Heap.stripped (heap : Heap) : Heap := { heap with slots := heap.slots.map Slot.stripped }

/-- The memory without line tables. -/
def Memory.stripped (mem : Memory) : Memory := { mem with heap := mem.heap.stripped }

namespace Obj

@[simp] theorem kind_stripped (o : Obj) : o.stripped.kind = o.kind := by cases o <;> rfl

@[simp] theorem size_stripped (o : Obj) : o.stripped.size = o.size :=
  congrArg Kind.size o.kind_stripped

@[simp] theorem children_stripped (o : Obj) : o.stripped.children = o.children := by cases o <;> rfl

@[simp] theorem stripped_stripped (o : Obj) : o.stripped.stripped = o.stripped := by cases o <;> rfl

end Obj

namespace Heap

variable {heap : Heap}

@[simp] theorem stripped_stripped (heap : Heap) : heap.stripped.stripped = heap.stripped := by
  unfold Heap.stripped
  rw [Array.map_map]
  congr 2
  funext slot
  simp [Slot.stripped, Function.comp_def]

/-! ### Lookup -/

@[simp] theorem get?_stripped (heap : Heap) (h : Handle) :
    heap.stripped.get? h = (heap.get? h).map Obj.stripped := by
  unfold Heap.get? Heap.stripped
  rw [Array.getElem?_map]
  cases heap.slots[h.index]? with
  | none => rfl
  | some slot =>
    show (if slot.generation = h.generation then slot.object.map Obj.stripped else none) = _
    dsimp only
    split <;> rfl

theorem bind_get?_stripped (heap : Heap) (h : Option Handle) :
    h.bind heap.stripped.get? = (h.bind heap.get?).map Obj.stripped := by
  cases h with
  | none => rfl
  | some h => exact heap.get?_stripped h

/-- Nothing but a function has a table to be asked for. -/
theorem read_stripped {α : Type} {g : Option Obj → α}
    (hg : ∀ o : Obj, g (some o.stripped) = g (some o))
    (heap : Heap) (h : Handle) : g (heap.stripped.get? h) = g (heap.get? h) := by
  rw [get?_stripped]
  cases heap.get? h with
  | none => rfl
  | some o => exact hg o

@[simp] theorem contains_stripped (heap : Heap) : heap.stripped.contains = heap.contains :=
  funext fun h => read_stripped (g := Option.isSome) (fun _ => rfl) heap h

@[simp] theorem string?_stripped (heap : Heap) : heap.stripped.string? = heap.string? := by
  funext h
  unfold Heap.string?
  rw [get?_stripped]
  cases heap.get? h with
  | none => rfl
  | some o => cases o <;> rfl

@[simp] theorem class?_stripped (heap : Heap) : heap.stripped.class? = heap.class? := by
  funext h
  unfold Heap.class?
  rw [get?_stripped]
  cases heap.get? h with
  | none => rfl
  | some o => cases o <;> rfl

@[simp] theorem instance?_stripped (heap : Heap) : heap.stripped.instance? = heap.instance? := by
  funext h
  unfold Heap.instance?
  rw [get?_stripped]
  cases heap.get? h with
  | none => rfl
  | some o => cases o <;> rfl

@[simp] theorem module?_stripped (heap : Heap) : heap.stripped.module? = heap.module? := by
  funext h
  unfold Heap.module?
  rw [get?_stripped]
  cases heap.get? h with
  | none => rfl
  | some o => cases o <;> rfl

@[simp] theorem native?_stripped (heap : Heap) : heap.stripped.native? = heap.native? := by
  funext h
  unfold Heap.native?
  rw [get?_stripped]
  cases heap.get? h with
  | none => rfl
  | some o => cases o <;> rfl

@[simp] theorem function?_stripped (heap : Heap) (h : Handle) :
    heap.stripped.function? h = (heap.function? h).map FunctionObject.stripped := by
  unfold Heap.function?
  rw [get?_stripped]
  cases heap.get? h with
  | none => rfl
  | some o => cases o <;> rfl

@[simp] theorem isClass_stripped (heap : Heap) : heap.stripped.isClass = heap.isClass := by
  funext h
  unfold Heap.isClass
  rw [class?_stripped]

@[simp] theorem kind?_stripped (heap : Heap) : heap.stripped.kind? = heap.kind? := by
  funext v
  unfold Heap.kind?
  cases v.object? with
  | none => rfl
  | some h =>
    exact read_stripped (g := Option.map Obj.kind) (fun o => congrArg some o.kind_stripped) heap h

@[simp] theorem text?_stripped (heap : Heap) : heap.stripped.text? = heap.text? := by
  funext v
  unfold Heap.text?
  rw [string?_stripped]

/-! ### Change -/

theorem alloc_stripped (heap : Heap) (o : Obj) :
    heap.stripped.alloc o.stripped = ((heap.alloc o).1, (heap.alloc o).2.stripped) := by
  have hgeneration : ∀ i : Nat, (heap.stripped.slots[i]?.map (·.generation)) =
      heap.slots[i]?.map (·.generation) := by
    intro i
    show ((heap.slots.map Slot.stripped)[i]?.map _) = _
    rw [Array.getElem?_map, Option.map_map]
    rfl
  have hfree : heap.stripped.freeSlots = heap.freeSlots := rfl
  unfold Heap.alloc
  rw [hfree, Obj.size_stripped]
  cases heap.freeSlots.back? with
  | none =>
    dsimp only [Heap.stripped]
    rw [Array.size_map, Array.map_push]
    rfl
  | some i =>
    dsimp only
    rw [hgeneration]
    dsimp only [Heap.stripped]
    rw [Array.map_setIfInBounds]
    rfl

theorem modify_stripped (heap : Heap) (h : Handle) {f : Obj → Obj}
    (hf : ∀ o, f o.stripped = (f o).stripped) :
    heap.stripped.modify h f = (heap.modify h f).stripped := by
  unfold Heap.modify
  dsimp only [Heap.stripped]
  congr 1
  refine Array.ext_getElem? fun i => ?_
  simp only [Array.getElem?_modify, Array.getElem?_map]
  split
  · cases heap.slots[i]? with
    | none => rfl
    | some slot =>
      refine congrArg some ?_
      show (if slot.generation = h.generation then _ else _) = _
      dsimp only [Slot.stripped]
      split
      · rw [Option.map_map, Option.map_map]
        exact congrArg (fun object => Slot.mk slot.generation slot.marked object)
          (congrArg (Option.map · slot.object) (funext hf))
      · rfl
  · rfl

theorem modifyClass_stripped (heap : Heap) (h : Handle) (f : ClassObject → ClassObject) :
    heap.stripped.modifyClass h f = (heap.modifyClass h f).stripped :=
  modify_stripped heap h fun o => by cases o <;> rfl

theorem modifyInstance_stripped (heap : Heap) (h : Handle) (f : InstanceObject → InstanceObject) :
    heap.stripped.modifyInstance h f = (heap.modifyInstance h f).stripped :=
  modify_stripped heap h fun o => by cases o <;> rfl

theorem modifyModule_stripped (heap : Heap) (h : Handle) (f : ModuleObject → ModuleObject) :
    heap.stripped.modifyModule h f = (heap.modifyModule h f).stripped :=
  modify_stripped heap h fun o => by cases o <;> rfl

theorem modifyFunction_stripped (heap : Heap) (h : Handle) {f : FunctionObject → FunctionObject}
    (hf : ∀ g, f g.stripped = (f g).stripped) :
    heap.stripped.modifyFunction h f = (heap.modifyFunction h f).stripped :=
  modify_stripped heap h fun o => by
    cases o with
    | function g => exact congrArg Obj.function (hf g)
    | _ => rfl

/-! ### Collection -/

@[simp] theorem childrenOf_stripped (heap : Heap) : heap.stripped.childrenOf = heap.childrenOf := by
  funext h
  unfold Heap.childrenOf
  rw [get?_stripped]
  cases heap.get? h with
  | none => rfl
  | some o => exact o.children_stripped

theorem setMark_stripped (heap : Heap) (i : Nat) (marked : Bool) :
    heap.stripped.setMark i marked = (heap.setMark i marked).stripped := by
  unfold Heap.setMark Heap.stripped
  congr 1
  refine Array.ext_getElem? fun j => ?_
  simp only [Array.getElem?_modify, Array.getElem?_map]
  split
  · cases heap.slots[j]? <;> rfl
  · rfl

@[simp] theorem isMarked_stripped (heap : Heap) : heap.stripped.isMarked = heap.isMarked := by
  funext i
  unfold Heap.isMarked Heap.stripped
  rw [Array.getElem?_map, Option.map_map]
  rfl

theorem gray_stripped (heap : Heap) (work : List Handle) (h : Handle) :
    gray (heap.stripped, work) h = ((gray (heap, work) h).1.stripped, (gray (heap, work) h).2) := by
  unfold gray
  dsimp only
  rw [contains_stripped, isMarked_stripped]
  split
  · rw [setMark_stripped]
  · rfl

theorem foldl_gray_stripped (hs : List Handle) (heap : Heap) (work : List Handle) :
    hs.foldl gray (heap.stripped, work) =
      ((hs.foldl gray (heap, work)).1.stripped, (hs.foldl gray (heap, work)).2) := by
  induction hs generalizing heap work with
  | nil => rfl
  | cons h rest ih =>
    rw [List.foldl_cons, List.foldl_cons, gray_stripped]
    exact ih _ _

theorem blacken_stripped (n : Nat) (heap : Heap) (work : List Handle) :
    blacken n (heap.stripped, work) = (blacken n (heap, work)).stripped := by
  induction n generalizing heap work with
  | zero => rfl
  | succ n ih =>
    cases work with
    | nil => rfl
    | cons h rest =>
      unfold blacken
      rw [childrenOf_stripped, foldl_gray_stripped]
      exact ih _ _

theorem mark_stripped (heap : Heap) (roots : List Handle) :
    heap.stripped.mark roots = (heap.mark roots).stripped := by
  have hsize : heap.stripped.slots.size = heap.slots.size := Array.size_map
  unfold Heap.mark
  rw [hsize, foldl_gray_stripped]
  exact blacken_stripped _ _ _

theorem free?_stripped (heap : Heap) (h : Handle) :
    heap.stripped.free? h = (heap.free? h).map fun r => (r.1.stripped, r.2.stripped) := by
  unfold Heap.free?
  rw [get?_stripped, Option.map_map, Option.map_map]
  refine congrArg (Option.map · _) (funext fun o => ?_)
  dsimp only [Function.comp_apply, Heap.stripped]
  rw [Obj.size_stripped, Array.map_setIfInBounds]
  rfl

end Heap

/-- The sweep without line tables. -/
def Sweep.stripped (s : Sweep) : Sweep :=
  { s with heap := s.heap.stripped, gone := s.gone.map Obj.stripped }

namespace Heap

theorem sweepAt_stripped (s : Sweep) (i : Nat) : sweepAt s.stripped i = (sweepAt s i).stripped := by
  obtain ⟨heap, gone, kept⟩ := s
  have hslot : heap.stripped.slots[i]? = heap.slots[i]?.map Slot.stripped := Array.getElem?_map
  dsimp only [Sweep.stripped, sweepAt]
  rw [hslot]
  cases heap.slots[i]? with
  | none => rfl
  | some slot =>
    obtain ⟨generation, marked, _ | o⟩ := slot
    · rfl
    · cases marked with
      | true => exact congrArg (fun heap => Sweep.mk heap _ _) (heap.setMark_stripped i false)
      | false =>
        dsimp only [Option.map_some, Slot.stripped, Bool.false_eq_true, if_false]
        rw [free?_stripped]
        cases heap.free? ⟨i, generation⟩ with
        | none => rfl
        | some r => exact congrArg (fun gone => Sweep.mk _ gone _) Array.map_push.symm

theorem sweep_stripped (heap : Heap) : heap.stripped.sweep = heap.sweep.stripped := by
  have hfold : ∀ (l : List Nat) (s : Sweep),
      l.foldl sweepAt s.stripped = (l.foldl sweepAt s).stripped := by
    intro l
    induction l with
    | nil => exact fun _ => rfl
    | cons i rest ih =>
      intro s
      rw [List.foldl_cons, List.foldl_cons, sweepAt_stripped]
      exact ih _
  have hsize : heap.stripped.slots.size = heap.slots.size := Array.size_map
  have hstart : (Sweep.mk heap #[] 0).stripped = ⟨heap.stripped, #[], 0⟩ :=
    congrArg (fun gone => Sweep.mk heap.stripped gone 0) Array.map_empty
  unfold Heap.sweep
  rw [hsize, ← hstart]
  exact hfold _ _

theorem totalSize_stripped (gone : List Obj) :
    totalSize (gone.map Obj.stripped) = totalSize gone := by
  induction gone with
  | nil => rfl
  | cons o rest ih =>
    show o.stripped.size + _ = o.size + _
    rw [Obj.size_stripped, ih]

theorem countP_kind_stripped (k : Kind) (l : List Obj) :
    (l.map Obj.stripped).countP (·.kind == k) = l.countP (·.kind == k) := by
  rw [List.countP_map]
  exact List.countP_congr fun o _ => by simp

theorem tallies_stripped (heap : Heap) (gone : List Obj) :
    heap.stripped.tallies (gone.map Obj.stripped) = heap.tallies gone := by
  have hall : heap.stripped.slots.toList.filterMap (·.object) =
      (heap.slots.toList.filterMap (·.object)).map Obj.stripped := by
    show (heap.slots.map Slot.stripped).toList.filterMap (·.object) = _
    rw [Array.toList_map, List.filterMap_map, List.map_filterMap]
    rfl
  unfold Heap.tallies
  rw [hall]
  simp only [countP_kind_stripped]

theorem reclaimed_stripped (gone : List Obj) :
    (gone.map Obj.stripped).filterMap reclaimedEntity? = gone.filterMap reclaimedEntity? := by
  rw [List.filterMap_map]
  refine congrArg (List.filterMap · gone) (funext fun o => ?_)
  cases o <;> rfl

/-- A collection removes the same objects, and all that it reports is the same. -/
theorem collect_stripped (heap : Heap) (roots : List Handle) :
    heap.stripped.collect roots =
      { heap.collect roots with heap := (heap.collect roots).heap.stripped } := by
  unfold Heap.collect
  rw [mark_stripped]
  dsimp only
  rw [sweep_stripped]
  generalize heap.mark roots = marked
  obtain ⟨swept, gone, survivors⟩ := marked.sweep
  dsimp only [Sweep.stripped]
  rw [Array.toList_map, totalSize_stripped, List.length_map, tallies_stripped, reclaimed_stripped]
  congr 1
  rw [apply_ite Heap.stripped]
  rfl

end Heap

namespace Memory

@[simp] theorem heap_stripped (mem : Memory) : mem.stripped.heap = mem.heap.stripped := rfl

@[simp] theorem cells_stripped (mem : Memory) : mem.stripped.cells = mem.cells := rfl

@[simp] theorem stripped_stripped (mem : Memory) : mem.stripped.stripped = mem.stripped :=
  congrArg (fun heap => { mem with heap }) mem.heap.stripped_stripped

/-! ### The text of values -/

@[simp] theorem nameOrHash_stripped (heap : Heap) : nameOrHash heap.stripped = nameOrHash heap := by
  funext name hash
  unfold nameOrHash
  rw [Heap.string?_stripped]

@[simp] theorem functionTitle_stripped (heap : Heap) :
    functionTitle heap.stripped = functionTitle heap := by
  funext h
  unfold functionTitle
  rw [Heap.string?_stripped, Heap.function?_stripped]
  cases heap.function? h <;> rfl

@[simp] theorem classTitle_stripped (heap : Heap) : classTitle heap.stripped = classTitle heap := by
  funext h
  unfold classTitle
  rw [Heap.class?_stripped, nameOrHash_stripped]

theorem renderObject_stripped (heap : Heap) (container : Obj → String) (nested : Bool) (h : Handle)
    (o : Obj) :
    renderObject heap.stripped container nested h o.stripped =
      renderObject heap container nested h o := by
  cases o <;> simp [renderObject, Obj.stripped]

theorem renderValue_stripped (mem : Memory) : mem.stripped.renderValue = mem.renderValue := by
  funext container nested v
  cases v with
  | object h =>
    unfold renderValue
    dsimp only [heap_stripped]
    rw [Heap.get?_stripped]
    cases mem.heap.get? h with
    | none => rfl
    | some o => exact renderObject_stripped mem.heap container nested h o
  | _ => rfl

theorem render_stripped (mem : Memory) (levels : Nat) :
    mem.stripped.render levels = mem.render levels := by
  induction levels with
  | zero =>
    unfold render
    rw [renderValue_stripped]
  | succ levels ih =>
    unfold render
    rw [renderValue_stripped, ih]

@[simp] theorem format_stripped (mem : Memory) : mem.stripped.format = mem.format := by
  funext v
  unfold Memory.format formatNested
  rw [render_stripped]

@[simp] theorem typeName_stripped (mem : Memory) : mem.stripped.typeName = mem.typeName := by
  funext v
  simp [typeName]

@[simp] theorem typeOf_stripped (mem : Memory) : mem.stripped.typeOf = mem.typeOf := by
  funext v
  cases v <;> simp [typeOf]

/-! ### Operations -/

@[simp] theorem looselyEqual_stripped (mem : Memory) :
    mem.stripped.looselyEqual = mem.looselyEqual := by
  funext a b
  unfold looselyEqual
  rw [heap_stripped, cells_stripped, Heap.bind_get?_stripped, Heap.bind_get?_stripped]
  split
  · rfl
  · generalize a.object?.bind mem.heap.get? = o, b.object?.bind mem.heap.get? = o'
    rcases o with _ | o
    · rfl
    · rcases o' with _ | o'
      · cases o <;> rfl
      · cases o <;> cases o' <;> rfl

@[simp] theorem requireNumber_stripped (mem : Memory) :
    mem.stripped.requireNumber = mem.requireNumber := by
  funext operation v
  simp [requireNumber]

@[simp] theorem applyBinary_stripped (mem : Memory) :
    mem.stripped.applyBinary = mem.applyBinary := by
  funext op a b
  simp [applyBinary]

@[simp] theorem applyUnary_stripped (mem : Memory) : mem.stripped.applyUnary = mem.applyUnary := by
  funext op a
  simp [applyUnary]

theorem alloc_stripped (mem : Memory) (o : Obj) :
    mem.stripped.alloc o.stripped = ((mem.alloc o).1, (mem.alloc o).2.stripped) := by
  unfold Memory.alloc
  show ((mem.heap.stripped.alloc o.stripped).1,
    Memory.mk (mem.heap.stripped.alloc o.stripped).2 _ _) = _
  rw [Heap.alloc_stripped]
  rfl

theorem collect_stripped (mem : Memory) (roots : List Handle) :
    mem.stripped.collect roots =
      ({ (mem.collect roots).1 with heap := (mem.collect roots).1.heap.stripped },
        (mem.collect roots).2.stripped) := by
  have hreclaim : ∀ (l : List EntityId) (mem : Memory),
      l.foldl reclaim mem.stripped = (l.foldl reclaim mem).stripped := by
    intro l
    induction l with
    | nil => exact fun _ => rfl
    | cons e rest ih => exact fun mem => ih (mem.reclaim e)
  unfold Memory.collect
  dsimp only [heap_stripped]
  rw [Heap.collect_stripped]
  exact congrArg (Prod.mk _)
    (hreclaim (mem.heap.collect roots).reclaimed { mem with heap := (mem.heap.collect roots).heap })

theorem concatenate_stripped (mem : Memory) (a b : Value) :
    mem.stripped.concatenate a b = ((mem.concatenate a b).1, (mem.concatenate a b).2.stripped) := by
  unfold concatenate
  rw [format_stripped]
  exact mem.alloc_stripped (.string (mem.format a ++ mem.format b))

end Memory
end ScriptVm
