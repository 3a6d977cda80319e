import ScriptVm.Heap.Collection

/-!
# Memory

Everything that values refer to: the heap, the host's cells, and the host's native objects.

* `Entity` is a native object: the cells it links into its instances, and how often it was told
  that an instance of it is gone.
* `Memory.collect` collects the heap and tells the entities.
-/

namespace ScriptVm

/-- A host cell of either sort. -/
inductive Link where
  | integer (l : IntegerLink)
  | decimal (l : DecimalLink)
deriving DecidableEq, Inhabited

/-- The value linked to a cell. -/
def Link.value : Link → Value
  | .integer l => .linkedInteger l
  | .decimal l => .linkedDecimal l

/-- A native object of the host. -/
structure Entity where
  fields : List (String × Link)
  reclaimed : Nat
deriving Inhabited

/-- The heap, the cells and the native objects. -/
structure Memory where
  heap : Heap
  cells : Cells
  entities : Array Entity
deriving Inhabited

namespace Memory

/-- No objects, cells or entities. -/
def ofHeap (heap : Heap) : Memory := ⟨heap, .empty, #[]⟩

/-- Places an object. -/
def alloc (mem : Memory) (o : Obj) : Handle × Memory :=
  let ⟨heap, cells, entities⟩ := mem
  let (h, heap) := heap.alloc o
  (h, ⟨heap, cells, entities⟩)

/-- Places a string. -/
def newString (mem : Memory) (s : String) : Handle × Memory := mem.alloc (.string s)

/-- Changes the heap. -/
def mapHeap (mem : Memory) (f : Heap → Heap) : Memory := { mem with heap := f mem.heap }

/-- Adds a native object. -/
def newEntity (mem : Memory) (fields : List (String × Link)) : EntityId × Memory :=
  (⟨mem.entities.size⟩, { mem with entities := mem.entities.push ⟨fields, 0⟩ })

/-- Tells an entity that its instance is gone. -/
def reclaim (mem : Memory) (e : EntityId) : Memory :=
  { mem with
    entities := mem.entities.modify e.index fun entity =>
      { entity with reclaimed := entity.reclaimed + 1 } }

/-- How often an entity was told that its instance is gone. -/
def reclaimedCount (mem : Memory) (e : EntityId) : Nat :=
  (mem.entities[e.index]?.map (·.reclaimed)).getD 0

/-- Removes what the roots do not reach and tells the entities of the instances removed. -/
def collect (mem : Memory) (roots : List Handle) : Collection × Memory :=
  let c := mem.heap.collect roots
  (c, c.reclaimed.foldl reclaim { mem with heap := c.heap })

end Memory
end ScriptVm
