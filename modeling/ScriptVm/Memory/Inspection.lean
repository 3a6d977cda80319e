import ScriptVm.Memory.Rendering

/-!
# Inspection

What a host sees of a value: a view with the number or the printed form at the moment, and a full
account of how the value answers every question about it.
-/

namespace ScriptVm

/-- A value as a host sees it at one moment. -/
inductive View where
  | null
  | integer (n : Int32)
  | decimal (d : Decimal)
  | linkedInteger (n : Int32)
  | linkedDecimal (d : Decimal)
  | object (h : Handle) (kind : Option Kind) (text : String)

/-- Every question that can be asked of a value, answered. -/
structure Inspection where
  isFalsey : Bool
  isNull : Bool
  isInteger : Bool
  isDecimal : Bool
  isNumber : Bool
  isLinked : Bool
  integer : Option Int32
  decimal : Option Decimal
  castInteger : Option Int32
  castDecimal : Option Decimal
  delinked : View
  kindName : String
  text : String
  formatted : String
  typeOf : String
  typeName : String

namespace Memory

/-- The value at the moment. -/
def view (mem : Memory) : Value → View
  | .null => .null
  | .integer n => .integer n
  | .decimal d => .decimal d
  | .linkedInteger l => .linkedInteger (mem.cells.integer l)
  | .linkedDecimal l => .linkedDecimal (mem.cells.decimal l)
  | .object h => .object h ((mem.heap.get? h).map Obj.kind) (mem.format (.object h))

/-- The full account of a value. -/
def inspect (mem : Memory) (v : Value) : Inspection :=
  { isFalsey := v.isFalsey mem.cells
    isNull := v.isNull
    isInteger := v.isInteger
    isDecimal := v.isDecimal
    isNumber := v.isNumber
    isLinked := v.isLinked
    integer := v.integer? mem.cells
    decimal := v.decimal? mem.cells
    castInteger := v.castInteger? mem.cells
    castDecimal := v.castDecimal? mem.cells
    delinked := mem.view (v.delink mem.cells)
    kindName := v.kindName
    text := v.text mem.cells
    formatted := mem.format v
    typeOf := mem.typeOf v
    typeName := mem.typeName v }

end Memory
end ScriptVm
