import ScriptVm.Decimal.Numeral

/-!
# Values

What scripts compute with. A linked value stands for a number that lives in the host: reading it
reads the host's cell, so the functions that need the number take the cells.

* `Handle` names an object of the heap; `IntegerLink` and `DecimalLink` name host cells.
* `Cells` are the host's numbers.
* `Value.equals` compares numbers through links, `Value.identical` tells links apart.
* `Value.delink` is the plain value that a linked value stands for at the moment.
-/

namespace ScriptVm

/-- Names an object: a slot of the heap and how often the slot had been emptied. -/
structure Handle where
  index : Nat
  generation : UInt32
deriving DecidableEq, Inhabited

namespace Handle

/-- The short form of a handle. -/
def text (h : Handle) : String := s!"#{h.index}v{h.generation.toNat}"

/-- The form of a handle in debugging output. -/
def debugText (h : Handle) : String :=
  s!"ObjHandle \x7b index: {h.index}, generation: {h.generation.toNat} \x7d"

end Handle

/-- Names a host integer. -/
structure IntegerLink where
  cell : Nat
deriving DecidableEq, Inhabited

/-- Names a host decimal. -/
structure DecimalLink where
  cell : Nat
deriving DecidableEq, Inhabited

/-- The numbers of the host that scripts may be linked to. -/
structure Cells where
  integers : Array Int32
  decimals : Array Decimal
deriving DecidableEq, Inhabited

namespace Cells

/-- No cells. -/
def empty : Cells := ⟨#[], #[]⟩

/-- Adds an integer cell. -/
def newInteger (c : Cells) (n : Int32) : IntegerLink × Cells :=
  (⟨c.integers.size⟩, { c with integers := c.integers.push n })

/-- Adds a decimal cell. -/
def newDecimal (c : Cells) (d : Decimal) : DecimalLink × Cells :=
  (⟨c.decimals.size⟩, { c with decimals := c.decimals.push d })

/-- Reads an integer cell. -/
def integer (c : Cells) (l : IntegerLink) : Int32 := c.integers[l.cell]?.getD 0

/-- Reads a decimal cell. -/
def decimal (c : Cells) (l : DecimalLink) : Decimal := c.decimals[l.cell]?.getD (.zero false)

/-- Writes an integer cell. -/
def setInteger (c : Cells) (l : IntegerLink) (n : Int32) : Cells :=
  { c with integers := c.integers.setIfInBounds l.cell n }

/-- Writes a decimal cell. -/
def setDecimal (c : Cells) (l : DecimalLink) (d : Decimal) : Cells :=
  { c with decimals := c.decimals.setIfInBounds l.cell d }

end Cells

/-- A script value. -/
inductive Value where
  | null
  | integer (n : Int32)
  | decimal (d : Decimal)
  | object (h : Handle)
  | linkedInteger (l : IntegerLink)
  | linkedDecimal (l : DecimalLink)
deriving DecidableEq, Inhabited

namespace Value

/-- The integer one or zero. -/
def ofBool (b : Bool) : Value := .integer (if b then 1 else 0)

/-- Whether the value is null. -/
def isNull : Value → Bool
  | .null => true
  | _ => false

/-- Whether the value is an integer, plain or linked. -/
def isInteger : Value → Bool
  | .integer _ | .linkedInteger _ => true
  | _ => false

/-- Whether the value is a decimal, plain or linked. -/
def isDecimal : Value → Bool
  | .decimal _ | .linkedDecimal _ => true
  | _ => false

/-- Whether the value is a number. -/
def isNumber (v : Value) : Bool := v.isInteger || v.isDecimal

/-- Whether the value is linked. -/
def isLinked : Value → Bool
  | .linkedInteger _ | .linkedDecimal _ => true
  | _ => false

/-- The handle of an object. -/
def object? : Value → Option Handle
  | .object h => some h
  | _ => none

/-- The integer that the value is or is linked to. -/
def integer? (cells : Cells) : Value → Option Int32
  | .integer n => some n
  | .linkedInteger l => some (cells.integer l)
  | _ => none

/-- The decimal that the value is or is linked to. -/
def decimal? (cells : Cells) : Value → Option Decimal
  | .decimal d => some d
  | .linkedDecimal l => some (cells.decimal l)
  | _ => none

/-- Null and the zeros count as false. -/
def isFalsey (cells : Cells) : Value → Bool
  | .null => true
  | .integer n => n == 0
  | .decimal d => d.isZero
  | .object _ => false
  | .linkedInteger l => cells.integer l == 0
  | .linkedDecimal l => (cells.decimal l).isZero

/-- Equality that reads through links and keeps integers and decimals apart. -/
def equals (cells : Cells) (a b : Value) : Bool :=
  match a, b with
  | .null, .null => true
  | .object x, .object y => x == y
  | a, b =>
    match a.integer? cells, b.integer? cells, a.decimal? cells, b.decimal? cells with
    | some x, some y, _, _ => x == y
    | _, _, some x, some y => x.eq y
    | _, _, _, _ => false

/-- Equality that reads no link: two linked values are identical if they share their cell. -/
def identical : Value → Value → Bool
  | .null, .null => true
  | .integer a, .integer b => a == b
  | .decimal a, .decimal b => a.eq b
  | .object a, .object b => a == b
  | .linkedInteger a, .linkedInteger b => a == b
  | .linkedDecimal a, .linkedDecimal b => a == b
  | _, _ => false

/-- A number as an integer; decimals are cut toward zero. -/
def castInteger? (cells : Cells) : Value → Option Int32
  | .integer n => some n
  | .linkedInteger l => some (cells.integer l)
  | .decimal d => some d.toInt32
  | .linkedDecimal l => some (cells.decimal l).toInt32
  | .null | .object _ => none

/-- A number as a decimal; integers are rounded to the nearest. -/
def castDecimal? (cells : Cells) : Value → Option Decimal
  | .decimal d => some d
  | .linkedDecimal l => some (cells.decimal l)
  | .integer n => some (.ofInt32 n)
  | .linkedInteger l => some (.ofInt32 (cells.integer l))
  | .null | .object _ => none

/-- The plain value at the moment. -/
def delink (cells : Cells) : Value → Value
  | .linkedInteger l => .integer (cells.integer l)
  | .linkedDecimal l => .decimal (cells.decimal l)
  | v => v

/-- The name of the value's kind, not looking into objects. -/
def kindName : Value → String
  | .null => "Null"
  | .integer _ => "Integer"
  | .decimal _ => "Decimal"
  | .object _ => "Object"
  | .linkedInteger _ => "Linked Integer"
  | .linkedDecimal _ => "Linked Decimal"

/-- The printed form, not looking into objects. -/
def text (cells : Cells) : Value → String
  | .null => "null"
  | .integer n => toString n.toInt
  | .linkedInteger l => toString (cells.integer l).toInt
  | .decimal d => d.text
  | .linkedDecimal l => (cells.decimal l).text
  | .object h => "<object " ++ h.text ++ ">"

/-- The form in debugging output. -/
def debugText (cells : Cells) : Value → String
  | .null => "Null"
  | .integer n => s!"Integer({n.toInt})"
  | .decimal d => s!"Decimal({d.shortest})"
  | .object h => s!"Object({h.debugText})"
  | .linkedInteger l => s!"LinkedInteger({(cells.integer l).toInt})"
  | .linkedDecimal l => s!"LinkedDecimal({(cells.decimal l).shortest})"

end Value
end ScriptVm
