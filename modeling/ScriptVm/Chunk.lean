import ScriptVm.Decimal.Numeral
import ScriptVm.NameHash
import ScriptVm.Opcode

/-!
# Chunks of code

A chunk is the code of one function: its bytes, the source line of each byte if the chunk keeps
lines, and the constants that its instructions name by index.

* `Constant` is an entry of the constant pool.
* `line?` is the source line of a byte, cut to sixteen bits.
* The `emit` functions append to a chunk. `emitJump` leaves a hole that `patchJump?` fills once
  the target is known.
-/

namespace ScriptVm

/-- An entry of a constant pool. -/
inductive Constant where
  | integer (n : Int32)
  | decimal (d : Decimal)
  | string (s : String)
deriving DecidableEq, Inhabited

namespace Constant

/-- The form in which listings show a constant. -/
def text : Constant → String
  | .integer n => toString n.toInt
  | .decimal d => d.text
  | .string s => "\"" ++ s ++ "\""

/-- Equality of constants as numbers and texts. -/
def agrees : Constant → Constant → Bool
  | .integer a, .integer b => a == b
  | .decimal a, .decimal b => a.eq b
  | .string a, .string b => a == b
  | _, _ => false

end Constant

/-- Reads the line of entry `offset` of a line table, cut to sixteen bits. -/
def lineAt? (lines : Option (Array Int32)) (offset : Nat) : Option UInt32 :=
  lines.bind fun table => table[offset]?.map fun line => line.toUInt32 &&& 0xFFFF

/-- The code of one function. -/
structure Chunk where
  code : Array UInt8
  lines : Option (Array Int32)
  constants : Array Constant
  currentLine : Int32
deriving DecidableEq, Inhabited

namespace Chunk

/-- No code; with a line table if `tracked`. -/
def empty (tracked : Bool) : Chunk :=
  { code := #[], lines := if tracked then some #[] else none, constants := #[], currentLine := 0 }

/-- The source line of a byte. -/
def line? (c : Chunk) (offset : Nat) : Option UInt32 := lineAt? c.lines offset

/-- The opcode at an offset. -/
def opcode? (c : Chunk) (offset : Nat) : Option Opcode := c.code[offset]?.bind Opcode.ofByte?

/-- Equal code and lines, and constants that agree. -/
def agrees (a b : Chunk) : Bool :=
  a.code == b.code && a.lines == b.lines &&
    a.constants.size == b.constants.size &&
    (a.constants.toList.zip b.constants.toList).all fun p => p.1.agrees p.2

/-! ### Emission -/

/-- Sets the line of the bytes that follow. -/
def setLine (c : Chunk) (line : Int32) : Chunk := { c with currentLine := line }

/-- Appends a byte and its line. -/
def emitByte (c : Chunk) (b : UInt8) : Chunk :=
  { c with code := c.code.push b, lines := c.lines.map (·.push c.currentLine) }

/-- Appends several bytes. -/
def emitBytes (c : Chunk) (bytes : List UInt8) : Chunk := bytes.foldl emitByte c

/-- Appends an opcode. -/
def emitOpcode (c : Chunk) (op : Opcode) : Chunk := c.emitByte op.toByte

/-- Appends a 16-bit operand. -/
def emitWord16 (c : Chunk) (n : UInt16) : Chunk := c.emitBytes (Bytes.bytes16 n)

/-- Appends a 32-bit operand. -/
def emitWord32 (c : Chunk) (n : UInt32) : Chunk := c.emitBytes (Bytes.bytes32 n)

/-- Adds a constant and gives its index. -/
def addConstant (c : Chunk) (k : Constant) : UInt32 × Chunk :=
  (c.constants.size.toUInt32, { c with constants := c.constants.push k })

/-- Adds a constant and an instruction that loads it. -/
def emitConstant (c : Chunk) (k : Constant) : UInt32 × Chunk :=
  let (index, c) := c.addConstant k
  (index, (c.emitOpcode .constant).emitWord32 index)

/-- Appends the load of an integer. -/
def emitInteger (c : Chunk) (n : Int32) : Chunk :=
  (c.emitOpcode .integer).emitWord32 n.toUInt32

/-- Appends the load of a decimal. -/
def emitDecimal (c : Chunk) (d : Decimal) : Chunk :=
  (c.emitOpcode .decimal).emitWord32 d.bits

/-- Appends an opcode and the hash of a name. -/
def emitNamed (c : Chunk) (op : Opcode) (name : String) : Chunk :=
  (c.emitOpcode op).emitWord32 (hashName name)

/-- Appends an opcode and a byte. -/
def emitWithByte (c : Chunk) (op : Opcode) (operand : UInt8) : Chunk :=
  (c.emitOpcode op).emitByte operand

/-- Appends the call of a method by name. -/
def emitInvoke (c : Chunk) (name : String) (argc : UInt8) (isSuper : Bool) : Chunk :=
  (((c.emitOpcode .invoke).emitByte argc).emitWord32 (hashName name)).emitByte
    (if isSuper then 1 else 0)

/-- Appends the creation of a class. -/
def emitClass (c : Chunk) (name : String) (extended : Bool) : Chunk :=
  ((c.emitOpcode .newClass).emitWord32 (hashName name)).emitByte (if extended then 1 else 0)

/-- Appends the binding of function `index` of the module as a method. -/
def emitMethod (c : Chunk) (index : UInt8) (name : String) : Chunk :=
  ((c.emitOpcode .method).emitByte index).emitWord32 (hashName name)

/-- Appends a jump with an open target and gives the position of its operand. -/
def emitJump (c : Chunk) (op : Opcode) : Nat × Chunk :=
  let c := (c.emitOpcode op).emitWord16 0xFFFF
  (c.code.size - 2, c)

/-- Points the jump whose operand is at `operand` to the end of the chunk; `none` if no operand
of two bytes stands there. -/
def patchJump? (c : Chunk) (operand : Nat) : Option Chunk :=
  if operand + 2 ≤ c.code.size then
    let distance := (c.code.size - operand - 2).toUInt16
    some { c with
      code := (c.code.setIfInBounds operand distance.toUInt8).setIfInBounds (operand + 1)
        (distance >>> 8).toUInt8 }
  else none

/-- Appends a jump back to `target`; `none` if the target lies after the jump. -/
def emitLoop? (c : Chunk) (target : Nat) : Option Chunk :=
  let c := c.emitOpcode .jumpBack
  if target ≤ c.code.size + 2 then
    some (c.emitWord16 (c.code.size + 2 - target).toUInt16)
  else none

end Chunk
end ScriptVm
