import ScriptVm.Bytes
import ScriptVm.Opcode

/-!
# Reading code

Operands at an offset of a code string, and the extent of the instruction there.

* `byte?`, `half?`, `word?` read an operand; they give `none` past the end.
* `instructionSize?` is the number of bytes of an instruction, known only if all of them are there.
-/

namespace ScriptVm
namespace Code

/-- The byte at an offset. -/
def byte? (code : Array UInt8) (offset : Nat) : Option UInt8 := code[offset]?

/-- The 16-bit word at an offset. -/
def half? (code : Array UInt8) (offset : Nat) : Option UInt16 :=
  match code[offset]?, code[offset + 1]? with
  | some a, some b => some (Bytes.word16 a b)
  | _, _ => none

/-- The 32-bit word at an offset. -/
def word? (code : Array UInt8) (offset : Nat) : Option UInt32 :=
  match code[offset]?, code[offset + 1]?, code[offset + 2]?, code[offset + 3]? with
  | some a, some b, some c, some d => some (Bytes.word32 a b c d)
  | _, _, _, _ => none

/-- The number of bytes that the instruction at an offset asks for: three for each entry of a
switch table after its count, otherwise what the opcode fixes. -/
def extent? (code : Array UInt8) (offset : Nat) : Opcode → Option Nat
  | .switchTable => (half? code (offset + 1)).map fun count => 3 + count.toNat * 3
  | op => op.operandWidth?.map (1 + ·)

/-- The size of the instruction at an offset, if it is complete. -/
def instructionSize? (code : Array UInt8) (offset : Nat) : Option Nat := do
  let byte ← code[offset]?
  let op ← Opcode.ofByte? byte
  let size ← extent? code offset op
  if offset + size ≤ code.size then some size else none

end Code
end ScriptVm
