import ScriptVm.Arithmetic
import ScriptVm.Code
import ScriptVm.Value

/-!
# Instructions

An instruction with its operands, as the machine performs it. `decode?` reads the operands that
follow an opcode; the entries of a switch table stay in the code, since they are read one by one
while the table is searched.
-/

namespace ScriptVm

/-- An instruction and its operands. -/
inductive Instruction where
  | getGlobal (hash : UInt32)
  | setGlobal (hash : UInt32)
  | defineGlobal (hash : UInt32)
  | defineConstant (hash : UInt32)
  | getLocal (slot : UInt8)
  | setLocal (slot : UInt8)
  | defineModuleLocal
  | getModuleLocal (slot : UInt16)
  | setModuleLocal (slot : UInt16)
  | getProperty (hash : UInt32)
  | setProperty (hash : UInt32)
  | hasProperty (hash : UInt32)
  | getElement
  | setElement
  | newArray (count : UInt32)
  | newMap (count : UInt32)
  | push (v : Value)
  | constant (index : UInt32)
  | pop
  | popN (count : UInt8)
  | copy (count : UInt8)
  | saveValue
  | loadValue
  | print
  | printStack
  | jump (distance : Int)
  | jumpIfFalse (distance : Int)
  | switchTable (count : UInt16)
  | failsafe (offset : UInt16)
  | ret
  | add
  | binary (op : BinaryOp)
  | unary (op : UnaryOp)
  | equal (expected : Bool)
  | typeOf
  | newClass (hash : UInt32) (kind : UInt8)
  | inherit (hash : UInt32)
  | method (index : UInt8) (hash : UInt32)
  | getSuperclass
  | call (argc : UInt8)
  | invoke (argc : UInt8) (hash : UInt32) (isSuper : Bool)
  | newInstance (argc : UInt8)
  | importClass (index : UInt32)
  | invalid (op : Opcode)
  | unsupported (op : Opcode)
deriving DecidableEq

namespace Instruction

/-- An instruction without operands, followed by the instruction at `offset`. -/
def plain (offset : Nat) (i : Instruction) : Option (Instruction × Nat) := some (i, offset)

/-- An instruction with a byte. -/
def withByte (code : Array UInt8) (offset : Nat) (f : UInt8 → Instruction) :
    Option (Instruction × Nat) :=
  (Code.byte? code offset).map fun b => (f b, offset + 1)

/-- An instruction with a 16-bit word. -/
def withHalf (code : Array UInt8) (offset : Nat) (f : UInt16 → Instruction) :
    Option (Instruction × Nat) :=
  (Code.half? code offset).map fun n => (f n, offset + 2)

/-- An instruction with a 32-bit word. -/
def withWord (code : Array UInt8) (offset : Nat) (f : UInt32 → Instruction) :
    Option (Instruction × Nat) :=
  (Code.word? code offset).map fun n => (f n, offset + 4)

/-- Reads the operands of an opcode from `offset` on and gives the offset after them; `none` if the
code ends before. -/
def decode? (code : Array UInt8) (offset : Nat) : Opcode → Option (Instruction × Nat)
  | .getGlobal => withWord code offset .getGlobal
  | .setGlobal => withWord code offset .setGlobal
  | .defineGlobal => withWord code offset .defineGlobal
  | .defineConstant => withWord code offset .defineConstant
  | .getLocal => withByte code offset .getLocal
  | .setLocal => withByte code offset .setLocal
  | .defineModuleLocal => plain offset .defineModuleLocal
  | .getModuleLocal => withHalf code offset .getModuleLocal
  | .setModuleLocal => withHalf code offset .setModuleLocal
  | .getProperty => withWord code offset .getProperty
  | .setProperty => withWord code offset .setProperty
  | .hasProperty => withWord code offset .hasProperty
  | .getElement => plain offset .getElement
  | .setElement => plain offset .setElement
  | .newArray => withWord code offset .newArray
  | .newMap => withWord code offset .newMap
  | .null => plain offset (.push .null)
  | .pushTrue => plain offset (.push (.integer 1))
  | .pushFalse => plain offset (.push (.integer 0))
  | .constant => withWord code offset .constant
  | .integer => withWord code offset fun n => .push (.integer n.toInt32)
  | .decimal => withWord code offset fun n => .push (.decimal ⟨n⟩)
  | .pop => plain offset .pop
  | .popN => withByte code offset .popN
  | .copy => withByte code offset .copy
  | .saveValue => plain offset .saveValue
  | .loadValue => plain offset .loadValue
  | .print => plain offset .print
  | .printStack => plain offset .printStack
  | .jump => withHalf code offset fun n => .jump n.toInt16.toInt
  | .jumpBack => withHalf code offset fun n => .jump (-n.toInt16.toInt)
  | .jumpIfFalse => withHalf code offset fun n => .jumpIfFalse n.toInt16.toInt
  | .switchTable => withHalf code offset .switchTable
  | .failsafe => withHalf code offset .failsafe
  | .ret => plain offset .ret
  | .add => plain offset .add
  | .subtract => plain offset (.binary .subtract)
  | .multiply => plain offset (.binary .multiply)
  | .divide => plain offset (.binary .divide)
  | .modulo => plain offset (.binary .modulo)
  | .bitshiftLeft => plain offset (.binary .shiftLeft)
  | .bitshiftRight => plain offset (.binary .shiftRight)
  | .bitAnd => plain offset (.binary .bitAnd)
  | .bitOr => plain offset (.binary .bitOr)
  | .bitXor => plain offset (.binary .bitXor)
  | .logicalAnd => plain offset (.binary .logicalAnd)
  | .logicalOr => plain offset (.binary .logicalOr)
  | .less => plain offset (.binary .less)
  | .greater => plain offset (.binary .greater)
  | .lessEqual => plain offset (.binary .lessEqual)
  | .greaterEqual => plain offset (.binary .greaterEqual)
  | .negate => plain offset (.unary .negate)
  | .increment => plain offset (.unary .increment)
  | .decrement => plain offset (.unary .decrement)
  | .bitNot => plain offset (.unary .bitNot)
  | .logicalNot => plain offset (.unary .logicalNot)
  | .equal => plain offset (.equal true)
  | .equalNot => plain offset (.equal false)
  | .typeOf => plain offset .typeOf
  | .newClass => do
    let hash ← Code.word? code offset
    let kind ← Code.byte? code (offset + 4)
    some (.newClass hash kind, offset + 5)
  | .inherit => withWord code offset .inherit
  | .method => do
    let index ← Code.byte? code offset
    let hash ← Code.word? code (offset + 1)
    some (.method index hash, offset + 5)
  | .getSuperclass => plain offset .getSuperclass
  | .call => withByte code offset .call
  | .invoke => do
    let argc ← Code.byte? code offset
    let hash ← Code.word? code (offset + 1)
    let isSuper ← Code.byte? code (offset + 5)
    some (.invoke argc hash (isSuper != 0), offset + 6)
  | .newInstance => withByte code offset .newInstance
  | .importClass => withWord code offset .importClass
  | .error => plain offset (.invalid .error)
  | .superMethod => plain offset (.invalid .superMethod)
  | .withReceiver => plain offset (.unsupported .withReceiver)
  | .event => plain offset (.unsupported .event)
  | .enumNext => plain offset (.unsupported .enumNext)
  | .addEnum => plain offset (.unsupported .addEnum)
  | .newEnum => plain offset (.unsupported .newEnum)
  | .useNamespace => plain offset (.unsupported .useNamespace)
  | .importModule => plain offset (.unsupported .importModule)
  | .switch => plain offset (.unsupported .switch)

end Instruction
end ScriptVm
