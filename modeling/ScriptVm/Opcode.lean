/-!
# Opcodes

The instruction set, in the order of the byte that stands for each instruction.

* `ofByte?` and `toByte` are the numbering, `name` the printed name.
* `operandWidth?` is the number of operand bytes; a switch table has as many as its count asks
  for, and the instructions that act on a scene have none that this machine knows.
-/

namespace ScriptVm

/-- An instruction without its operands. -/
inductive Opcode where
  | error | constant | defineGlobal | getProperty | setProperty | getGlobal | setGlobal
  | getLocal | setLocal | printStack | inherit | ret | method | newClass | call | superMethod
  | invoke | jump | jumpIfFalse | jumpBack | pop | copy | add | subtract | multiply | divide
  | modulo | negate | increment | decrement | bitshiftLeft | bitshiftRight | null | pushTrue
  | pushFalse | bitNot | bitAnd | bitOr | bitXor | logicalNot | logicalAnd | logicalOr | equal
  | equalNot | greater | greaterEqual | less | lessEqual | print | enumNext | saveValue
  | loadValue | withReceiver | getElement | setElement | newArray | newMap | switchTable
  | failsafe | event | typeOf | newInstance | importClass | switch | popN | hasProperty
  | importModule | addEnum | newEnum | getSuperclass | getModuleLocal | setModuleLocal
  | defineModuleLocal | useNamespace | defineConstant | integer | decimal
deriving DecidableEq, Inhabited

namespace Opcode

/-- All opcodes in the order of their bytes. -/
def all : Array Opcode := #[
  .error, .constant, .defineGlobal, .getProperty, .setProperty, .getGlobal, .setGlobal,
  .getLocal, .setLocal, .printStack, .inherit, .ret, .method, .newClass, .call, .superMethod,
  .invoke, .jump, .jumpIfFalse, .jumpBack, .pop, .copy, .add, .subtract, .multiply, .divide,
  .modulo, .negate, .increment, .decrement, .bitshiftLeft, .bitshiftRight, .null, .pushTrue,
  .pushFalse, .bitNot, .bitAnd, .bitOr, .bitXor, .logicalNot, .logicalAnd, .logicalOr, .equal,
  .equalNot, .greater, .greaterEqual, .less, .lessEqual, .print, .enumNext, .saveValue,
  .loadValue, .withReceiver, .getElement, .setElement, .newArray, .newMap, .switchTable,
  .failsafe, .event, .typeOf, .newInstance, .importClass, .switch, .popN, .hasProperty,
  .importModule, .addEnum, .newEnum, .getSuperclass, .getModuleLocal, .setModuleLocal,
  .defineModuleLocal, .useNamespace, .defineConstant, .integer, .decimal]

/-- The opcode that a byte stands for. -/
def ofByte? (b : UInt8) : Option Opcode := all[b.toNat]?

/-- The byte of an opcode. -/
def toByte (op : Opcode) : UInt8 := op.ctorIdx.toUInt8

/-- The printed name. -/
def name : Opcode → String
  | .error => "OP_ERROR"
  | .constant => "OP_CONSTANT"
  | .defineGlobal => "OP_DEFINE_GLOBAL"
  | .getProperty => "OP_GET_PROPERTY"
  | .setProperty => "OP_SET_PROPERTY"
  | .getGlobal => "OP_GET_GLOBAL"
  | .setGlobal => "OP_SET_GLOBAL"
  | .getLocal => "OP_GET_LOCAL"
  | .setLocal => "OP_SET_LOCAL"
  | .printStack => "OP_PRINT_STACK"
  | .inherit => "OP_INHERIT"
  | .ret => "OP_RETURN"
  | .method => "OP_METHOD"
  | .newClass => "OP_CLASS"
  | .call => "OP_CALL"
  | .superMethod => "OP_SUPER"
  | .invoke => "OP_INVOKE"
  | .jump => "OP_JUMP"
  | .jumpIfFalse => "OP_JUMP_IF_FALSE"
  | .jumpBack => "OP_JUMP_BACK"
  | .pop => "OP_POP"
  | .copy => "OP_COPY"
  | .add => "OP_ADD"
  | .subtract => "OP_SUBTRACT"
  | .multiply => "OP_MULTIPLY"
  | .divide => "OP_DIVIDE"
  | .modulo => "OP_MODULO"
  | .negate => "OP_NEGATE"
  | .increment => "OP_INCREMENT"
  | .decrement => "OP_DECREMENT"
  | .bitshiftLeft => "OP_BITSHIFT_LEFT"
  | .bitshiftRight => "OP_BITSHIFT_RIGHT"
  | .null => "OP_NULL"
  | .pushTrue => "OP_TRUE"
  | .pushFalse => "OP_FALSE"
  | .bitNot => "OP_BW_NOT"
  | .bitAnd => "OP_BW_AND"
  | .bitOr => "OP_BW_OR"
  | .bitXor => "OP_BW_XOR"
  | .logicalNot => "OP_LG_NOT"
  | .logicalAnd => "OP_LG_AND"
  | .logicalOr => "OP_LG_OR"
  | .equal => "OP_EQUAL"
  | .equalNot => "OP_EQUAL_NOT"
  | .greater => "OP_GREATER"
  | .greaterEqual => "OP_GREATER_EQUAL"
  | .less => "OP_LESS"
  | .lessEqual => "OP_LESS_EQUAL"
  | .print => "OP_PRINT"
  | .enumNext => "OP_ENUM_NEXT"
  | .saveValue => "OP_SAVE_VALUE"
  | .loadValue => "OP_LOAD_VALUE"
  | .withReceiver => "OP_WITH"
  | .getElement => "OP_GET_ELEMENT"
  | .setElement => "OP_SET_ELEMENT"
  | .newArray => "OP_NEW_ARRAY"
  | .newMap => "OP_NEW_MAP"
  | .switchTable => "OP_SWITCH_TABLE"
  | .failsafe => "OP_FAILSAFE"
  | .event => "OP_EVENT"
  | .typeOf => "OP_TYPEOF"
  | .newInstance => "OP_NEW"
  | .importClass => "OP_IMPORT"
  | .switch => "OP_SWITCH"
  | .popN => "OP_POPN"
  | .hasProperty => "OP_HAS_PROPERTY"
  | .importModule => "OP_IMPORT_MODULE"
  | .addEnum => "OP_ADD_ENUM"
  | .newEnum => "OP_NEW_ENUM"
  | .getSuperclass => "OP_GET_SUPERCLASS"
  | .getModuleLocal => "OP_GET_MODULE_LOCAL"
  | .setModuleLocal => "OP_SET_MODULE_LOCAL"
  | .defineModuleLocal => "OP_DEFINE_MODULE_LOCAL"
  | .useNamespace => "OP_USE_NAMESPACE"
  | .defineConstant => "OP_DEFINE_CONSTANT"
  | .integer => "OP_INTEGER"
  | .decimal => "OP_DECIMAL"

/-- The opcode with a printed name. -/
def ofName? (s : String) : Option Opcode := all.find? (·.name == s)

/-- Whether the instruction acts on a scene, which this machine does not have. -/
def isSceneBound : Opcode → Bool
  | .withReceiver | .event | .enumNext | .addEnum | .newEnum | .useNamespace | .importModule
  | .switch => true
  | _ => false

/-- The number of operand bytes, where the opcode alone fixes it. -/
def operandWidth? : Opcode → Option Nat
  | .constant | .defineGlobal | .getProperty | .setProperty | .getGlobal | .setGlobal | .inherit
  | .newArray | .newMap | .importClass | .hasProperty | .defineConstant | .integer
  | .decimal => some 4
  | .getLocal | .setLocal | .call | .copy | .newInstance | .popN => some 1
  | .jump | .jumpIfFalse | .jumpBack | .failsafe | .getModuleLocal | .setModuleLocal => some 2
  | .newClass | .method => some 5
  | .invoke => some 6
  | .switchTable | .enumNext | .withReceiver | .event | .switch | .importModule | .addEnum
  | .newEnum | .useNamespace => none
  | _ => some 0

/-- Reading the byte of an opcode gives the opcode back. -/
@[simp] theorem ofByte?_toByte (op : Opcode) : ofByte? op.toByte = some op := by
  cases op <;> rfl

end Opcode
end ScriptVm
