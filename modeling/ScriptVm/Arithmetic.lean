import ScriptVm.Fault
import ScriptVm.Memory.Rendering

/-!
# Arithmetic

The operations of scripts on numbers. Two integers are worked on modulo 2³²; a decimal operand
makes the other one a decimal too.

* `BinaryOp` and `UnaryOp` are the operations, `ofOpcode?` finds them by instruction.
* `binary` and `unary` apply the operation of an opcode, after checking that the operands are
  numbers. Logical negation takes any value.
-/

namespace ScriptVm

/-- An operation on two numbers. -/
inductive BinaryOp where
  | add | subtract | multiply | divide | modulo | shiftLeft | shiftRight | bitAnd | bitOr | bitXor
  | logicalAnd | logicalOr | less | greater | lessEqual | greaterEqual
deriving DecidableEq

namespace BinaryOp

/-- The operation of an opcode. -/
def ofOpcode? : Opcode → Option BinaryOp
  | .add => some .add
  | .subtract => some .subtract
  | .multiply => some .multiply
  | .divide => some .divide
  | .modulo => some .modulo
  | .bitshiftLeft => some .shiftLeft
  | .bitshiftRight => some .shiftRight
  | .bitAnd => some .bitAnd
  | .bitOr => some .bitOr
  | .bitXor => some .bitXor
  | .logicalAnd => some .logicalAnd
  | .logicalOr => some .logicalOr
  | .less => some .less
  | .greater => some .greater
  | .lessEqual => some .lessEqual
  | .greaterEqual => some .greaterEqual
  | _ => none

/-- The operation's name in messages. -/
def phrase : BinaryOp → String
  | .add => "plus"
  | .subtract => "minus"
  | .multiply => "multiply"
  | .divide => "division"
  | .modulo => "modulo"
  | .shiftLeft => "bitwise left"
  | .shiftRight => "bitwise right"
  | .bitAnd => "bitwise and"
  | .bitOr => "bitwise or"
  | .bitXor => "xor"
  | .logicalAnd => "logical and"
  | .logicalOr => "logical or"
  | .less => "less than"
  | .greater => "greater than"
  | .lessEqual => "less than or equal"
  | .greaterEqual => "greater than or equal"

/-- The operation on two integers. -/
def onIntegers (op : BinaryOp) (x y : Int32) : Except Cause Value :=
  match op with
  | .add => .ok (.integer (x + y))
  | .subtract => .ok (.integer (x - y))
  | .multiply => .ok (.integer (x * y))
  | .divide => if y = 0 then .error .integerDivisionByZero else .ok (.integer (x / y))
  | .modulo => if y = 0 then .error .integerDivisionByZero else .ok (.integer (x % y))
  | .shiftLeft => .ok (.integer (x <<< y))
  | .shiftRight => .ok (.integer (x >>> y))
  | .bitAnd => .ok (.integer (x &&& y))
  | .bitOr => .ok (.integer (x ||| y))
  | .bitXor => .ok (.integer (x ^^^ y))
  | .logicalAnd => .ok (.ofBool (x != 0 && y != 0))
  | .logicalOr => .ok (.ofBool (x != 0 || y != 0))
  | .less => .ok (.ofBool (decide (x < y)))
  | .greater => .ok (.ofBool (decide (y < x)))
  | .lessEqual => .ok (.ofBool (decide (x ≤ y)))
  | .greaterEqual => .ok (.ofBool (decide (y ≤ x)))

/-- An operation on the integer parts of two decimals. -/
def onParts (f : Int32 → Int32 → Int32) (x y : Decimal) : Except Cause Value :=
  .ok (.decimal (.ofInt32 (f x.toInt32 y.toInt32)))

/-- The operation on two decimals; the logical ones are never true. -/
def onDecimals (op : BinaryOp) (x y : Decimal) : Except Cause Value :=
  match op with
  | .add => .ok (.decimal (x + y))
  | .subtract => .ok (.decimal (x - y))
  | .multiply => .ok (.decimal (x * y))
  | .divide => if y.isZero then .error .decimalDivisionByZero else .ok (.decimal (x / y))
  | .modulo => .ok (.decimal (x.modulo y))
  | .shiftLeft => onParts (· <<< ·) x y
  | .shiftRight => onParts (· >>> ·) x y
  | .bitAnd => onParts (· &&& ·) x y
  | .bitOr => onParts (· ||| ·) x y
  | .bitXor => onParts (· ^^^ ·) x y
  | .logicalAnd | .logicalOr => .ok (.integer 0)
  | .less => .ok (.ofBool (x.lt y))
  | .greater => .ok (.ofBool (y.lt x))
  | .lessEqual => .ok (.ofBool (x.le y))
  | .greaterEqual => .ok (.ofBool (y.le x))

end BinaryOp

/-- An operation on one number. -/
inductive UnaryOp where
  | negate | increment | decrement | bitNot | logicalNot
deriving DecidableEq

namespace UnaryOp

/-- The operation of an opcode. -/
def ofOpcode? : Opcode → Option UnaryOp
  | .negate => some .negate
  | .increment => some .increment
  | .decrement => some .decrement
  | .bitNot => some .bitNot
  | .logicalNot => some .logicalNot
  | _ => none

/-- The operation's name in messages. -/
def phrase : UnaryOp → String
  | .negate => "negate"
  | .increment => "increment"
  | .decrement => "decrement"
  | .bitNot => "bitwise not"
  | .logicalNot => "unknown"

/-- The operation on an integer. -/
def onInteger (op : UnaryOp) (n : Int32) : Value :=
  match op with
  | .negate => .integer (-n)
  | .increment => .integer (n + 1)
  | .decrement => .integer (n - 1)
  | .bitNot => .integer (~~~n)
  | .logicalNot => .ofBool (n == 0)

/-- The operation on a decimal. -/
def onDecimal (op : UnaryOp) (d : Decimal) : Value :=
  match op with
  | .negate => .decimal (-d)
  | .increment => .decimal (d + .one)
  | .decrement => .decimal (d - .one)
  | .bitNot => .decimal (.ofInt32 (~~~d.toInt32))
  | .logicalNot => .decimal (if d.isZero then .one else .zero false)

end UnaryOp

namespace Memory

/-- Refuses a value that is not a number. -/
def requireNumber (mem : Memory) (operation : String) (v : Value) : Except Cause Unit :=
  if v.isNumber then .ok () else .error (.notNumber operation (mem.typeName v))

/-- Applies an operation to two values. -/
def applyBinary (mem : Memory) (op : BinaryOp) (a b : Value) : Except Cause Value := do
  mem.requireNumber op.phrase a
  mem.requireNumber op.phrase b
  match a.integer? mem.cells, b.integer? mem.cells with
  | some x, some y => op.onIntegers x y
  | _, _ =>
    op.onDecimals ((a.castDecimal? mem.cells).getD (.zero false))
      ((b.castDecimal? mem.cells).getD (.zero false))

/-- Applies an operation to a value. -/
def applyUnary (mem : Memory) (op : UnaryOp) (a : Value) : Except Cause Value :=
  match a.integer? mem.cells, a.decimal? mem.cells with
  | some n, _ => .ok (op.onInteger n)
  | _, some d => .ok (op.onDecimal d)
  | none, none =>
    if op = .logicalNot then .ok (.ofBool a.isNull)
    else .error (.notNumber op.phrase (mem.typeName a))

/-- What the operation of an opcode is called in messages. -/
def operationName (op : Opcode) : String :=
  match BinaryOp.ofOpcode? op, UnaryOp.ofOpcode? op with
  | some b, _ => b.phrase
  | _, some u => u.phrase
  | _, _ => "unknown"

/-- Applies the operation of an opcode to two values. -/
def binary (mem : Memory) (op : Opcode) (a b : Value) : Except Cause Value :=
  match BinaryOp.ofOpcode? op with
  | some operation => mem.applyBinary operation a b
  | none => do
    mem.requireNumber (operationName op) a
    mem.requireNumber (operationName op) b
    .error (.notBinary op.name)

/-- Applies the operation of an opcode to a value. -/
def unary (mem : Memory) (op : Opcode) (a : Value) : Except Cause Value :=
  match UnaryOp.ofOpcode? op with
  | some operation => mem.applyUnary operation a
  | none => do
    mem.requireNumber (operationName op) a
    .error (.notUnary op.name)

end Memory
end ScriptVm
