import ScriptVm.Fault
import ScriptVm.Memory.Rendering

/-!
# Natives

Functions of the host that scripts can call. A native sees the memory and its arguments, and
gives a value or a cause together with the memory it leaves.

* `Natives` is the host's collection of natives by name.
* The `argument` functions check and read arguments; positions in messages count from one.
-/

namespace ScriptVm

/-- A function of the host. -/
abbrev NativeFunction := Memory → Array Value → Except Cause Value × Memory

/-- The functions of the host by name. -/
abbrev Natives := String → NativeFunction

namespace Native

/-- Refuses any other number of arguments. -/
def requireCount (args : Array Value) (count : Nat) : Except Cause Unit :=
  if args.size = count then .ok () else .error (.wrongArity count args.size)

/-- Refuses a number of arguments outside a range. -/
def requireRange (args : Array Value) (least most : Nat) : Except Cause Unit :=
  if least ≤ args.size ∧ args.size ≤ most then .ok ()
  else .error (.argumentRange least most args.size)

/-- The argument at an index. -/
def argument (args : Array Value) (index : Nat) : Except Cause Value :=
  match args[index]? with
  | some v => .ok v
  | none => .error (.argumentMissing (index + 1) args.size)

/-- The argument at an index, read by `f`. -/
def argumentAs {α : Type} (mem : Memory) (args : Array Value) (index : Nat) (expected : String)
    (f : Value → Option α) : Except Cause α := do
  let v ← argument args index
  match f v with
  | some a => .ok a
  | none => .error (.argumentKind (index + 1) expected (mem.typeName v))

/-- An integer argument. -/
def integerArgument (mem : Memory) (args : Array Value) (index : Nat) : Except Cause Int32 :=
  argumentAs mem args index "Integer" (·.integer? mem.cells)

/-- A numeric argument as a decimal. -/
def decimalArgument (mem : Memory) (args : Array Value) (index : Nat) : Except Cause Decimal :=
  argumentAs mem args index "Decimal" (·.castDecimal? mem.cells)

/-- A string argument. -/
def stringArgument (mem : Memory) (args : Array Value) (index : Nat) : Except Cause String :=
  argumentAs mem args index "String" mem.heap.text?

/-- An instance argument. -/
def instanceArgument (mem : Memory) (args : Array Value) (index : Nat) :
    Except Cause InstanceObject :=
  argumentAs mem args index "Instance" fun v => v.object?.bind mem.heap.instance?

end Native
end ScriptVm
