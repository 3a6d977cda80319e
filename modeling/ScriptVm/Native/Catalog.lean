import ScriptVm.Native

/-!
# A catalogue of natives

A small set of natives that exercises every way a native can answer: counting and adding
arguments, reading strings and instances, making objects, and failing with each severity.
-/

namespace ScriptVm
namespace Native

/-- A native that changes nothing. -/
def pureNative (f : Memory → Array Value → Except Cause Value) : NativeFunction :=
  fun mem args => (f mem args, mem)

/-- The number of arguments. -/
def argc : NativeFunction := pureNative fun _ args => .ok (.integer args.size.toInt32)

/-- The sum of two integers. -/
def add2 : NativeFunction := pureNative fun mem args => do
  requireCount args 2
  let a ← integerArgument mem args 0
  let b ← integerArgument mem args 1
  return .integer (a + b)

/-- The product of a number and a factor, which is two if it is left out. -/
def scale : NativeFunction := pureNative fun mem args => do
  requireRange args 1 2
  let factor ← if args.size = 2 then decimalArgument mem args 1 else pure ⟨0x40000000⟩
  let d ← decimalArgument mem args 0
  return .decimal (d * factor)

/-- The number of bytes of a string. -/
def len : NativeFunction := pureNative fun mem args => do
  let s ← stringArgument mem args 0
  return .integer s.utf8ByteSize.toInt32

/-- The class of an instance. -/
def klass : NativeFunction := pureNative fun mem args => do
  let i ← instanceArgument mem args 0
  return .object i.classHandle

/-- The fourth argument, an integer. -/
def fourth : NativeFunction := pureNative fun mem args => do
  return .integer (← integerArgument mem args 3)

/-- The first argument, or null. -/
def first : NativeFunction := pureNative fun _ args => .ok (args[0]?.getD .null)

/-- A new array of the arguments. -/
def pack : NativeFunction := fun mem args =>
  let (h, mem) := mem.alloc (.array args)
  (.ok (.object h), mem)

/-- A new string of the printed arguments. -/
def join : NativeFunction := fun mem args =>
  let (h, mem) := mem.newString (String.intercalate "|" (args.toList.map mem.format))
  (.ok (.object h), mem)

/-- A native that always fails. -/
def failing (severity : Severity) (text : String) : NativeFunction :=
  pureNative fun _ _ => .error (.host severity text)

/-- The natives of the catalogue. -/
def catalog : List (String × NativeFunction) :=
  [("argc", argc), ("add2", add2), ("scale", scale), ("len", len), ("klass", klass),
   ("fourth", fourth), ("first", first), ("pack", pack), ("join", join),
   ("fail", failing .runtime "native failure"), ("fatal", failing .fatal "native fatal"),
   ("absent", failing .loadAbsent "native absent")]

/-- The catalogue as the host's natives; any other name cannot be called. -/
def standard : Natives := fun name =>
  match catalog.lookup name with
  | some f => f
  | none => pureNative fun _ _ => .error .notCallable

end Native
end ScriptVm
