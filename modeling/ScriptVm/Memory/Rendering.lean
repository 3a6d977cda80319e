import ScriptVm.Memory

/-!
# The text of values

How values look when scripts print them, what they are called, and the comparison that scripts
use.

* `format` prints a value. Strings are bare at the top and quoted inside containers, maps list
  their keys in order, and a container inside 32 others is cut to three points.
* `typeName` and `typeOf` name the kind of a value, for messages and for scripts.
* `looselyEqual` compares numbers across kinds, strings by text, and bound methods by parts.
* `concatenate` and `castString` make strings.
-/

namespace ScriptVm
namespace Memory

/-- How many containers deep a value is printed. -/
def printDepth : Nat := 32

/-- A name, or a hash in its place. -/
def nameOrHash (heap : Heap) (name : Option Handle) (hash : UInt32) : String :=
  match name.bind heap.string? with
  | some name => name
  | none => "$[" ++ Text.hexWord hash ++ "]"

/-- The name of a function object. -/
def functionTitle (heap : Heap) (h : Handle) : String :=
  (((heap.function? h).bind (·.name)).bind heap.string?).getD "<anonymous-fn>"

/-- The name of the class of an instance. -/
def classTitle (heap : Heap) (h : Handle) : String :=
  match heap.class? h with
  | some c => nameOrHash heap c.name c.hash
  | none => "?"

/-- Prints an object; `container` prints arrays and maps. -/
def renderObject (heap : Heap) (container : Obj → String) (nested : Bool) (h : Handle) :
    Obj → String
  | .string s => if nested then "\"" ++ s ++ "\"" else s
  | .function _ => "<fn " ++ functionTitle heap h ++ ">"
  | .boundMethod _ method => "<bound method " ++ functionTitle heap method ++ ">"
  | .scriptClass c => "<class " ++ nameOrHash heap c.name c.hash ++ ">"
  | .inst i => "<class " ++ classTitle heap i.classHandle ++ "> instance"
  | .module m => "<module " ++ (m.sourceFilename.bind heap.string?).getD "?" ++ ">"
  | .native _ => "<native fn>"
  | .upvalue _ => "<upvalue>"
  | .array values => container (.array values)
  | .map m => container (.map m)

/-- Prints a value; `container` prints arrays and maps. -/
def renderValue (mem : Memory) (container : Obj → String) (nested : Bool) : Value → String
  | .object h =>
    match mem.heap.get? h with
    | some o => renderObject mem.heap container nested h o
    | none => "<freed object>"
  | v => v.text mem.cells

/-- The entries of a map in the order of their keys. -/
def sortedEntries (m : MapObject) : List (String × Value) :=
  m.entries.values.mergeSort fun a b => Text.le a.1 b.1

/-- Prints an array or a map; `inner` prints what it holds. -/
def renderContainer (inner : Value → String) : Obj → String
  | .array values => "[" ++ String.intercalate ", " (values.toList.map inner) ++ "]"
  | .map m =>
    "\x7b" ++ String.intercalate ", "
      ((sortedEntries m).map fun e => "\"" ++ e.1 ++ "\": " ++ inner e.2) ++ "\x7d"
  | _ => ""

/-- Prints a value that may hold `levels` containers inside each other. -/
def render (mem : Memory) : Nat → Bool → Value → String
  | 0 => mem.renderValue fun _ => "..."
  | levels + 1 => mem.renderValue (renderContainer (render mem levels true))

/-- Prints a value as it looks inside another. -/
def formatNested (mem : Memory) (nested : Bool) (v : Value) : String :=
  mem.render printDepth nested v

/-- Prints a value. -/
def format (mem : Memory) (v : Value) : String := mem.formatNested false v

/-- The name of a value's kind in messages. -/
def typeName (mem : Memory) (v : Value) : String :=
  match mem.heap.kind? v with
  | some kind => kind.name
  | none => v.kindName

/-- The name of an object's kind in scripts. -/
def kindWord : Kind → String
  | .function | .boundMethod => "event"
  | .scriptClass => "class"
  | .inst => "instance"
  | .native => "native"
  | .string => "string"
  | .upvalue => "upvalue"
  | .array => "array"
  | .map => "map"
  | .module => "module"

/-- The name of a value's kind in scripts. -/
def typeOf (mem : Memory) (v : Value) : String :=
  match v with
  | .null => "null"
  | .integer _ | .linkedInteger _ => "integer"
  | .decimal _ | .linkedDecimal _ => "decimal"
  | .object _ =>
    match mem.heap.kind? v with
    | some kind => kindWord kind
    | none => "unknown"

/-- Equality of scripts: numbers as decimals if one of them is a decimal, strings by their text,
bound methods by method and receiver, all else by identity. -/
def looselyEqual (mem : Memory) (a b : Value) : Bool :=
  if a.isNumber && b.isNumber && (a.isDecimal || b.isDecimal) then
    match a.castDecimal? mem.cells, b.castDecimal? mem.cells with
    | some x, some y => x.eq y
    | _, _ => false
  else
    match a.object?.bind mem.heap.get?, b.object?.bind mem.heap.get? with
    | some (.string s), some (.string t) => s == t
    | some (.boundMethod r m), some (.boundMethod q n) => m == n && r.equals mem.cells q
    | _, _ => a.equals mem.cells b

/-- The string object of a value: itself, or a new one that holds its printed form. -/
def castString (mem : Memory) (v : Value) : Handle × Memory :=
  match v.object?.filter fun h => (mem.heap.string? h).isSome with
  | some h => (h, mem)
  | none => mem.newString (mem.format v)

/-- A new string of two printed values. -/
def concatenate (mem : Memory) (a b : Value) : Handle × Memory :=
  mem.newString (mem.format a ++ mem.format b)

end Memory
end ScriptVm
