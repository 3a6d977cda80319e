import ScriptVm.Chunk
import ScriptVm.Table
import ScriptVm.Value

/-!
# Objects

What lives in the heap.

* `Kind` is the sort of an object, with its accounted size and its two names.
* `Obj` is an object; functions, classes, instances and modules have records of their own, and a
  map keeps each value with its key under the hash of the key.
* `Obj.children` are the handles that an object holds.
-/

namespace ScriptVm

/-- The sort of an object. -/
inductive Kind where
  | boundMethod | scriptClass | function | inst | array | map | native | string | upvalue | module
deriving DecidableEq, Inhabited

namespace Kind

/-- All kinds, in the order in which collections are reported. -/
def all : List Kind :=
  [.boundMethod, .scriptClass, .function, .inst, .array, .map, .native, .string, .upvalue, .module]

/-- The size that an object of the kind is accounted with, in bytes. -/
def size : Kind → Nat
  | .boundMethod => 32
  | .scriptClass => 160
  | .function => 120
  | .inst => 72
  | .array => 24
  | .map => 96
  | .native => 8
  | .string => 16
  | .upvalue => 24
  | .module => 64

/-- The name in reports of the collector. -/
def tag : Kind → String
  | .boundMethod => "OBJ_BOUND_METHOD"
  | .scriptClass => "OBJ_CLASS"
  | .function => "OBJ_FUNCTION"
  | .inst => "OBJ_INSTANCE"
  | .array => "OBJ_ARRAY"
  | .map => "OBJ_MAP"
  | .native => "OBJ_NATIVE"
  | .string => "OBJ_STRING"
  | .upvalue => "OBJ_UPVALUE"
  | .module => "OBJ_MODULE"

/-- The name in messages to script authors. -/
def name : Kind → String
  | .boundMethod => "Bound Method"
  | .scriptClass => "Class"
  | .function => "Function"
  | .inst => "Instance"
  | .array => "Array"
  | .map => "Map"
  | .native => "Native"
  | .string => "String"
  | .upvalue => "Upvalue"
  | .module => "Module"

end Kind

/-- Names a native object of the host that an instance stands for. -/
structure EntityId where
  index : Nat
deriving DecidableEq, Inhabited

/-- A function of a module. -/
structure FunctionObject where
  arity : Int32
  minArity : Int32
  nameHash : UInt32
  name : Option Handle
  className : Option Handle
  sourceFilename : Option Handle
  module : Option Handle
  code : Array UInt8
  lines : Option (Array Int32)
  constants : Array Value
deriving Inhabited

namespace FunctionObject

/-- A function with code and nothing else. -/
def ofCode (arity : Int32) (nameHash : UInt32) (code : Array UInt8) : FunctionObject :=
  { arity, minArity := arity, nameHash, name := none, className := none, sourceFilename := none,
    module := none, code, lines := none, constants := #[] }

/-- The source line of a byte of the code. -/
def line? (f : FunctionObject) (offset : Nat) : Option UInt32 := lineAt? f.lines offset

end FunctionObject

/-- Whether a class stands for itself or extends a class of the same name. -/
inductive ClassKind where
  | normal | extended
deriving DecidableEq, Inhabited

/-- A class. The parent is known by its hash and found on first use. -/
structure ClassObject where
  name : Option Handle
  hash : UInt32
  methods : Table Value
  fields : Table Value
  initializer : Option Value
  kind : ClassKind
  parentHash : Option UInt32
  parent : Option Handle
  entityBound : Bool
deriving Inhabited

namespace ClassObject

/-- A class with nothing in it. -/
def ofHash (hash : UInt32) : ClassObject :=
  { name := none, hash, methods := ∅, fields := ∅, initializer := none, kind := .normal,
    parentHash := none, parent := none, entityBound := false }

/-- Whether a parent is named and not yet found. -/
def isParentPending (c : ClassObject) : Bool := c.parentHash.isSome && c.parent.isNone

end ClassObject

/-- An instance of a class. -/
structure InstanceObject where
  classHandle : Handle
  fields : Table Value
  entity : Option EntityId
deriving Inhabited

/-- An instance without fields. -/
def InstanceObject.ofClass (c : Handle) : InstanceObject :=
  { classHandle := c, fields := ∅, entity := none }

/-- A loaded script. -/
structure ModuleObject where
  functions : Array Handle
  locals : Array Value
  sourceFilename : Option Handle
deriving Inhabited

/-- A map from texts: the entry under the hash of a key holds the key and its value. -/
structure MapObject where
  entries : Table (String × Value)
deriving Inhabited

namespace MapObject

/-- No entries. -/
def empty : MapObject := ⟨∅⟩

/-- Stores a value under a key. -/
def put (m : MapObject) (key : String) (v : Value) : MapObject :=
  ⟨m.entries.insert (hashName key) (key, v)⟩

/-- The value stored under the hash of a key. -/
def get? (m : MapObject) (key : String) : Option Value :=
  (m.entries.get? (hashName key)).map (·.2)

end MapObject

/-- An object of the heap. A native is known by its name. -/
inductive Obj where
  | string (text : String)
  | function (f : FunctionObject)
  | scriptClass (c : ClassObject)
  | inst (i : InstanceObject)
  | module (m : ModuleObject)
  | array (values : Array Value)
  | map (m : MapObject)
  | native (name : String)
  | boundMethod (receiver : Value) (method : Handle)
  | upvalue (closed : Value)
deriving Inhabited

namespace Obj

/-- The sort of an object. -/
def kind : Obj → Kind
  | .string _ => .string
  | .function _ => .function
  | .scriptClass _ => .scriptClass
  | .inst _ => .inst
  | .module _ => .module
  | .array _ => .array
  | .map _ => .map
  | .native _ => .native
  | .boundMethod _ _ => .boundMethod
  | .upvalue _ => .upvalue

/-- The accounted size of an object. -/
def size (o : Obj) : Nat := o.kind.size

/-- The handles among some values. -/
def handlesOf (values : List Value) : List Handle := values.filterMap Value.object?

/-- The handles that an object holds. -/
def children : Obj → List Handle
  | .string _ | .native _ => []
  | .function f =>
    f.name.toList ++ f.className.toList ++ f.sourceFilename.toList ++ f.module.toList ++
      handlesOf f.constants.toList
  | .scriptClass c =>
    c.name.toList ++ handlesOf c.methods.values ++ handlesOf c.fields.values ++
      handlesOf c.initializer.toList ++ c.parent.toList
  | .inst i => i.classHandle :: handlesOf i.fields.values
  | .module m => m.functions.toList ++ handlesOf m.locals.toList ++ m.sourceFilename.toList
  | .array values => handlesOf values.toList
  | .map m => handlesOf (m.entries.values.map (·.2))
  | .boundMethod receiver method => handlesOf [receiver] ++ [method]
  | .upvalue closed => handlesOf [closed]

end Obj
end ScriptVm
