import ScriptVm.Object

/-!
# Places in objects

Where a host can put a value into an object: at the end of an array, of a module's locals or of a
function's constants, under a key of a map, under a hash of an instance or class, or in the one
slot of a bound method or upvalue.
-/

namespace ScriptVm

/-- Where a value can be put. -/
inductive Place where
  | element
  | key (text : String)
  | field (hash : UInt32)
  | method (hash : UInt32)
  | moduleLocal
  | constant
  | receiver
  | closed
deriving DecidableEq

/-- The object with a value put in a place; `none` if objects of its kind have no such place. -/
def Obj.put? (v : Value) : Place → Obj → Option Obj
  | .element, .array values => some (.array (values.push v))
  | .key text, .map m => some (.map (m.put text v))
  | .field hash, .inst i => some (.inst { i with fields := i.fields.insert hash v })
  | .field hash, .scriptClass c =>
    some (.scriptClass { c with fields := c.fields.insert hash v })
  | .method hash, .scriptClass c =>
    some (.scriptClass { c with methods := c.methods.insert hash v })
  | .moduleLocal, .module m => some (.module { m with locals := m.locals.push v })
  | .constant, .function f => some (.function { f with constants := f.constants.push v })
  | .receiver, .boundMethod _ method => some (.boundMethod v method)
  | .closed, .upvalue _ => some (.upvalue v)
  | _, _ => none

end ScriptVm
