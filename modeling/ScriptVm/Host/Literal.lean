import ScriptVm.Host

/-!
# Literals

Values as a host writes them down. A literal becomes a value by placing its objects, the inner
ones before the outer and each list from its first element on.
-/

namespace ScriptVm

/-- A value as a host writes it down. -/
inductive Literal where
  | null
  | integer (n : Int32)
  | decimal (d : Decimal)
  | bool (b : Bool)
  | string (text : String)
  | array (items : List Literal)
  | map (keys : List String) (items : List Literal)
  | native (name : String)
  | link (cell : String)
  | named (name : String)
  | handle (h : Handle)
deriving Inhabited

namespace Host

/-- A map of keys and values, entered in order. -/
def mapOf (keys : List String) (values : List Value) : MapObject :=
  (keys.zip values).foldl (fun m e => m.put e.1 e.2) .empty

mutual

/-- The value of a literal. -/
def build : Literal → Hosting Value
  | .null => pure .null
  | .integer n => pure (.integer n)
  | .decimal d => pure (.decimal d)
  | .bool b => pure (.ofBool b)
  | .string text => Value.object <$> alloc (.string text)
  | .array items => do
    let values ← buildAll items
    Value.object <$> alloc (.array values.toArray)
  | .map keys items => do
    let values ← buildAll items
    Value.object <$> alloc (.map (mapOf keys values))
  | .native name => Value.object <$> alloc (.native name)
  | .link name => return (← cell name).link.value
  | .named name => value name
  | .handle h => pure (.object h)

/-- The values of literals, in order. -/
def buildAll : List Literal → Hosting (List Value)
  | [] => pure []
  | l :: rest => do
    let v ← build l
    return v :: (← buildAll rest)

end

end Host
end ScriptVm
