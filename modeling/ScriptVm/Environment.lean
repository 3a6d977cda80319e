import ScriptVm.Loader
import ScriptVm.Log
import ScriptVm.Native
import ScriptVm.Thread

/-!
# Environments

What the threads of a machine share: memory, the tables of globals, constants and known names,
the modules, functions and classes loaded, and the host's natives and loader.

* `addToken` makes a name known; the `Name` functions are how functions, classes and variables
  appear in messages.
* `bind` and its companions are how a host gives scripts classes, natives, links and constants.
* `roots` are the handles that keep objects alive.
-/

namespace ScriptVm

/-- What threads share. -/
structure Environment where
  memory : Memory
  globals : Table Value
  constants : Table Value
  tokens : Table String
  modules : Array Handle
  functions : Array Handle
  classes : Array Handle
  entityBase : Option Handle
  extraRoots : Array Value
  activeThreads : Nat
  natives : Natives
  loader : Option Loader
  log : Log
deriving Inhabited

namespace Environment

/-- Nothing defined. -/
def new (heap : Heap) (natives : Natives) (loader : Option Loader) (log : Log) : Environment :=
  { memory := .ofHeap heap, globals := ∅, constants := ∅, tokens := ∅, modules := #[],
    functions := #[], classes := #[], entityBase := none, extraRoots := #[], activeThreads := 1,
    natives, loader, log }

/-- The heap. -/
abbrev heap (env : Environment) : Heap := env.memory.heap

/-- Adds a line to the log. -/
@[inline] def report (env : Environment) (level : Level) (text : Unit → String) : Environment :=
  { env with log := env.log.add level text }

/-- Changes the heap. -/
def mapHeap (env : Environment) (f : Heap → Heap) : Environment :=
  { env with memory := env.memory.mapHeap f }

/-- Places an object. -/
def alloc (env : Environment) (o : Obj) : Handle × Environment :=
  let memory := env.memory
  let env := { env with memory := default }
  let (h, memory) := memory.alloc o
  (h, { env with memory })

/-- Places a string. -/
def newString (env : Environment) (s : String) : Handle × Environment := env.alloc (.string s)

/-! ### Names -/

/-- Makes a name known and gives its hash; the first name of a hash stays. -/
def addToken (env : Environment) (name : String) : UInt32 × Environment :=
  let hash := hashName name
  (hash, { env with tokens := env.tokens.insertNew hash name })

/-- The name known for a hash. -/
def token? (env : Environment) (hash : UInt32) : Option String := env.tokens.get? hash

/-- The name known for a hash, or the hash itself. -/
def tokenOrHex (env : Environment) (hash : UInt32) : String :=
  (env.token? hash).getD (Text.hex hash.toNat)

/-- How a variable appears in messages. -/
def variableName (env : Environment) (hash : UInt32) : String :=
  match env.token? hash with
  | some name => "\"" ++ name ++ "\""
  | none => "$[" ++ Text.hexWord hash ++ "]"

/-- How a function appears in messages. -/
def functionName (env : Environment) (h : Handle) : String :=
  match env.heap.function? h with
  | none => "<anonymous-fn>"
  | some f =>
    let name := (f.name.bind env.heap.string?).getD (env.tokenOrHex f.nameHash)
    if name == "main" then "top-level function"
    else if name == "<anonymous-fn>" then name
    else
      match f.className.bind env.heap.string? with
      | some c => "method " ++ c ++ "::" ++ name
      | none => "function " ++ name

/-- The source file of a function. -/
def sourceFilename (env : Environment) (h : Handle) : String :=
  (((env.heap.function? h).bind (·.sourceFilename)).bind env.heap.string?).getD "?"

/-- How a class appears in messages. -/
def className (env : Environment) (h : Handle) : String :=
  match env.heap.class? h with
  | some c => (c.name.bind env.heap.string?).getD (Text.hexWord c.hash)
  | none => "?"

/-! ### Tables -/

/-- The global of a name. -/
def global? (env : Environment) (name : String) : Option Value := env.globals.get? (hashName name)

/-- The constant of a name. -/
def constant? (env : Environment) (name : String) : Option Value :=
  env.constants.get? (hashName name)

/-- Defines a global and makes its name known. -/
def setGlobal (env : Environment) (name : String) (v : Value) : Environment :=
  let (hash, env) := env.addToken name
  { env with globals := env.globals.insert hash v }

/-- Defines the constant of a hash. -/
def setConstant (env : Environment) (hash : UInt32) (v : Value) : Environment :=
  { env with constants := env.constants.insert hash v }

/-- Keeps a value alive until it is let go. -/
def addRoot (env : Environment) (v : Value) : Environment :=
  { env with extraRoots := env.extraRoots.push v }

/-- The class that is the global of a hash. -/
def classByHash? (env : Environment) (hash : UInt32) : Option Handle :=
  ((env.globals.get? hash).bind Value.object?).filter env.heap.isClass

/-- The class that is the global of a name. -/
def classByName? (env : Environment) (name : String) : Option Handle :=
  env.classByHash? (hashName name)

/-- Whether the constant of a name is a class. -/
def isStandardClass (env : Environment) (name : String) : Bool :=
  (((env.constant? name).bind Value.object?).filter env.heap.isClass).isSome

/-! ### Binding -/

/-- A new class with a name. -/
def newClass (env : Environment) (name : String) : Handle × Environment :=
  let (hash, env) := env.addToken name
  let (text, env) := env.newString name
  env.alloc (.scriptClass { ClassObject.ofHash hash with name := some text })

/-- A new class of the host, bound as a constant. -/
def newNativeClass (env : Environment) (name : String) : Handle × Environment :=
  let (c, env) := env.newClass name
  (c, { env with constants := env.constants.insert (hashName name) (.object c) })

/-- Makes the class that entities fall back to. -/
def installEntityBase (env : Environment) (name : String) : Handle × Environment :=
  let (c, env) := env.newNativeClass name
  (c, { env with entityBase := some c })

/-- Gives a class a method, under its hash. -/
def insertMethod (env : Environment) (c : Handle) (hash : UInt32) (v : Value) : Environment :=
  env.mapHeap (·.modifyClass c fun k => { k with methods := k.methods.insert hash v })

/-- Gives a class a native method unless it has a method of that name. -/
def defineNative (env : Environment) (c : Handle) (name native : String) : Environment :=
  let (hash, env) := env.addToken name
  match env.heap.class? c with
  | none => env
  | some k =>
    if k.methods.contains hash then env
    else
      let (h, env) := env.alloc (.native native)
      env.insertMethod c hash (.object h)

/-- Binds a value to a name: as a method of a class, as a constant, or as a global. -/
def bind (env : Environment) (c : Option Handle) (name : String) (v : Value) (constant : Bool) :
    Environment :=
  let (hash, env) := env.addToken name
  match c with
  | some c => env.insertMethod c hash v
  | none =>
    if constant then { env with constants := env.constants.insert hash v }
    else { env with globals := env.globals.insert hash v }

/-- Binds a link to a name. -/
def bindLink (env : Environment) (c : Option Handle) (name : String) (l : Link) : Environment :=
  env.bind c name l.value false

/-- Binds a constant to a name. -/
def bindConstant (env : Environment) (c : Option Handle) (name : String) (v : Value) :
    Environment :=
  env.bind c name v true

/-- Binds what the host gives to a name, in a class or for all scripts; a native needs a class. -/
def bindValue (env : Environment) (c : Option Handle) (name : String) :
    MemberValue → Environment
  | .native native =>
    match c with
    | some c => env.defineNative c name native
    | none => env
  | .link l => env.bindLink c name l
  | .integer n => env.bindConstant c name (.integer n)
  | .decimal d => env.bindConstant c name (.decimal d)

/-- Gives a class one of the host's members. -/
def bindMember (env : Environment) (c : Handle) (m : Member) : Environment :=
  env.bindValue (some c) m.name m.value

/-- The form in debugging output. -/
def debugText (env : Environment) : String :=
  s!"Runtime \x7b objects: {env.heap.live}, globals: {env.globals.size}, " ++
    s!"constants: {env.constants.size}, tokens: {env.tokens.size}, " ++
    s!"modules: {env.modules.size}, functions: {env.functions.size}, " ++
    s!"active_threads: {env.activeThreads} \x7d"

/-- A table by the names of its hashes. -/
def named (env : Environment) (t : Table Value) : List (String × View) :=
  t.entries.map fun e => (env.tokenOrHex e.1, env.memory.view e.2)

end Environment
end ScriptVm
