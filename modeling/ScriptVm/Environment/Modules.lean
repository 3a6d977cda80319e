import ScriptVm.Container
import ScriptVm.Environment

/-!
# Loading modules

A container becomes a module object and one function object for each function, with the constants
of strings placed in the heap. Nothing runs.
-/

namespace ScriptVm
namespace Environment

/-- The value of a constant; a string is placed in the heap. -/
def loadConstant (env : Environment) : Constant → Value × Environment
  | .integer n => (.integer n, env)
  | .decimal d => (.decimal d, env)
  | .string s =>
    let (h, env) := env.newString s
    (.object h, env)

/-- The values of constants, appended to `loaded`. -/
def loadConstants : List Constant → Array Value → Environment → Array Value × Environment
  | [], loaded, env => (loaded, env)
  | k :: rest, loaded, env =>
    let (v, env) := env.loadConstant k
    loadConstants rest (loaded.push v) env

/-- The function object of function `index` of a container. -/
def loadFunction (env : Environment) (source module : Handle) (index : Nat) (p : Prototype) :
    Handle × Environment :=
  let (constants, env) := loadConstants p.chunk.constants.toList #[] env
  let title := Container.functionTitle env.tokens index p.nameHash
  let (name, env) := env.newString title
  env.alloc (.function
    { FunctionObject.ofCode p.arity p.nameHash p.chunk.code with
      name := some name, sourceFilename := some source, module := some module
      lines := p.chunk.lines, constants })

/-- The function objects of functions from `index` on, appended to `loaded`. -/
def loadFunctions (source module : Handle) :
    Nat → List Prototype → Array Handle → Environment → Array Handle × Environment
  | _, [], loaded, env => (loaded, env)
  | index, p :: rest, loaded, env =>
    let (h, env) := env.loadFunction source module index p
    loadFunctions source module (index + 1) rest (loaded.push h) env

/-- The module of a container; without a source file it is named by the hash of its own file. -/
def loadModule (env : Environment) (c : Container) (file : UInt32) : Handle × Environment :=
  let env := c.tokens.foldl (fun env name => (env.addToken name).2) env
  let (source, env) := env.newString (c.sourceFilename.getD (Text.hexWord file))
  let (module, env) := env.alloc (.module ⟨#[], #[], some source⟩)
  let (functions, env) := loadFunctions source module 0 c.functions #[] env
  let env := env.mapHeap (·.modifyModule module fun m => { m with functions })
  let env :=
    { env with functions := env.functions ++ functions, modules := env.modules.push module }
  (module, env.report .trace fun _ =>
    "Loaded module " ++ Text.hexWord file ++ s!" with {c.functions.length} functions")

/-- The module of a file; a file that is refused changes nothing. -/
def readModule (env : Environment) (bytes : List UInt8) (file : UInt32) :
    Except FormatError (Handle × Environment) :=
  (Container.decode bytes).map fun c => env.loadModule c file

/-- The first function of a module. -/
def entryFunction? (env : Environment) (module : Handle) : Option Handle :=
  (env.heap.module? module).bind (·.functions[0]?)

end Environment
end ScriptVm
