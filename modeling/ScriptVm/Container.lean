import ScriptVm.Bytes.Decoder
import ScriptVm.Chunk
import ScriptVm.Disassembly

/-!
# Bytecode containers

The file format of compiled scripts: a header, the functions with their code, lines and
constants, then the names used in the code and the name of the source file.

* `Container.encode` writes a container and `Container.decode` reads one.
* `Container.disassemble` lists every function.
-/

namespace ScriptVm

/-- A compiled function. -/
structure Prototype where
  arity : Int32
  nameHash : UInt32
  chunk : Chunk
deriving DecidableEq, Inhabited

/-- A compiled script. -/
structure Container where
  version : UInt8
  debugInfo : Bool
  functions : List Prototype
  tokens : List String
  sourceFilename : Option String
deriving DecidableEq, Inhabited

namespace Container

/-- The first four bytes of a container. -/
def magic : List UInt8 := [0x48, 0x54, 0x56, 0x4D]

/-- The latest version of the format. -/
def latestVersion : UInt8 := 0

/-- A container of functions and nothing else. -/
def ofFunctions (functions : List Prototype) : Container :=
  { version := latestVersion, debugInfo := false, functions, tokens := [], sourceFilename := none }

/-- Adds names, which count as debugging information. -/
def withTokens (c : Container) (tokens : List String) : Container :=
  { c with debugInfo := true, tokens }

/-- Adds the name of the source file. -/
def withSourceFilename (c : Container) (name : String) : Container :=
  { c with sourceFilename := some name }

/-- Equal fields, with constants that agree. -/
def agrees (a b : Container) : Bool :=
  a.version == b.version && a.debugInfo == b.debugInfo && a.tokens == b.tokens &&
    a.sourceFilename == b.sourceFilename && a.functions.length == b.functions.length &&
    (a.functions.zip b.functions).all fun p =>
      p.1.arity == p.2.arity && p.1.nameHash == p.2.nameHash && p.1.chunk.agrees p.2.chunk

/-! ### Writing -/

/-- A count, low byte first. -/
def encodeCount (n : Nat) : List UInt8 := Bytes.bytes32 n.toUInt32

/-- A length and the bytes of a text. -/
def encodeString (s : String) : List UInt8 :=
  let bytes := Bytes.utf8 s
  encodeCount bytes.length ++ bytes

/-- A tag and the constant. -/
def encodeConstant : Constant → List UInt8
  | .integer n => 1 :: Bytes.bytes32 n.toUInt32
  | .decimal d => 2 :: Bytes.bytes32 d.bits
  | .string s => 3 :: encodeString s

/-- One line for each byte of code; a missing line is written as zero. -/
def lineTable (c : Chunk) : List Int32 :=
  (List.range c.code.size).map fun i => (c.lines.bind (·[i]?)).getD 0

/-- The lines of a chunk. -/
def encodeLines (c : Chunk) : List UInt8 :=
  (lineTable c).flatMap fun line => Bytes.bytes32 line.toUInt32

/-- The record of one function. -/
def encodeFunction (debugInfo : Bool) (f : Prototype) : List UInt8 :=
  encodeCount f.chunk.code.size ++ Bytes.bytes32 f.arity.toUInt32 ++ Bytes.bytes32 f.nameHash ++
    f.chunk.code.toList ++ (if debugInfo then encodeLines f.chunk else []) ++
    encodeCount f.chunk.constants.size ++ f.chunk.constants.toList.flatMap encodeConstant

/-- The option bits: debugging information, then source file. -/
def options (c : Container) : UInt8 :=
  (if c.debugInfo then 1 else 0) ||| (if c.sourceFilename.isSome then 2 else 0)

/-- The names, present with debugging information. -/
def encodeTokens (c : Container) : List UInt8 :=
  if c.debugInfo then encodeCount c.tokens.length ++ c.tokens.flatMap encodeString else []

/-- The source file, if there is one. -/
def encodeSource (c : Container) : List UInt8 :=
  match c.sourceFilename with
  | some name => encodeString name
  | none => []

/-- The bytes of a container. -/
def encode (c : Container) : List UInt8 :=
  magic ++ [c.version, c.options, 0] ++ encodeCount c.functions.length ++
    c.functions.flatMap (encodeFunction c.debugInfo) ++ c.encodeTokens ++ c.encodeSource

/-! ### Reading -/

/-- Reads a constant. -/
def decodeConstant : Decoder Constant := do
  let start ← Decoder.offset
  match ← Decoder.byte with
  | 1 => return .integer (← Decoder.signedWord)
  | 2 => return .decimal ⟨← Decoder.word⟩
  | 3 => return .string (← Decoder.string)
  | tag => Decoder.fail (.unknownConstantTag tag start)

/-- Reads the record of one function. -/
def decodeFunction (debugInfo : Bool) : Decoder Prototype := do
  let length ← Decoder.count .instructions
  let arity ← Decoder.signedWord
  let nameHash ← Decoder.word
  let code ← Decoder.take length
  let lines ← if debugInfo then some <$> Decoder.times length Decoder.signedWord else pure none
  let constantCount ← Decoder.count .constants
  let constants ← Decoder.times constantCount decodeConstant
  return { arity, nameHash, chunk := { code := code.toArray, lines, constants, currentLine := 0 } }

/-- Reads the header up to the options. -/
def decodeHeader : Decoder (UInt8 × UInt8) := do
  let found ← Decoder.take 4
  if found ≠ magic then Decoder.fail .badMagic
  let version ← Decoder.byte
  if latestVersion < version then Decoder.fail (.unsupportedVersion version)
  let options ← Decoder.byte
  let _ ← Decoder.take 1
  return (version, options)

/-- Reads a container. -/
def decoder : Decoder Container := do
  let (version, options) ← decodeHeader
  let debugInfo := options &&& 1 != 0
  let functionCount ← Decoder.count .functions
  if functionCount = 0 then Decoder.fail .noFunctions
  let functions ← Decoder.times functionCount (decodeFunction debugInfo)
  let tokens ←
    if debugInfo then do
      let tokenCount ← Decoder.count .tokens
      Decoder.times tokenCount Decoder.string
    else pure #[]
  let sourceFilename ←
    if options &&& 2 != 0 then some <$> Decoder.string else pure none
  return { version, debugInfo, functions := functions.toList, tokens := tokens.toList,
           sourceFilename }

/-- The container that a file holds. -/
def decode (bytes : List UInt8) : Except FormatError Container := decoder.run bytes

/-! ### Listing -/

/-- The names of a container by hash. -/
def names (c : Container) : Table String :=
  c.tokens.foldl (fun t name => t.insert (hashName name) name) ∅

/-- The title of a function: its name if known, and the first one is the main function. -/
def functionTitle (names : Table String) (index : Nat) (hash : UInt32) : String :=
  match names.get? hash with
  | some name => name
  | none => if index = 0 then "main" else "<anonymous-fn>"

/-- The listings of all functions. -/
def disassemble (c : Container) : String :=
  String.join <| c.functions.mapIdx fun index f =>
    Disassembly.listing (some c.names) (functionTitle c.names index f.nameHash) f.chunk

end Container
end ScriptVm
