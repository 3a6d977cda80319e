import ScriptVm.Heap
import ScriptVm.Json

/-!
# Configurations

How a registry is set up. A configuration is written in JSON, as an object or as the list of its
settings in order; what is left out keeps its default.

* `ofJson?` reads a configuration and `toJson` writes one.
* `threads` is the number of threads that a registry gets.
-/

namespace ScriptVm

/-- How a registry is set up. -/
structure Config where
  threadCount : Nat
  threshold : Nat
  growth : Nat
  debug : Bool
  autoCollect : Bool
deriving DecidableEq

namespace Config

/-- One thread, the usual thresholds, and automatic collection. -/
def standard : Config :=
  { threadCount := 1, threshold := Heap.defaultThreshold, growth := Heap.defaultGrowth
    debug := false, autoCollect := true }

instance : Inhabited Config := ⟨standard⟩

/-- The most threads that a registry has. -/
def maxThreads : Nat := 8

/-- The number of threads, at least one and at most eight. -/
def threads (c : Config) : Nat := Nat.max 1 (Nat.min maxThreads c.threadCount)

/-- A setting. -/
inductive Setting where
  | threadCount | threshold | growth | debug | autoCollect
deriving DecidableEq

namespace Setting

/-- The settings in order. -/
def all : List Setting := [.threadCount, .threshold, .growth, .debug, .autoCollect]

/-- The name of a setting. -/
def key : Setting → String
  | .threadCount => "thread_count"
  | .threshold => "initial_gc_threshold"
  | .growth => "gc_growth"
  | .debug => "debug"
  | .autoCollect => "auto_gc"

/-- The setting of a name. -/
def ofKey? (s : String) : Option Setting := all.find? (·.key == s)

end Setting

/-- The number of distinct numbers that a setting can have. -/
def numberRange : Nat := 18446744073709551616

/-- Reads the value of a setting. -/
def readSetting? (c : Config) (cs : List Char) : Setting → Option (Config × List Char)
  | .threadCount =>
    (Json.natural? numberRange cs).map fun (n, rest) => ({ c with threadCount := n }, rest)
  | .threshold =>
    (Json.natural? numberRange cs).map fun (n, rest) => ({ c with threshold := n }, rest)
  | .growth => (Json.natural? numberRange cs).map fun (n, rest) => ({ c with growth := n }, rest)
  | .debug => (Json.boolean? cs).map fun (b, rest) => ({ c with debug := b }, rest)
  | .autoCollect => (Json.boolean? cs).map fun (b, rest) => ({ c with autoCollect := b }, rest)

/-- Reads the value of a member; unknown members are passed over and known ones come once. -/
def readMember? (c : Config) (seen : List Setting) (key : String) (cs : List Char) :
    Option (Config × List Setting × List Char) :=
  match Setting.ofKey? key with
  | none => (Json.skipValue? cs).map fun rest => (c, seen, rest)
  | some s =>
    if s ∈ seen then none
    else (readSetting? c cs s).map fun (c, rest) => (c, s :: seen, rest)

/-- Reads members up to the closing brace; each takes a character, so `fuel` of them are enough. -/
def readMembers? : Nat → Config → List Setting → List Char → Option (Config × List Char)
  | 0, _, _, _ => none
  | fuel + 1, c, seen, cs => do
    let (key, rest) ← Json.string? cs
    let rest ← Json.symbol? ':' rest
    let (c, seen, rest) ← readMember? c seen key rest
    match Json.skipBlanks rest with
    | ',' :: rest => readMembers? fuel c seen rest
    | '\x7d' :: rest => some (c, rest)
    | _ => none

/-- Reads the elements of a list of settings up to the closing bracket. -/
def readElements? : List Setting → Config → List Char → Option (Config × List Char)
  | [], _, _ => none
  | s :: others, c, cs => do
    let (c, rest) ← readSetting? c cs s
    match Json.skipBlanks rest with
    | ',' :: rest => readElements? others c rest
    | ']' :: rest => some (c, rest)
    | _ => none

/-- Reads a configuration and gives what follows it. -/
def read? (cs : List Char) : Option (Config × List Char) :=
  match Json.skipBlanks cs with
  | '\x7b' :: rest =>
    match Json.skipBlanks rest with
    | '\x7d' :: rest => some (standard, rest)
    | rest => readMembers? (rest.length + 1) standard [] rest
  | '[' :: rest =>
    match Json.skipBlanks rest with
    | ']' :: rest => some (standard, rest)
    | rest => readElements? Setting.all standard rest
  | _ => none

/-- Reads a configuration; nothing but blanks may follow it. -/
def ofJson? (text : String) : Option Config := do
  let (c, rest) ← read? text.toList
  if (Json.skipBlanks rest).isEmpty then some c else none

/-- The value of a setting in JSON. -/
def settingText (c : Config) : Setting → String
  | .threadCount => toString c.threadCount
  | .threshold => toString c.threshold
  | .growth => toString c.growth
  | .debug => toString c.debug
  | .autoCollect => toString c.autoCollect

/-- Writes a configuration. -/
def toJson (c : Config) : String :=
  "\x7b" ++ String.intercalate ","
    (Setting.all.map fun s => "\"" ++ s.key ++ "\":" ++ settingText c s) ++ "\x7d"

end Config
end ScriptVm
