import ScriptVm.Bytes.Decoder

/-!
# Class maps

Which files make up each class. A class map lists class hashes with the hashes of their files.

* `insert` files a class under its first entry; `files?` reads the first entry.
* `encode` and `decode` are the file format.
-/

namespace ScriptVm

/-- The files of a class. -/
structure ClassEntry where
  classHash : UInt32
  files : List UInt32
deriving DecidableEq, Inhabited

/-- The files of every class, in the order in which the classes were added. -/
structure ClassMap where
  entries : List ClassEntry
deriving DecidableEq, Inhabited

namespace ClassMap

/-- No classes. -/
def empty : ClassMap := ⟨[]⟩

/-- Adds a file to an entry unless it is there. -/
def addFile (file : UInt32) (e : ClassEntry) : ClassEntry :=
  if file ∈ e.files then e else { e with files := e.files ++ [file] }

/-- Adds a file to the first entry of a class, or a new entry at the end. -/
def insertInto (classHash file : UInt32) : List ClassEntry → List ClassEntry
  | [] => [⟨classHash, [file]⟩]
  | e :: rest =>
    if e.classHash = classHash then addFile file e :: rest
    else e :: insertInto classHash file rest

/-- Adds a file to a class. -/
def insert (m : ClassMap) (classHash file : UInt32) : ClassMap :=
  ⟨insertInto classHash file m.entries⟩

/-- The class map of classes and files, added in order. -/
def ofPairs (pairs : List (UInt32 × UInt32)) : ClassMap :=
  pairs.foldl (fun m p => m.insert p.1 p.2) empty

/-- The files of a class, by its first entry. -/
def files? (m : ClassMap) (classHash : UInt32) : Option (List UInt32) :=
  (m.entries.find? (·.classHash == classHash)).map (·.files)

/-- Whether a class has an entry. -/
def contains (m : ClassMap) (classHash : UInt32) : Bool := (m.files? classHash).isSome

/-- The files of all classes, each once, in order. -/
def allFiles (m : ClassMap) : List UInt32 :=
  m.entries.foldl
    (fun found e => e.files.foldl (fun l f => if f ∈ l then l else l ++ [f]) found) []

/-- The first four bytes of a class map. -/
def magic : List UInt8 := [0x48, 0x4D, 0x41, 0x50]

/-- The version bytes that are written; readers pass over them. -/
def versionBytes : List UInt8 := [0x00, 0x01, 0x02, 0x03]

/-- The record of one class. -/
def encodeEntry (e : ClassEntry) : List UInt8 :=
  Bytes.bytes32 e.classHash ++ Bytes.bytes32 e.files.length.toUInt32 ++
    e.files.flatMap Bytes.bytes32

/-- The bytes of a class map. -/
def encode (m : ClassMap) : List UInt8 :=
  magic ++ versionBytes ++ Bytes.bytes32 m.entries.length.toUInt32 ++
    m.entries.flatMap encodeEntry

/-- Reads the record of one class. -/
def decodeEntry : Decoder ClassEntry := do
  let classHash ← Decoder.word
  let fileCount ← Decoder.word
  let files ← Decoder.times fileCount.toNat Decoder.word
  return ⟨classHash, files.toList⟩

/-- Reads a class map. -/
def decoder : Decoder ClassMap := do
  let found ← Decoder.take 4
  if found ≠ magic then Decoder.fail .badMagic
  let _ ← Decoder.take 4
  let count ← Decoder.word
  let entries ← Decoder.times count.toNat decodeEntry
  return ⟨entries.toList⟩

/-- The class map that a file holds. -/
def decode (bytes : List UInt8) : Except FormatError ClassMap := decoder.run bytes

end ClassMap
end ScriptVm
