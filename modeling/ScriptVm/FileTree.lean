import ScriptVm.Bytes
import ScriptVm.Loader
import ScriptVm.Log

/-!
# File trees

The files that a command works on, as a tree fixed for the time of the command.

* A place is the list of the names that lead to it from the root of the tree.
* `resolve` follows a path component by component. Every place on the way has to be a directory
  that is there, also where the path goes back up from it.
* `read` gives the bytes of a file or the reason why there are none, `readIfFile?` does so if the
  path leads to a file.
* `Source.ofDirectory` takes the scripts and the class map of a directory.
-/

namespace ScriptVm

/-- What stands at a place: a file, whose bytes may be withheld, a directory, or something that
cannot even be looked at. -/
inductive FileNode where
  | file (bytes : List UInt8)
  | unreadable (reason : FileError)
  | directory
  | hidden (reason : FileError)

/-- Files and directories by place, and the directory that relative paths start from. -/
structure FileTree where
  entries : List (List String × FileNode)
  workingDirectory : List String

namespace FileTree

/-- The place one component further; the root is its own parent. -/
def descend (place : List String) (component : String) : List String :=
  if component = "" ∨ component = "." then place
  else if component = ".." then place.dropLast
  else place ++ [component]

/-- The place that a path starts from. -/
def startOf (workingDirectory : List String) (path : String) : List String :=
  if path.startsWith "/" then [] else workingDirectory

/-- The place of a path on which nothing is missing. -/
def placeOf (workingDirectory : List String) (path : String) : List String :=
  (path.splitOn "/").foldl descend (startOf workingDirectory path)

/-- A tree of files and directories; what comes later takes the place of what came before. -/
def ofPaths (workingDirectory : List String) (paths : List (String × FileNode)) : FileTree :=
  { entries := (paths.map fun e => (placeOf workingDirectory e.1, e.2)).reverse
    workingDirectory }

/-- What stands at a place; directories that only hold other entries count too. -/
def node? (t : FileTree) (place : List String) : Option FileNode :=
  match t.entries.find? (·.1 == place) with
  | some e => some e.2
  | none =>
    if place.isPrefixOf t.workingDirectory || t.entries.any (place.isPrefixOf ·.1) then
      some .directory
    else none

/-- The most bytes that a name has. -/
def maxName : Nat := 255

/-- The most bytes that a path has. -/
def maxPath : Nat := 4095

/-- Goes from a place to the next component of a path. -/
def step (t : FileTree) (place : List String) (component : String) :
    Except FileError (List String) :=
  match t.node? place with
  | none => .error .notFound
  | some (.file _) | some (.unreadable _) => .error .notDirectory
  | some (.hidden reason) => .error reason
  | some .directory =>
    if maxName < component.utf8ByteSize then .error .nameTooLong
    else if (t.node? (descend place component)).isSome then .ok (descend place component)
    else .error .notFound

/-- The place that a path leads to. -/
def resolve (t : FileTree) (path : String) : Except FileError (List String) :=
  if path.toList.contains (Char.ofNat 0) then .error .nulInName
  else if path.isEmpty then .error .notFound
  else if maxPath < path.utf8ByteSize then .error .nameTooLong
  else (path.splitOn "/").foldlM t.step (startOf t.workingDirectory path)

/-- The bytes of a file. -/
def read (t : FileTree) (path : String) : Except FileError (List UInt8) := do
  let place ← t.resolve path
  match t.node? place with
  | some (.file bytes) => return bytes
  | some (.unreadable reason) | some (.hidden reason) => .error reason
  | some .directory => .error .isDirectory
  | none => .error .notFound

/-- The bytes of a file or why they cannot be read, if the path leads to a file. -/
def readIfFile? (t : FileTree) (path : String) : Option (Except FileError (List UInt8)) :=
  match t.resolve path with
  | .error _ => none
  | .ok place =>
    match t.node? place with
    | some (.file bytes) => some (.ok bytes)
    | some (.unreadable reason) => some (.error reason)
    | _ => none

/-- The text of a file. -/
def readText (t : FileTree) (path : String) : Except FileError String := do
  let bytes ← t.read path
  match Bytes.ofUtf8? bytes with
  | some s => return s
  | none => .error .notText

end FileTree

namespace Source

/-- The file that holds the class map of a directory. -/
def classMapFilename : String := "Objects.hcm"

/-- The name of a script file. -/
def scriptName (hash : UInt32) : String := Text.hexWord hash ++ ".ibc"

/-- The path of an entry of a directory. -/
def entryPath (root name : String) : String :=
  if root.isEmpty ∨ root.endsWith "/" then root ++ name else root ++ "/" ++ name

/-- The tree in which a directory holds some scripts and, if there is one, a class map. -/
def layOut (root : String) (files : List (UInt32 × List UInt8)) (classMap : Option (List UInt8)) :
    FileTree :=
  .ofPaths [] (files.map (fun f => (entryPath root (scriptName f.1), .file f.2)) ++
    classMap.toList.map fun bytes => (entryPath root classMapFilename, .file bytes))

/-- What a directory answers for the script of a hash. -/
def directoryAnswer (t : FileTree) (root : String) (hash : UInt32) : FileAnswer :=
  let path := entryPath root (scriptName hash)
  match t.readIfFile? path with
  | none => .absent
  | some (.ok bytes) => .bytes bytes
  | some (.error reason) => .failed (.io path reason) rfl

/-- The scripts and the class map of a directory; a missing class map is noted in the log. -/
def ofDirectory (t : FileTree) (root : String) (log : Log) :
    Except RegistryError (Source × Log) :=
  let path := entryPath root classMapFilename
  let source (m : ClassMap) : Source := ⟨fun _ => directoryAnswer t root, m⟩
  match t.readIfFile? path with
  | none => .ok (source .empty, log.add .debug fun _ => "No class map in " ++ root)
  | some (.error reason) => .error (.io path reason)
  | some (.ok bytes) =>
    match ClassMap.decode bytes with
    | .ok m => .ok (source m, log)
    | .error e => .error (.container e)

end Source

end ScriptVm
