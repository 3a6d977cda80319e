import ScriptVm.ClassMap
import ScriptVm.Memory
import ScriptVm.NameHash
import ScriptVm.RegistryError

/-!
# Class loaders

Where scripts come from and which of them are loaded.

* `Source` is what the questions for files are answered with, and the class map that assigns files
  to classes. Files come and go, so that a question may have another answer later.
* `Binder` gives the classes of scripts the members that the host has for them.
* `Loader` remembers the files fetched and the classes bound since it was last cleared. A file
  counts as fetched before it runs, so that classes that import each other load once. A file that
  is absent or cannot be fetched is not remembered.
-/

namespace ScriptVm

/-- What a source says of a file. It may fail; its errors are no script's and have no trace. -/
inductive FileAnswer where
  | absent
  | bytes (bytes : List UInt8)
  | failed (e : RegistryError) (untraced : e.toFault.stack = [])
deriving Inhabited, DecidableEq

/-- What the questions for files are answered with, one after the other, and the classes made from
the files. -/
structure Source where
  answer : Nat → UInt32 → FileAnswer
  classMap : ClassMap
deriving Inhabited

namespace Source

/-- No files. -/
def empty : Source := ⟨fun _ _ => .absent, .empty⟩

/-- The source after one question. -/
def later (s : Source) : Source := { s with answer := fun n => s.answer (n + 1) }

/-- Adds a file that stays. -/
def insert (s : Source) (hash : UInt32) (bytes : List UInt8) : Source :=
  { s with answer := fun n file => if file = hash then .bytes bytes else s.answer n file }

/-- Assigns a file to a class. -/
def mapClass (s : Source) (name : String) (file : UInt32) : Source :=
  { s with classMap := s.classMap.insert (hashName name) file }

/-- The source of some files and of classes assigned to them, in order. -/
def ofLists (files : List (UInt32 × List UInt8)) (classes : List (String × UInt32)) : Source :=
  let s := files.foldl (fun s f => s.insert f.1 f.2) empty
  classes.foldl (fun s c => s.mapClass c.1 c.2) s

end Source

/-- What the host gives a class. -/
inductive MemberValue where
  | native (name : String)
  | link (l : Link)
  | integer (n : Int32)
  | decimal (d : Decimal)

/-- A member that the host has for a class. -/
structure Member where
  className : String
  name : String
  value : MemberValue

/-- The members that the host has for classes, and the classes that were given theirs. -/
structure Binder where
  members : List Member
  bound : Array String

/-- Files fetched, classes bound, and where both come from. -/
structure Loader where
  source : Source
  fetched : List UInt32
  boundClasses : List UInt32
  binder : Option Binder

/-- What fetching a file gives. -/
inductive Fetched where
  | cached
  | absent
  | fresh (bytes : List UInt8)

namespace Loader

/-- Nothing loaded. -/
def ofSource (s : Source) : Loader := ⟨s, [], [], none⟩

/-- Whether a file was fetched. -/
def isLoaded (l : Loader) (file : UInt32) : Bool := l.fetched.contains file

/-- Whether a class has files. -/
def classExists (l : Loader) (name : String) : Bool := l.source.classMap.contains (hashName name)

/-- Gives the classes bound from now on the members of a host. -/
def setBinder (l : Loader) (members : List Member) : Loader :=
  { l with binder := some ⟨members, #[]⟩ }

/-- Forgets what is loaded. -/
def clear (l : Loader) : Loader := { l with fetched := [], boundClasses := [] }

/-- The loader after a question for a file. -/
def asked (l : Loader) : Loader := { l with source := l.source.later }

/-- Asks for a file that was not fetched yet, and remembers it if it is there. -/
def fetch (l : Loader) (file : UInt32) : Except RegistryError Fetched × Loader :=
  if l.isLoaded file then (.ok .cached, l)
  else
    match l.source.answer 0 file with
    | .absent => (.ok .absent, l.asked)
    | .failed e _ => (.error e, l.asked)
    | .bytes bytes => (.ok (.fresh bytes), { l.asked with fetched := file :: l.fetched })

end Loader
end ScriptVm
