import Mathlib.Data.List.TakeWhile
import Mathlib.Tactic.Common
import ScriptVm.Native.Catalog
import ScriptVm.Proofs.Registry.Success

/-!
# Names of files with and without an extension

A file is known by the hash of its name up to the last point. The last point is looked for in
the whole path, so a path without an extension is cut inside of a directory that has a point
in its name.

* `lastComponent` is what follows the last slash of a path. `IsBare` says that it has no extension,
  `IsExtension` what may be put behind it.
* `stem_append` and `stem_eq_self` are the two ways in which a path is cut.
* `file_keys` is the result: all extensions lead to one file, and the bare name leads there too
  unless a directory on the way has a point in its name.
-/

namespace ScriptVm
namespace NameHash

variable {path extension : String} {name rest : List Char}

/-- What follows the last slash of a path. -/
def lastComponent (path : List Char) : List Char := (path.reverse.takeWhile (· != '/')).reverse

/-- What precedes the last component of a path. -/
def directories (path : List Char) : List Char := (path.reverse.dropWhile (· != '/')).reverse

/-- The path ends in a name without an extension. -/
structure IsBare (path : String) : Prop where
  named : lastComponent path.toList ≠ []
  point : '.' ∉ lastComponent path.toList

/-- The text can be the extension of a name. -/
structure IsExtension (extension : String) : Prop where
  point : '.' ∉ extension.toList
  slash : '/' ∉ extension.toList

instance (path : String) : Decidable (IsBare path) :=
  decidable_of_iff' (lastComponent path.toList ≠ [] ∧ '.' ∉ lastComponent path.toList)
    ⟨fun h => ⟨h.named, h.point⟩, fun h => ⟨h.1, h.2⟩⟩

instance (extension : String) : Decidable (IsExtension extension) :=
  decidable_of_iff' ('.' ∉ extension.toList ∧ '/' ∉ extension.toList)
    ⟨fun h => ⟨h.point, h.slash⟩, fun h => ⟨h.1, h.2⟩⟩

theorem directories_append_lastComponent (path : List Char) :
    directories path ++ lastComponent path = path := by
  unfold directories lastComponent
  rw [← List.reverse_append, List.takeWhile_append_dropWhile, List.reverse_reverse]

/-- A point in a bare path stands in one of its directories. -/
theorem IsBare.mem_directories (hpath : IsBare path) (hpoint : '.' ∈ path.toList) :
    '.' ∈ directories path.toList := by
  rw [← directories_append_lastComponent path.toList, List.mem_append] at hpoint
  exact hpoint.resolve_right hpath.point

/-! ### The cut -/

/-- A name is cut at its last point. -/
theorem stem_append (hrest : '.' ∉ rest) : stem (name ++ '.' :: rest) = name := by
  have hbehind : ∀ c ∈ rest.reverse, c != '.' := by
    intro c hc
    exact bne_iff_ne.2 fun heq => hrest (heq ▸ List.mem_reverse.1 hc)
  unfold stem
  rw [List.reverse_append, List.reverse_cons, List.append_assoc,
    List.dropWhile_append_of_pos hbehind]
  exact List.reverse_reverse name

/-- A name without a point is not cut. -/
theorem stem_eq_self (hname : '.' ∉ name) : stem name = name := by
  have hall : name.reverse.dropWhile (· != '.') = [] := by
    refine List.dropWhile_eq_nil_iff.2 fun c hc => ?_
    exact bne_iff_ne.2 fun heq => hname (heq ▸ List.mem_reverse.1 hc)
  unfold stem
  rw [hall]

/-- What is behind the last point of the front part of a name does not matter. -/
theorem stem_append_of_mem (hname : '.' ∈ name) (hrest : '.' ∉ rest) :
    stem (name ++ rest) = stem name := by
  obtain ⟨behind, front, hreverse, hbehind⟩ :=
    List.eq_append_cons_of_mem (List.mem_reverse.2 hname)
  have hsplit : name = front.reverse ++ '.' :: behind.reverse := by
    simpa using congrArg List.reverse hreverse
  have hbehind' : '.' ∉ behind.reverse := fun hmem => hbehind (List.mem_reverse.1 hmem)
  rw [hsplit, List.append_assoc, List.cons_append, stem_append hbehind', stem_append]
  exact fun hmem => (List.mem_append.1 hmem).elim hbehind' hrest

/-- The key of a name with an extension is the hash of the bare name. -/
theorem hashFilename_append (path : String) (hextension : IsExtension extension) :
    hashFilename (path ++ "." ++ extension) = hashName path := by
  have hlist : (path ++ "." ++ extension).toList = path.toList ++ '.' :: extension.toList := by
    simp
  unfold hashFilename
  rw [hlist, stem_append hextension.point, String.ofList_toList]

/-- The key of a bare name is its hash if no directory has a point in its name. Else it is that of
the directories up to their last point. -/
theorem IsBare.hashFilename_eq (hpath : IsBare path) : hashFilename path =
    if '.' ∈ directories path.toList then
      hashName (String.ofList (stem (directories path.toList)))
    else hashName path := by
  unfold hashFilename
  split
  case isTrue hpoint =>
    rw [← stem_append_of_mem hpoint hpath.point, directories_append_lastComponent]
  case isFalse hpoint =>
    rw [stem_eq_self fun hmem => hpoint (hpath.mem_directories hmem), String.ofList_toList]

/-- **Keys of files.** A name with an extension has the hash of the bare name as its key. So has the
bare name, unless a directory has a point in its name and the hashes differ. -/
theorem file_keys (hpath : IsBare path) :
    (∀ extension, IsExtension extension →
      hashFilename (path ++ "." ++ extension) = hashName path ∧
      ∀ fuel, Registry.loadScriptNamed fuel (path ++ "." ++ extension) =
        Registry.loadScript fuel (hashName path)) ∧
    ('.' ∉ directories path.toList →
      hashFilename path = hashName path ∧
      ∀ fuel, Registry.loadScriptNamed fuel path = Registry.loadScript fuel (hashName path)) ∧
    ('.' ∈ directories path.toList →
      let key := hashName (String.ofList (stem (directories path.toList)))
      hashFilename path = key ∧
      (∀ fuel, Registry.loadScriptNamed fuel path = Registry.loadScript fuel key) ∧
      ∀ extension, IsExtension extension →
        (hashFilename (path ++ "." ++ extension) = hashFilename path ↔ hashName path = key)) := by
  have hloads {filename : String} {key : UInt32} (hkey : hashFilename filename = key) (fuel : Nat) :
      Registry.loadScriptNamed fuel filename = Registry.loadScript fuel key :=
    congrArg (Registry.loadScript fuel) hkey
  refine ⟨fun extension hextension => ?extended, fun hpoint => ?bare, fun hpoint => ?cut⟩
  case extended =>
    have hkey := hashFilename_append path hextension
    exact ⟨hkey, hloads hkey⟩
  case bare =>
    have hkey := hpath.hashFilename_eq
    rw [if_neg hpoint] at hkey
    exact ⟨hkey, hloads hkey⟩
  case cut =>
    have hkey := hpath.hashFilename_eq
    rw [if_pos hpoint] at hkey
    refine ⟨hkey, hloads hkey, fun extension hextension => ?_⟩
    rw [hashFilename_append path hextension, hkey]

/-- A script and its compiled file have one key, and so has the bare name. -/
theorem file_keys_player :
    IsBare "maps/Player" ∧ IsExtension "hsl" ∧ IsExtension "ibc" ∧
      '.' ∉ directories "maps/Player".toList ∧
      hashFilename "maps/Player.hsl" = hashFilename "maps/Player.ibc" ∧
      hashFilename "maps/Player.hsl" = hashFilename "maps/Player" := by
  have hpath : IsBare "maps/Player" := by decide +kernel
  have hsource : IsExtension "hsl" := by decide +kernel
  have hcompiled : IsExtension "ibc" := by decide +kernel
  have hpoint : '.' ∉ directories "maps/Player".toList := by decide +kernel
  obtain ⟨hextended, hbare, -⟩ := file_keys hpath
  have hkey := (hextended "hsl" hsource).1
  exact ⟨hpath, hsource, hcompiled, hpoint, hkey.trans (hextended "ibc" hcompiled).1.symm,
    hkey.trans (hbare hpoint).1.symm⟩

/-- Where a directory has a point in its name, the bare name of a script has another key than its
file: the script is loaded by its name with an extension and not found without. -/
theorem bare_name_in_dotted_directory :
    let file : Container :=
      { version := 0, debugInfo := false, functions := [⟨0, 0, ⟨#[32, 11], none, #[], 0⟩⟩]
        tokens := [], sourceFilename := none }
    let source := Source.ofLists [(hashFilename "dir.v2/Player.hsl", file.encode)] []
    let r := Registry.new .standard source Native.standard default
    IsBare "dir.v2/Player" ∧ IsExtension "hsl" ∧
      hashFilename ("dir.v2/Player" ++ "." ++ "hsl") ≠ hashFilename "dir.v2/Player" ∧
      Registry.result? (Registry.loadScriptNamed 9 "dir.v2/Player.hsl") r = some true ∧
      Registry.result? (Registry.loadScriptNamed 9 "dir.v2/Player") r = some false := by
  intro file source r
  exact ⟨by decide +kernel, by decide +kernel, by decide +kernel, by decide +kernel,
    by decide +kernel⟩

end NameHash
end ScriptVm
