import ScriptVm.Proofs.ClassMap.Grouping
import ScriptVm.Proofs.Machine.ClassFiles
import ScriptVm.Proofs.Registry.Success

/-!
# Files that are listed and files that are loaded

The load of a class goes by the lookup of its files, the load of all classes by a walk over the
class map.

* `Load.classOf` and `Registry.allOf` are the two loads by their lists of files.
* `fetched_of_loadClass` says what is loaded where the load of a class succeeds.
* `listed_files` is the result: what a lookup finds of what is listed, and what the loads go
  through.
-/

namespace ScriptVm

open ClassMap

variable {origin m : ClassMap} {inserted : List (UInt32 × UInt32)} {l l' : Loader} {name : String}

/-- The load of a class with the files it has. -/
def Load.classOf (executor : Exec Unit) (name : String) (files : List UInt32) : Load Bool := do
  if ← loadFiles executor name files.length true files then bindClass name (hashName name)
  else return false

/-- The load of files one after the other, and the collection after it. -/
def Registry.allOf (fuel : Nat) (files : List UInt32) : Registry.Operation Nat := do
  let count ← loadAll fuel files 0
  let _ ← forceCollection
  return count

/-- A class is loaded from the files that are found for it. -/
theorem Load.loadClass_eq_classOf {machine : Machine} (hname : name ≠ "")
    (hl : machine.env.loader = some l) (hcontains : l.source.classMap.contains (hashName name))
    (executor : Exec Unit) : loadClass executor name machine =
      classOf executor name (l.source.classMap.found (hashName name)) machine := by
  obtain ⟨files, hfiles⟩ := Option.isSome_iff_exists.1 hcontains
  rw [loadClass_of_mapped hname hl hfiles]
  unfold found
  rw [hfiles]
  rfl

/-- All classes are loaded from the files of all records. -/
theorem Registry.loadClasses_eq_allOf {r : Registry} (hl : r.vm.env.loader = some l) (fuel : Nat) :
    loadClasses fuel r = allOf fuel l.source.classMap.allFiles r := by
  have henv : environment r = .ok r.vm.env r := rfl
  unfold loadClasses
  rw [Exec.bind_of_ok henv, hl]
  rfl

/-- Where a class is loaded, so are the files found for it. -/
theorem fetched_of_loadClass {machine machine' : Machine} {fuel : Nat}
    (hl : machine.env.loader = some l)
    (hrun : Load.loadClass (Exec.execute fuel) name machine = .ok true machine') :
    ∃ l', machine'.env.loader = some l' ∧
      ∀ file ∈ l.source.classMap.found (hashName name), l'.isLoaded file := by
  obtain ⟨files, hfiles, hfetched, hbound⟩ := Load.mem_of_loadClass hl hrun
  cases hl' : machine'.env.loader with
  | none =>
    unfold Environment.boundClasses at hbound
    rw [hl'] at hbound
    cases hbound
  | some l' =>
    refine ⟨l', rfl, fun file hfile => ?_⟩
    unfold found at hfile
    rw [hfiles] at hfile
    rw [Environment.fetched_of_loader hl'] at hfetched
    exact List.contains_iff_mem.2 (hfetched file hfile)

/-- **Files of a class.** A lookup misses what it missed of the class map that was read, but for
what was inserted since, and loads go through the files found. -/
theorem listed_files (hm : Made origin inserted m) :
    ClassMap.empty.Orderly ∧ (m.Orderly ↔ origin.Orderly) ∧
      (∀ classHash file, (classHash, file) ∈ inserted → file ∈ m.found classHash) ∧
      (∀ classHash file, m.Loses classHash file ↔
        origin.Loses classHash file ∧ (classHash, file) ∉ inserted) ∧
      (origin.Orderly → ∀ classHash, m.found classHash = m.listed classHash) ∧
      (∀ machine l, machine.env.loader = some l → l.source.classMap = m →
        ∀ name, name ≠ "" → m.contains (hashName name) →
          (∀ executor, Load.loadClass executor name machine =
            Load.classOf executor name (m.found (hashName name)) machine) ∧
          ∀ fuel machine', Load.loadClass (Exec.execute fuel) name machine = .ok true machine' →
            ∃ l', machine'.env.loader = some l' ∧
              ∀ file ∈ m.found (hashName name), l'.isLoaded file) ∧
      (∀ r l, r.vm.env.loader = some l → l.source.classMap = m →
        ∀ fuel, Registry.loadClasses fuel r = Registry.allOf fuel m.allFiles r) ∧
      m.allFiles.Nodup ∧ ∀ file, file ∈ m.allFiles ↔ ∃ classHash, file ∈ m.listed classHash := by
  refine ⟨orderly_empty, hm.orderly_iff, fun classHash file hfile => hm.mem_found.2 (Or.inr hfile),
    fun classHash file => hm.loses_iff, fun horigin classHash => ?orderly, ?oneClass, ?allClasses,
    nodup_allFiles m, fun file => mem_allFiles⟩
  case orderly => exact found_of_orderly (hm.orderly_iff.2 horigin)
  case oneClass =>
    rintro machine l hl rfl name hname hcontains
    exact ⟨Load.loadClass_eq_classOf hname hl hcontains,
      fun fuel machine' hrun => fetched_of_loadClass hl hrun⟩
  case allClasses =>
    rintro r l hl rfl fuel
    exact Registry.loadClasses_eq_allOf hl fuel

/-- The file that defines the class of lamps, and a file beside it that does nothing. -/
def lampFiles (classMap : ClassMap) : Source :=
  let file : Container :=
    { version := 0, debugInfo := false, functions := [⟨0, 0, ⟨#[32, 11], none, #[], 0⟩⟩]
      tokens := [], sourceFilename := none }
  { (Registry.lampSource.insert 2 file.encode) with classMap }

/-- The class map is read with one file, the other is inserted, and both are found and loaded. -/
theorem listed_files_lamp :
    let origin : ClassMap := ⟨[⟨hashName "Lamp", [1]⟩]⟩
    let m := origin.insert (hashName "Lamp") 2
    let r := Registry.new .standard (lampFiles m) Native.standard default
    m.Orderly ∧ m.found (hashName "Lamp") = m.listed (hashName "Lamp") ∧
      m.found (hashName "Lamp") = [1, 2] ∧
      ∃ machine' l', Load.loadClass (Exec.execute 9) "Lamp" r.main = .ok true machine' ∧
        machine'.env.loader = some l' ∧ l'.isLoaded 1 ∧ l'.isLoaded 2 := by
  intro origin m r
  have hread : ClassMap.decode origin.encode = .ok origin := by decide +kernel
  have hm : Made origin [(hashName "Lamp", 2)] m := .insert (hashName "Lamp") 2 (.read hread)
  have horigin : origin.Orderly := ⟨by decide, by decide⟩
  have hfound : m.found (hashName "Lamp") = [1, 2] := by decide +kernel
  obtain ⟨-, horderly, -, -, hlisted, hload, -⟩ := listed_files hm
  refine ⟨horderly.2 horigin, hlisted horigin _, hfound, ?_⟩
  have hresult : Registry.result? (Registry.loadClass 9 "Lamp") r = some true := by decide +kernel
  obtain ⟨machine', hrun⟩ := Registry.ran_of_loadClass (Registry.eq_ok_of_result? hresult)
  rw [Traced.run_loadClass, Traced.run_executeBreaking] at hrun
  have hloader : r.main.env.loader = some (.ofSource (lampFiles m)) := rfl
  obtain ⟨-, hloads⟩ := hload r.main _ hloader rfl "Lamp" (by decide) (by decide +kernel)
  obtain ⟨l', hl', hloaded⟩ := hloads 9 machine' hrun
  rw [hfound] at hloaded
  exact ⟨machine', l', hrun, hl', hloaded 1 (by decide), hloaded 2 (by decide)⟩

/-- Of two records for a class the second is lost: a lookup finds the file of the first, the class
counts as loaded without the other, and the load of all classes goes through both. -/
theorem lamp_in_two_records :
    let m : ClassMap := ⟨[⟨hashName "Lamp", [1]⟩, ⟨hashName "Lamp", [2]⟩]⟩
    let r := Registry.new .standard (lampFiles m) Native.standard default
    decode m.encode = .ok m ∧ ¬ m.Orderly ∧ m.Loses (hashName "Lamp") 2 ∧
      Registry.result? (Registry.loadClass 9 "Lamp") r = some true ∧
      (Registry.after (Registry.loadClass 9 "Lamp") r).vm.env.loader.map (·.isLoaded 2) =
        some false ∧
      m.allFiles = [1, 2] := by
  intro m r
  refine ⟨by decide +kernel, fun h => ?_, ⟨by decide +kernel, by decide +kernel⟩, by decide +kernel,
    by decide +kernel, by decide +kernel⟩
  exact absurd h.classes (by decide +kernel)

end ScriptVm
