import Mathlib.Data.List.Nodup
import Mathlib.Tactic.Common
import ScriptVm.ClassMap

/-!
# The files of a class

A file is looked up by the first record of its class, and listed by a walk over all records.
`insert` keeps one record for a class; reading takes the records as they come.

* `listed` are the files that a walk finds for a class. `Loses` says that a lookup misses one of
  them.
* `Orderly` says that classes have one record each and that no record has a file twice.
* `Made` are the class maps that come from reading or from nothing by inserting.
* `Made.loses_iff` is what a class map loses: what the one that it was made from loses, but for what
  was inserted since. `Made.orderly_iff` and `files?_of_orderly` are why an orderly one loses
  nothing.
-/

namespace ScriptVm
namespace ClassMap

variable {m origin : ClassMap} {entries : List ClassEntry} {e : ClassEntry}
  {inserted : List (UInt32 × UInt32)} {classHash other file g : UInt32}

/-! ### Records -/

/-- The files of all records of a class, in order. -/
def listedIn (classHash : UInt32) (entries : List ClassEntry) : List UInt32 :=
  (entries.filter (·.classHash == classHash)).flatMap (·.files)

/-- The files that a walk over a class map lists for a class. -/
def listed (m : ClassMap) (classHash : UInt32) : List UInt32 := listedIn classHash m.entries

/-- The files that a lookup gives for a class. -/
def found (m : ClassMap) (classHash : UInt32) : List UInt32 := (m.files? classHash).getD []

/-- A file is recorded for a class and not given by its lookup. -/
def Loses (m : ClassMap) (classHash file : UInt32) : Prop :=
  file ∈ m.listed classHash ∧ file ∉ m.found classHash

/-- Classes have one record each, and no record has a file twice. -/
structure Orderly (m : ClassMap) : Prop where
  classes : (m.entries.map (·.classHash)).Nodup
  files : ∀ e ∈ m.entries, e.files.Nodup

@[simp] theorem listedIn_nil : listedIn classHash [] = [] := rfl

@[simp] theorem listedIn_cons : listedIn classHash (e :: entries) =
    if e.classHash = classHash then e.files ++ listedIn classHash entries
    else listedIn classHash entries := by
  unfold listedIn
  by_cases he : e.classHash = classHash
  · simp [he]
  · simp [he]

theorem mem_listedIn : file ∈ listedIn classHash entries ↔
    ∃ e ∈ entries, e.classHash = classHash ∧ file ∈ e.files := by
  simp only [listedIn, List.mem_flatMap, List.mem_filter, beq_iff_eq, and_assoc]

theorem listedIn_of_not_mem (h : classHash ∉ entries.map (·.classHash)) :
    listedIn classHash entries = [] := by
  refine List.eq_nil_iff_forall_not_mem.2 fun file hfile => ?_
  obtain ⟨e, he, rfl, -⟩ := mem_listedIn.1 hfile
  exact h (List.mem_map_of_mem he)

theorem orderly_empty : Orderly empty := ⟨List.nodup_nil, nofun⟩

/-! ### Insertion -/

theorem nodup_append_singleton {l : List UInt32} : (l ++ [g]).Nodup ↔ g ∉ l ∧ l.Nodup := by
  rw [← List.concat_eq_append, List.nodup_concat]

@[simp] theorem classHash_addFile : (addFile file e).classHash = e.classHash := by
  unfold addFile
  split <;> rfl

@[simp] theorem mem_files_addFile : g ∈ (addFile file e).files ↔ g ∈ e.files ∨ g = file := by
  unfold addFile
  by_cases h : file ∈ e.files
  · rw [if_pos h]
    constructor
    · exact Or.inl
    · rintro (hg | rfl)
      · exact hg
      · exact h
  · rw [if_neg h, List.mem_append, List.mem_singleton]

@[simp] theorem nodup_files_addFile : (addFile file e).files.Nodup ↔ e.files.Nodup := by
  unfold addFile
  by_cases h : file ∈ e.files
  · rw [if_pos h]
  · rw [if_neg h]
    exact nodup_append_singleton.trans (and_iff_right h)

theorem map_classHash_insertInto :
    (insertInto classHash file entries).map (·.classHash) =
      if classHash ∈ entries.map (·.classHash) then entries.map (·.classHash)
      else entries.map (·.classHash) ++ [classHash] := by
  induction entries with
  | nil => rfl
  | cons e rest ih =>
    unfold insertInto
    by_cases he : e.classHash = classHash
    · simp [he]
    · have hmem : classHash ∈ (e :: rest).map (·.classHash) ↔ classHash ∈ rest.map (·.classHash) :=
        List.mem_cons.trans (or_iff_right fun h => he h.symm)
      simp only [if_neg he, hmem]
      rw [List.map_cons, ih]
      by_cases hrest : classHash ∈ rest.map (·.classHash)
      · rw [if_pos hrest, if_pos hrest, List.map_cons]
      · rw [if_neg hrest, if_neg hrest, List.map_cons, List.cons_append]

theorem nodup_files_insertInto :
    (∀ e ∈ insertInto classHash file entries, e.files.Nodup) ↔ ∀ e ∈ entries, e.files.Nodup := by
  induction entries with
  | nil => simp [insertInto]
  | cons e rest ih =>
    unfold insertInto
    by_cases he : e.classHash = classHash
    · rw [if_pos he, List.forall_mem_cons, List.forall_mem_cons, nodup_files_addFile]
    · rw [if_neg he, List.forall_mem_cons, List.forall_mem_cons, ih]

/-- Inserting neither brings nor cures a repeated class or file. -/
theorem orderly_insert : (m.insert classHash file).Orderly ↔ m.Orderly := by
  have hclasses : ((m.insert classHash file).entries.map (·.classHash)).Nodup ↔
      (m.entries.map (·.classHash)).Nodup := by
    unfold insert
    rw [map_classHash_insertInto]
    by_cases h : classHash ∈ m.entries.map (·.classHash)
    · rw [if_pos h]
    · rw [if_neg h]
      exact nodup_append_singleton.trans (and_iff_right h)
  constructor
  · rintro ⟨hc, hf⟩
    exact ⟨hclasses.1 hc, nodup_files_insertInto.1 hf⟩
  · rintro ⟨hc, hf⟩
    exact ⟨hclasses.2 hc, nodup_files_insertInto.2 hf⟩

theorem mem_listedIn_insertInto : g ∈ listedIn other (insertInto classHash file entries) ↔
    g ∈ listedIn other entries ∨ other = classHash ∧ g = file := by
  induction entries with
  | nil =>
    by_cases h : classHash = other
    · simp [insertInto, h]
    · have hne : ¬ other = classHash := fun h' => h h'.symm
      simp [insertInto, h, hne]
  | cons e rest ih =>
    unfold insertInto
    by_cases he : e.classHash = classHash
    · rw [if_pos he]
      by_cases ho : e.classHash = other
      · simp only [listedIn_cons, classHash_addFile, if_pos ho, List.mem_append, mem_files_addFile]
        have hother : other = classHash := ho.symm.trans he
        tauto
      · have hother : ¬ other = classHash := fun h => ho (he.trans h.symm)
        simp [ho, hother]
    · rw [if_neg he]
      by_cases ho : e.classHash = other
      · simp only [listedIn_cons, if_pos ho, List.mem_append, ih]
        tauto
      · simp only [listedIn_cons, if_neg ho, ih]

theorem mem_listed_insert : g ∈ (m.insert classHash file).listed other ↔
    g ∈ m.listed other ∨ other = classHash ∧ g = file :=
  mem_listedIn_insertInto

/-- The file is added to the record that a lookup finds, and only there. -/
theorem find?_insertInto :
    (insertInto classHash file entries).find? (·.classHash == other) =
      if other = classHash then
        some (((entries.find? (·.classHash == classHash)).map (addFile file)).getD
          ⟨classHash, [file]⟩)
      else entries.find? (·.classHash == other) := by
  induction entries with
  | nil =>
    by_cases h : other = classHash
    · subst h
      simp [insertInto]
    · have hne : ¬ classHash = other := fun h' => h h'.symm
      simp [insertInto, h, hne]
  | cons e rest ih =>
    unfold insertInto
    by_cases he : e.classHash = classHash
    · rw [if_pos he]
      subst he
      by_cases h : other = e.classHash
      · simp [h]
      · have hne : ¬ e.classHash = other := fun h' => h h'.symm
        simp [h, hne]
    · rw [if_neg he]
      by_cases ho : e.classHash = other
      · subst ho
        simp [he]
      · rw [List.find?_cons_of_neg (by simpa using ho), ih,
          List.find?_cons_of_neg (by simpa using he), List.find?_cons_of_neg (by simpa using ho)]

theorem mem_found_insert : g ∈ (m.insert classHash file).found other ↔
    g ∈ m.found other ∨ other = classHash ∧ g = file := by
  unfold found files? insert
  rw [find?_insertInto]
  by_cases h : other = classHash
  · subst h
    rw [if_pos rfl]
    cases m.entries.find? (·.classHash == other) with
    | none => simp
    | some e => simp
  · simp [h]

/-! ### Class maps as they come about -/

/-- The class maps made from the empty one or from one that was read, by inserting pairs of a class
and a file. -/
inductive Made : ClassMap → List (UInt32 × UInt32) → ClassMap → Prop
  | new : Made empty [] empty
  | read {bytes : List UInt8} {m : ClassMap} (hread : decode bytes = .ok m) : Made m [] m
  | insert {origin m : ClassMap} {inserted : List (UInt32 × UInt32)} (classHash file : UInt32) :
    Made origin inserted m → Made origin (inserted ++ [(classHash, file)]) (m.insert classHash file)

theorem Made.orderly_iff (hm : Made origin inserted m) : m.Orderly ↔ origin.Orderly := by
  induction hm with
  | new => rfl
  | read => rfl
  | insert classHash file _ ih => rw [orderly_insert, ih]

theorem Made.mem_listed (hm : Made origin inserted m) :
    file ∈ m.listed classHash ↔ file ∈ origin.listed classHash ∨ (classHash, file) ∈ inserted := by
  induction hm with
  | new => simp
  | read => simp
  | insert c f _ ih =>
    rw [mem_listed_insert, ih, List.mem_append, List.mem_singleton, Prod.mk.injEq, or_assoc]

theorem Made.mem_found (hm : Made origin inserted m) :
    file ∈ m.found classHash ↔ file ∈ origin.found classHash ∨ (classHash, file) ∈ inserted := by
  induction hm with
  | new => simp
  | read => simp
  | insert c f _ ih =>
    rw [mem_found_insert, ih, List.mem_append, List.mem_singleton, Prod.mk.injEq, or_assoc]

/-- A lookup misses what it missed at first, until that is inserted. -/
theorem Made.loses_iff (hm : Made origin inserted m) :
    m.Loses classHash file ↔ origin.Loses classHash file ∧ (classHash, file) ∉ inserted := by
  unfold Loses
  rw [hm.mem_listed, hm.mem_found]
  tauto

/-! ### Orderly class maps -/

/-- The only record of a class has all its files. -/
theorem find?_of_nodup (hentries : (entries.map (·.classHash)).Nodup)
    (he : entries.find? (·.classHash == classHash) = some e) :
    e.files = listedIn classHash entries := by
  induction entries with
  | nil => cases he
  | cons e' rest ih =>
    rw [List.map_cons, List.nodup_cons] at hentries
    by_cases hclass : e'.classHash = classHash
    · rw [List.find?_cons_of_pos (by simpa using hclass)] at he
      cases he
      rw [listedIn_cons, if_pos hclass, listedIn_of_not_mem (hclass ▸ hentries.1), List.append_nil]
    · rw [List.find?_cons_of_neg (by simpa using hclass)] at he
      rw [listedIn_cons, if_neg hclass]
      exact ih hentries.2 he

theorem files?_of_orderly (hm : m.Orderly) {files : List UInt32}
    (hfiles : m.files? classHash = some files) : files = m.listed classHash := by
  obtain ⟨e, he, rfl⟩ := Option.map_eq_some_iff.1 hfiles
  exact find?_of_nodup hm.classes he

theorem listed_of_not_contains (hm : m.contains classHash = false) : m.listed classHash = [] := by
  refine List.eq_nil_iff_forall_not_mem.2 fun file hfile => ?_
  obtain ⟨e, he, hclass, -⟩ := mem_listedIn.1 hfile
  unfold contains files? at hm
  rw [Option.isSome_map, Option.isSome_eq_false_iff, Option.isNone_iff_eq_none,
    List.find?_eq_none] at hm
  exact hm e he (beq_iff_eq.2 hclass)

theorem found_of_orderly (hm : m.Orderly) : m.found classHash = m.listed classHash := by
  unfold found
  cases hfiles : m.files? classHash with
  | some files => exact files?_of_orderly hm hfiles
  | none =>
    refine (listed_of_not_contains ?_).symm
    unfold contains
    rw [hfiles]
    rfl

/-! ### The files of all classes -/

theorem foldl_addNew {files acc : List UInt32} (hacc : acc.Nodup) :
    (files.foldl (fun l f => if f ∈ l then l else l ++ [f]) acc).Nodup ∧
      ∀ g, g ∈ files.foldl (fun l f => if f ∈ l then l else l ++ [f]) acc ↔
        g ∈ acc ∨ g ∈ files := by
  induction files generalizing acc with
  | nil => exact ⟨hacc, fun g => by simp⟩
  | cons f rest ih =>
    rw [List.foldl_cons]
    by_cases hf : f ∈ acc
    · rw [if_pos hf]
      obtain ⟨hnodup, hmem⟩ := ih hacc
      refine ⟨hnodup, fun g => ?_⟩
      rw [hmem, List.mem_cons]
      constructor
      · tauto
      · rintro (hg | rfl | hg)
        · exact Or.inl hg
        · exact Or.inl hf
        · exact Or.inr hg
    · rw [if_neg hf]
      obtain ⟨hnodup, hmem⟩ := ih (nodup_append_singleton.2 ⟨hf, hacc⟩)
      refine ⟨hnodup, fun g => ?_⟩
      rw [hmem, List.mem_append, List.mem_singleton, List.mem_cons, or_assoc]

theorem allFiles_eq (m : ClassMap) : m.allFiles =
    (m.entries.flatMap (·.files)).foldl (fun l f => if f ∈ l then l else l ++ [f]) [] := by
  rw [List.foldl_flatMap]
  rfl

theorem nodup_allFiles (m : ClassMap) : m.allFiles.Nodup := by
  rw [allFiles_eq]
  exact (foldl_addNew List.nodup_nil).1

theorem mem_allFiles : file ∈ m.allFiles ↔ ∃ classHash, file ∈ m.listed classHash := by
  rw [allFiles_eq, (foldl_addNew List.nodup_nil).2]
  simp only [List.not_mem_nil, false_or, List.mem_flatMap]
  constructor
  · rintro ⟨e, he, hfile⟩
    exact ⟨e.classHash, mem_listedIn.2 ⟨e, he, rfl, hfile⟩⟩
  · rintro ⟨classHash, hfile⟩
    obtain ⟨e, he, -, hfile⟩ := mem_listedIn.1 hfile
    exact ⟨e, he, hfile⟩

end ClassMap
end ScriptVm
