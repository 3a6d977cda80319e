import ScriptVm.Native.Catalog
import ScriptVm.Proofs.Machine.CleanLoads
import ScriptVm.Proofs.Registry.Histories

/-!
# Reported successes

What a registry says about a load, against what has happened since it was last taken down.

* `Request.events_loadScript` and `Request.events_loadClass` say that the events of a request to
  load are those of the load on the first thread.
* `Traced.loadScript_refused` is the load of a file that its source does not give.
* `reported_success` is the result: a load that is reported as a success is one, unless the file
  has failed after it was fetched, and then it is not.
-/

namespace ScriptVm

namespace Traced

variable {executor : Traced Fault Machine Unit} {m m' : Machine} {l : Loader} {file : UInt32}

/-- The end of a load adds no events. -/
theorem events_reporting (what : String) (x : Traced RegistryError Machine Bool) (r : Registry) :
    (reporting what x).events r = x.events r.main := by
  have hloading : (loading what x).events r = x.events r.main :=
    events_bind_silent (x := attempt (onMain x)) (fun result r₁ => by
      cases result with
      | ok loaded => rfl
      | error e => exact events_bind_lift _ _ r₁) r
  exact (events_bind_silent (fun loaded r₁ => events_bind_lift _ _ r₁) _ r).trans hloading

/-- An attempt has a result of the load itself only if the load has it. -/
theorem attempt_onMain_success {α : Type} {y : Load α} {a : α} {r r' : Registry}
    (hrun : Registry.attempt (Registry.onMain y) r = .ok (.ok a) r') :
    ∃ m, y r.main = .ok a m := by
  rw [attempt_eq, onMain_eq] at hrun
  cases hy : y r.main with
  | ok b m =>
    rw [hy] at hrun
    cases hrun
    exact ⟨m, rfl⟩
  | error e m =>
    rw [hy] at hrun
    cases e <;> cases hrun

/-- A load that is reported as a success has succeeded. -/
theorem reporting_success {y : Traced RegistryError Machine Bool} {what : String}
    {r r' : Registry} (hrun : (reporting what y).run r = .ok true r') :
    ∃ m, y.run r.main = .ok true m := by
  obtain ⟨loaded, r₁, hload, hrest⟩ := Exec.bind_eq_ok.1 hrun
  obtain ⟨_, r₂, -, hend⟩ := Exec.bind_eq_ok.1 hrest
  obtain ⟨result, r₃, hattempt, hresult⟩ := Exec.bind_eq_ok.1 hload
  cases hend
  cases result with
  | error e =>
    obtain ⟨_, r₄, -, hfalse⟩ := Exec.bind_eq_ok.1 hresult
    cases hfalse
  | ok loaded =>
    cases hresult
    exact attempt_onMain_success hattempt

/-- A file that its source does not give is not loaded, and nothing starts. -/
theorem loadScript_refused (hl : m.env.loader = some l) (hnew : file ∉ l.fetched)
    (hrefused : ∀ bytes, l.source.answer 0 file ≠ .bytes bytes) :
    (∀ m', (loadScript executor file).run m ≠ .ok true m') ∧
      (loadScript executor file).events m = [] := by
  rcases Load.fetch_cases hl file with ⟨hmem, -⟩ | ⟨-, hrun⟩ | ⟨e, -, -, hrun⟩ |
    ⟨bytes, -, hbytes, -⟩
  · exact absurd hmem hnew
  · refine ⟨fun m' htrue => ?_, (events_bind_of_ok hrun).trans rfl⟩
    cases ((Exec.bind_of_ok hrun).trans (Exec.bind_of_ok rfl)).symm.trans htrue
  · refine ⟨fun m' htrue => ?_, events_bind_of_error hrun⟩
    cases (Exec.bind_of_error hrun).symm.trans htrue
  · exact absurd hbytes (hrefused bytes)

end Traced

namespace Registry

variable {source : Source} {r r' : Registry} {es : List Event} {fuel : Nat} {file : UInt32}
  {name : String} {m : Machine}

/-- What a load on the first thread puts on record. -/
theorem OnRecord.ran {α : Type} {x : Traced RegistryError Machine α} {a : α}
    (h : OnRecord source r es) (hx : x.Recorded Traced.At) (hrun : x.run r.main = .ok a m) :
    OnRecord source (r.ran m) (es ++ x.events r.main) := by
  have hrecords : r.main.env.Records (x.events r.main) m.env := by
    simpa only [Exec.after_of_ok hrun] using hx.records r.main
  exact h.records (show r.vm.env.Records _ (r.ran m).vm.env from hrecords)

theorem Request.events_loadScript (fuel : Nat) (file : UInt32) (r : Registry) :
    (Request.loadScript fuel file).traced.events r =
      (Traced.loadScript (Traced.executeBreaking fuel) file).events r.main :=
  (Traced.events_bind_lift _ _ r).trans (Traced.events_reporting _ _ r)

theorem Request.events_loadClass (fuel : Nat) (name : String) (r : Registry) :
    (Request.loadClass fuel name).traced.events r =
      (Traced.loadClass (Traced.executeBreaking fuel) name).events r.main :=
  (Traced.events_bind_lift _ _ r).trans (Traced.events_reporting _ _ r)

/-- A file that a registry reports as loaded was loaded on its first thread. -/
theorem ran_of_loadScript (hrun : loadScript fuel file r = .ok true r') :
    ∃ m, (Traced.loadScript (Traced.executeBreaking fuel) file).run r.main = .ok true m := by
  rw [← Traced.run_scriptBreaking] at hrun
  exact Traced.reporting_success hrun

/-- A class that a registry reports as loaded was loaded on its first thread. -/
theorem ran_of_loadClass (hrun : loadClass fuel name r = .ok true r') :
    ∃ m, (Traced.loadClass (Traced.executeBreaking fuel) name).run r.main = .ok true m := by
  rw [← Traced.run_classBreaking] at hrun
  exact Traced.reporting_success hrun

/-- **Successes are reported of what has not failed.** Of a load that is reported as a success, a
file has run to its end if and only if it did not fail since the last disposal. -/
theorem reported_success (hs : History source r es) :
    (∀ fuel file r', loadScript fuel file r = .ok true r' →
      let es' := es ++ (Request.loadScript fuel file).traced.events r
      (.completed file ∈ es' ∧ Event.Decoded file es') ↔ .failed file ∉ es') ∧
    (∀ fuel name r', loadClass fuel name r = .ok true r' →
      let es' := es ++ (Request.loadClass fuel name).traced.events r
      (∃ files, source.classMap.files? (hashName name) = some files ∧ ∀ file ∈ files,
        ((.completed file ∈ es' ∧ Event.Decoded file es') ↔ .failed file ∉ es')) ∧
      ∃ c, .bound (hashName name) c ∈ es') ∧
    (r.main.Unwatched →
      (∀ fuel file r', loadScript fuel file r = .ok true r' →
        ∀ other, .failed other ∉ (Request.loadScript fuel file).traced.events r) ∧
      ∀ fuel name r', loadClass fuel name r = .ok true r' →
        ∀ other, .failed other ∉ (Request.loadClass fuel name).traced.events r) ∧
    ∀ l file, r.vm.env.loader = some l → file ∉ es.filterMap Event.start? →
      (∀ bytes, l.source.answer 0 file ≠ .bytes bytes) → ∀ fuel,
        (∀ r', loadScript fuel file r ≠ .ok true r') ∧
        (Request.loadScript fuel file).traced.events r = [] := by
  have hexecute := Traced.recorded_executeBreaking
  have hrecord := hs.onRecord
  refine ⟨fun fuel file r' hrun => ?script, fun fuel name r' hrun => ?oneClass, fun hunwatched =>
    ⟨fun fuel file r' hrun => ?cleanScript, fun fuel name r' hrun => ?cleanClass⟩,
    fun l file hl hnew hrefused fuel => ?refused⟩
  case script =>
    obtain ⟨m, hload⟩ := ran_of_loadScript hrun
    rw [Request.events_loadScript]
    exact (hrecord.ran (Traced.recorded_loadScript (hexecute fuel) file) hload).completed_iff
      (Traced.mem_fetched_of_loadScript (hexecute fuel) hload)
  case oneClass =>
    obtain ⟨m, hload⟩ := ran_of_loadClass hrun
    obtain ⟨l, hl, hmap⟩ := hrecord.loader
    obtain ⟨files, hfiles, hfetched, hbound⟩ := Traced.mem_of_loadClass (hexecute fuel) hl hload
    have hran := hrecord.ran (Traced.recorded_loadClass (hexecute fuel) name) hload
    rw [hmap] at hfiles
    rw [Request.events_loadClass]
    exact ⟨⟨files, hfiles, fun file hfile => hran.completed_iff (hfetched file hfile)⟩,
      hran.exists_bound hbound⟩
  case cleanScript =>
    obtain ⟨m, hload⟩ := ran_of_loadScript hrun
    rw [Request.events_loadScript]
    exact (Traced.clean_loadScript (Traced.clean_executeBreaking fuel) file _ _ m
      hunwatched hload).2
  case cleanClass =>
    obtain ⟨m, hload⟩ := ran_of_loadClass hrun
    rw [Request.events_loadClass]
    exact (Traced.clean_loadClass (Traced.clean_executeBreaking fuel) name _ _ m hunwatched hload).2
  case refused =>
    rw [← hrecord.mem_fetched, Environment.fetched_of_loader hl] at hnew
    obtain ⟨hfalse, hevents⟩ := Traced.loadScript_refused (m := r.main) hl hnew hrefused
    refine ⟨fun r' hrun => ?_, (Request.events_loadScript fuel file r).trans hevents⟩
    obtain ⟨m, hload⟩ := ran_of_loadScript hrun
    exact hfalse m hload

/-- A file that defines the class of lamps, and the class. -/
def lampSource : Source :=
  let hash := Bytes.bytes32 (hashName "Lamp")
  let code := [13] ++ hash ++ [0, 2] ++ hash ++ [32, 11]
  let file : Container :=
    { version := 0, debugInfo := false, functions := [⟨0, 0, ⟨code.toArray, none, #[], 0⟩⟩]
      tokens := [], sourceFilename := none }
  .ofLists [(1, file.encode)] [("Lamp", 1)]

/-- The same, where the file cannot be read at first. -/
def lateSource : Source :=
  { lampSource with answer := fun n file =>
      if n = 0 then .failed (.io "00000001.ibc" .denied) rfl else lampSource.answer n file }

/-- The file is refused and leaves no record. Then the class of lamps is loaded, and the file has
run to its end. -/
theorem reported_success_lamp :
    let r := Registry.new .standard lateSource Native.standard default
    let refused := Request.loadScript 9 1
    let q := Request.loadClass 9 "Lamp"
    result? (loadScript 9 1) r = some false ∧ refused.traced.events r = [] ∧
      result? (loadClass 9 "Lamp") (refused.after r) = some true ∧
      .completed 1 ∈ q.traced.events (refused.after r) ∧
      Event.Decoded 1 (q.traced.events (refused.after r)) := by
  intro r refused q
  have hnew : History lateSource r [] := .new .standard Native.standard default
  obtain ⟨-, -, -, hrefused⟩ := reported_success hnew
  have hnone : refused.traced.events r = [] :=
    (hrefused _ 1 rfl List.not_mem_nil (fun bytes => by simp [Loader.ofSource, lateSource]) 9).2
  have hs : History lateSource (refused.after r) [] :=
    hnone ▸ hnew.request refused nofun
  obtain ⟨-, hloaded, hclean, -⟩ := reported_success hs
  have hresult : result? (loadClass 9 "Lamp") (refused.after r) = some true := by decide +kernel
  have hrun := eq_ok_of_result? hresult
  have hunwatched : (refused.after r).main.Unwatched :=
    Option.isNone_iff_eq_none.1 (by decide +kernel)
  obtain ⟨⟨files, hfiles, hfile⟩, -⟩ := hloaded 9 "Lamp" _ hrun
  have hone : lateSource.classMap.files? (hashName "Lamp") = some [1] := by decide +kernel
  cases hone.symm.trans hfiles
  obtain ⟨hcompleted, hdecoded⟩ :=
    (hfile 1 List.mem_cons_self).2 ((hclean hunwatched).2 9 "Lamp" _ hrun 1)
  exact ⟨by decide +kernel, hnone, hresult, hcompleted, hdecoded⟩

/-- A file that is no script. -/
def brokenSource : Source := .ofLists [(1, [0x48, 0x54, 0x56, 0x58])] []

/-- A file that cannot be decoded is reported as loaded when it is asked for again. -/
theorem reported_success_of_broken_file :
    let r := Registry.new .standard brokenSource Native.standard default
    let q := Request.loadScript 9 1
    let es := q.traced.events r
    History brokenSource (q.after r) es ∧ result? (loadScript 9 1) r = some false ∧
      result? (loadScript 9 1) (q.after r) = some true ∧
      .completed 1 ∉ es ++ q.traced.events (q.after r) ∧
      ¬ Event.Decoded 1 (es ++ q.traced.events (q.after r)) := by
  intro r q es
  have hevents : es ++ q.traced.events (q.after r) =
      [.started 1 [0x48, 0x54, 0x56, 0x58], .failed 1] := by decide +kernel
  refine ⟨.request q (.new ..) nofun, by decide +kernel, by decide +kernel, ?_, ?_⟩
  · rw [hevents]
    decide
  · rw [hevents]
    rintro ⟨bytes, c, hstarted, hdecode⟩
    rcases List.mem_cons.1 hstarted with heq | hstarted
    · cases heq
      cases hdecode
    · cases List.mem_singleton.1 hstarted

end Registry

end ScriptVm
