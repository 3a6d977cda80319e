import ScriptVm.Proofs.Registry.Histories

/-!
# Loading once

Between two disposals no file is started twice and no class is bound twice, whatever is asked of a
registry and however scripts import each other. `load_once` says so of any history and one more
request.
-/

namespace ScriptVm
namespace Registry

variable {source : Source} {r : Registry} {es : List Event}

/-- **Files load once and classes are bound once.** Between disposals no file is started and no hash
bound twice, and each binding adds one class and calls the binder once at most. -/
theorem load_once (hs : History source r es) (q : Request) (hq : q ≠ .dispose) :
    q.traced.run = q.operation ∧
    ((es ++ q.traced.events r).filterMap Event.start?).Nodup ∧
    ((es ++ q.traced.events r).filterMap Event.binding?).Nodup ∧
    (q.after r).vm.env.classes.toList =
      r.vm.env.classes.toList ++ (q.traced.events r).filterMap Event.class? ∧
    ∃ names, (q.after r).vm.env.binderCalls = r.vm.env.binderCalls ++ names ∧
      (names.map hashName).Sublist ((q.traced.events r).filterMap Event.binding?) := by
  have hrecord := (hs.request q hq).onRecord
  have hrecords := q.records hq r
  refine ⟨q.run_traced, ?_, ?_, hrecords.classes, hrecords.binder⟩
  · rw [← List.nodup_reverse, ← hrecord.fetched]
    exact hrecord.fetchedOnce
  · rw [← List.nodup_reverse, ← hrecord.bound]
    exact hrecord.boundOnce

/-- A class of lamps, whose file asks twice for the class of switches, and the file of those. -/
def switchSource : Source :=
  let file (name : String) (constants : Array Constant) (before : List UInt8) : List UInt8 :=
    let hash := Bytes.bytes32 (hashName name)
    let code := before ++ [13] ++ hash ++ [0, 2] ++ hash ++ [32, 11]
    let c : Container :=
      { version := 0, debugInfo := false, functions := [⟨0, 0, ⟨code.toArray, none, constants, 0⟩⟩]
        tokens := [], sourceFilename := none }
    c.encode
  .ofLists
    [(1, file "Lamp" #[.string "Switch"] [62, 0, 0, 0, 0, 62, 0, 0, 0, 0]),
      (2, file "Switch" #[] [])]
    [("Lamp", 1), ("Switch", 2)]

/-- A registry for it with a binder of the host. -/
def switchRegistry : Registry :=
  let r := Registry.new .standard switchSource Native.standard default
  let loader := r.vm.env.loader.map fun l => { l with binder := some ⟨[], #[]⟩ }
  { r with vm := { r.vm with env := { r.vm.env with loader } } }

/-- Lamps load both files and bind both classes; when all files are asked for after that, nothing
starts again. -/
theorem load_once_switches :
    let q := Request.loadClass 9 "Lamp"
    let es := q.traced.events switchRegistry
    let all := es ++ (Request.loadClasses 9).traced.events (q.after switchRegistry)
    History switchSource (q.after switchRegistry) es ∧ es.filterMap Event.start? = [1, 2] ∧
      (q.after switchRegistry).vm.env.binderCalls = ["Switch", "Lamp"] ∧
      (all.filterMap Event.start?).Nodup ∧ (all.filterMap Event.binding?).Nodup := by
  intro q es all
  have hstart : History switchSource switchRegistry [] :=
    .host (some ⟨[], #[]⟩) (.new .standard Native.standard default) rfl
  have hloaded : History switchSource (q.after switchRegistry) es := hstart.request q nofun
  obtain ⟨-, hstarts, hbindings, -⟩ := load_once hloaded (.loadClasses 9) nofun
  exact ⟨hloaded, by decide +kernel, by decide +kernel, hstarts, hbindings⟩

end Registry
end ScriptVm
