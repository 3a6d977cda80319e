import ScriptVm.Proofs.Machine.Advance
import ScriptVm.Proofs.Machine.Execution
import Mathlib.Data.List.Nodup
import Mathlib.Data.List.Pairwise

/-!
# Traces of loading

What is loaded while scripts run, as a list of events. Files import classes, so the events of a file
are found all through the execution of its first function.

* `Event` is the start or the end of the run of a file, or the binding of a class. A file starts
  with the bytes that were fetched for it.
* `Event.Settled` are events in which every file that starts also ends, and in which those that
  complete could be read; `completed_iff` says which of them complete.
* `Traced` is an action with its events. An action of the machine has a traced form wherever
  an import may lie in it, with the same steps.
* `run_step` says that a traced step is a step; the other `run_` lemmas say the same of what a step
  is made from.
-/

namespace ScriptVm

/-- What happens while scripts are loaded. -/
inductive Event where
  | started (file : UInt32) (bytes : List UInt8)
  | completed (file : UInt32)
  | failed (file : UInt32)
  | bound (hash : UInt32) (c : Handle)
deriving DecidableEq

namespace Event

/-- The file that starts. -/
def start? : Event → Option UInt32
  | .started file _ => some file
  | _ => none

/-- The file that ends, well or not. -/
def end? : Event → Option UInt32
  | .completed file | .failed file => some file
  | _ => none

/-- The hash under which a class is bound. -/
def binding? : Event → Option UInt32
  | .bound hash _ => some hash
  | _ => none

/-- The class that is bound. -/
def class? : Event → Option Handle
  | .bound _ c => some c
  | _ => none

/-! ### Files that end -/

/-- A file has started, and its bytes can be read. -/
def Decoded (file : UInt32) (es : List Event) : Prop :=
  ∃ bytes c, .started file bytes ∈ es ∧ Container.decode bytes = .ok c

/-- Every file that starts also ends, and those that complete could be read. -/
structure Settled (es : List Event) : Prop where
  ended : (es.filterMap end?).Perm (es.filterMap start?)
  decoded : ∀ file, .completed file ∈ es → Decoded file es

variable {file : UInt32} {bytes : List UInt8} {es es' : List Event} {last : Event}

theorem Decoded.mono (h : Decoded file es) (hsub : es ⊆ es') : Decoded file es' := by
  obtain ⟨bytes, c, hstarted, hdecode⟩ := h
  exact ⟨bytes, c, hsub hstarted, hdecode⟩

theorem settled_nil : Settled [] := ⟨.nil, nofun⟩

theorem settled_bound (hash : UInt32) (c : Handle) : Settled [.bound hash c] :=
  ⟨.nil, fun file hfile => by cases List.mem_singleton.1 hfile⟩

theorem Settled.append (h : Settled es) (h' : Settled es') : Settled (es ++ es') where
  ended := by
    rw [List.filterMap_append, List.filterMap_append]
    exact h.ended.append h'.ended
  decoded file hfile := by
    rcases List.mem_append.1 hfile with hfile | hfile
    · exact (h.decoded file hfile).mono (List.subset_append_left es es')
    · exact (h'.decoded file hfile).mono (List.subset_append_right es es')

/-- What is seen of a file and all that happens while it runs, where its end is not seen. -/
theorem filterMap_enclose {β : Type} {f : Event → Option β} {first : Event} (hlast : f last = none)
    (es : List Event) :
    (first :: es ++ [last]).filterMap f = (f first).toList ++ es.filterMap f := by
  rw [List.filterMap_append, List.filterMap_cons_none hlast, List.filterMap_nil, List.append_nil]
  cases hfirst : f first with
  | none => exact List.filterMap_cons_none hfirst
  | some b => exact List.filterMap_cons_some hfirst

/-- The start of a file, what happens while it runs, and its end. -/
theorem Settled.enclose (h : Settled es)
    (hlast : last = .completed file ∧ (∃ c, Container.decode bytes = .ok c) ∨ last = .failed file) :
    Settled (.started file bytes :: es ++ [last]) where
  ended := by
    have hstarts : (.started file bytes :: es ++ [last]).filterMap start? =
        file :: es.filterMap start? :=
      filterMap_enclose (by rcases hlast with ⟨rfl, -⟩ | rfl <;> rfl) es
    have hends : (.started file bytes :: es ++ [last]).filterMap end? =
        es.filterMap end? ++ [file] := by
      rw [List.filterMap_append]
      rcases hlast with ⟨rfl, -⟩ | rfl <;> rfl
    rw [hstarts, hends]
    exact (h.ended.append_right [file]).trans (List.perm_append_singleton file _)
  decoded f hf := by
    have hwithin : es ⊆ .started file bytes :: es ++ [last] :=
      fun e he => List.mem_append_left _ (List.mem_cons_of_mem _ he)
    rcases List.mem_append.1 hf with hf | hf
    · rcases List.mem_cons.1 hf with heq | hf
      · cases heq
      · exact (h.decoded f hf).mono hwithin
    · rcases hlast with ⟨rfl, c, hdecode⟩ | rfl
      · cases List.mem_singleton.1 hf
        exact ⟨bytes, c, List.mem_cons_self, hdecode⟩
      · cases List.mem_singleton.1 hf

/-- A file ends only once, so that one that completes does not fail as well. -/
theorem not_failed_of_completed (hnodup : (es.filterMap end?).Nodup)
    (hcompleted : .completed file ∈ es) : .failed file ∉ es := by
  intro hfailed
  have hpairs := List.pairwise_filterMap.1 hnodup
  have hsymm : Std.Symm fun a b : Event =>
      ∀ f, a.end? = some f → ∀ g, b.end? = some g → f ≠ g :=
    ⟨fun _ _ h f hf g hg heq => h g hg f hf heq.symm⟩
  exact hpairs.forall hcompleted hfailed nofun file rfl file rfl rfl

/-- Where no file starts twice, one that has started has completed unless it has failed. -/
theorem Settled.completed_iff (h : Settled es) (hnodup : (es.filterMap start?).Nodup)
    (hfile : file ∈ es.filterMap start?) :
    (.completed file ∈ es ∧ Decoded file es) ↔ .failed file ∉ es := by
  rw [← h.ended.nodup_iff] at hnodup
  rw [← h.ended.mem_iff] at hfile
  refine ⟨fun hcompleted => not_failed_of_completed hnodup hcompleted.1, fun hfailed => ?_⟩
  obtain ⟨e, he, hend⟩ := List.mem_filterMap.1 hfile
  cases e with
  | completed f =>
    cases hend
    exact ⟨he, h.decoded _ he⟩
  | failed f =>
    cases hend
    exact absurd he hfailed
  | started f bytes => cases hend
  | bound hash c => cases hend

end Event

/-- An action and the events of it. -/
structure Traced (ε σ α : Type) where
  run : EStateM (Halt ε) σ α
  events : σ → List Event

namespace Traced

section Actions

variable {ε σ α β : Type}

/-- An action without events. -/
def lift (x : EStateM (Halt ε) σ α) : Traced ε σ α := ⟨x, fun _ => []⟩

/-- The events of one action and then those of another. -/
def andThen (x : Traced ε σ α) (g : α → Traced ε σ β) : Traced ε σ β where
  run := x.run >>= fun a => (g a).run
  events s := x.events s ++
    match x.run s with
    | .ok a s' => (g a).events s'
    | .error _ _ => []

instance : Monad (Traced ε σ) where
  pure a := lift (pure a)
  bind := andThen

theorem events_bind_of_ok {x : Traced ε σ α} {g : α → Traced ε σ β} {s s' : σ} {a : α}
    (hrun : x.run s = .ok a s') : (x >>= g).events s = x.events s ++ (g a).events s' := by
  show x.events s ++ _ = _
  rw [hrun]

theorem events_bind_of_error {x : Traced ε σ α} {g : α → Traced ε σ β} {s s' : σ} {e : Halt ε}
    (hrun : x.run s = .error e s') : (x >>= g).events s = x.events s := by
  show x.events s ++ _ = _
  rw [hrun]
  exact List.append_nil _

/-- What is done afterwards without events adds none. -/
theorem events_bind_silent {g : α → Traced ε σ β} (hg : ∀ a s, (g a).events s = [])
    (x : Traced ε σ α) (s : σ) : (x >>= g).events s = x.events s := by
  cases hrun : x.run s with
  | ok a s' => rw [events_bind_of_ok hrun, hg, List.append_nil]
  | error e s' => exact events_bind_of_error hrun

theorem events_bind_lift (x : Traced ε σ α) (y : α → EStateM (Halt ε) σ β) (s : σ) :
    (x >>= fun a => lift (y a)).events s = x.events s :=
  events_bind_silent (fun _ _ => rfl) x s

end Actions

variable {α : Type}

/-- An action that halts with a fault, among those that load. -/
def ofExec (x : Traced Fault Machine α) : Traced RegistryError Machine α :=
  ⟨Load.ofExec x.run, x.events⟩

/-- An action that loads, among those that halt with a fault. -/
def toExec (x : Traced RegistryError Machine α) : Traced Fault Machine α :=
  ⟨Load.toExec x.run, x.events⟩

/-- A protected run. -/
def runProtected (body : Traced Fault Machine Unit) : Traced Fault Machine Value :=
  ⟨Exec.runProtected body.run, fun m => body.events m.beginRun⟩

/-! ### Loading -/

section Loading

variable (executor : Traced Fault Machine Unit)

/-- Calls a value. -/
def runValue (callee : Value) (args : List Value) : Traced Fault Machine Value :=
  runProtected do
    lift (Exec.push callee)
    lift (Exec.pushAll args)
    lift (Exec.callValue args.length)
    executor

/-- Reads a file into a module and runs its first function. -/
def runEntry (bytes : List UInt8) (file : UInt32) : Traced RegistryError Machine Unit := do
  let module ← lift (Load.readModule bytes file)
  match (← lift get).env.entryFunction? module with
  | some entry =>
    let _ ← ofExec (runValue executor (.object entry) [])
  | none => pure ()

/-- The same from the start of the file to its end. -/
def runFile (bytes : List UInt8) (file : UInt32) : Traced RegistryError Machine Unit where
  run := (runEntry executor bytes file).run
  events m := .started file bytes :: (runEntry executor bytes file).events m ++
    [match (runEntry executor bytes file).run m with
    | .ok _ _ => .completed file
    | .error _ _ => .failed file]

/-- Loads a file unless it was loaded. -/
def loadScript (file : UInt32) : Traced RegistryError Machine Bool := do
  match ← lift (Load.fetch file) with
  | .cached => return true
  | .absent =>
    lift (Load.report .warn fun _ => "Script " ++ Text.hexWord file ++ " does not exist!")
    return false
  | .fresh bytes =>
    runFile executor bytes file
    return true

/-- Loads the files of a class. -/
def loadFiles (name : String) (count : Nat) :
    Bool → List UInt32 → Traced RegistryError Machine Bool
  | _, [] => pure true
  | first, file :: rest => do
    match ← lift (Load.fetch file) with
    | .cached => loadFiles name count false rest
    | .absent =>
      lift (Load.report .warn fun _ => s!"Object \"{name}\" does not exist!")
      return false
    | .fresh bytes =>
      if first then
        lift (Load.report .debug fun _ => s!"Loading the object {name} class, {count} filenames...")
      runFile executor bytes file
      loadFiles name count false rest

/-- Registers a class; it is bound if it is found and was not bound before. -/
def bindClass (name : String) (hash : UInt32) : Traced RegistryError Machine Bool where
  run := Load.bindClass name hash
  events m :=
    match m.env.loader, m.env.classByHash? hash with
    | some l, some c => if l.boundClasses.contains hash then [] else [.bound hash c]
    | _, _ => []

/-- Loads a class. -/
def loadClass (name : String) : Traced RegistryError Machine Bool := do
  if name.isEmpty then return false
  let hash := hashName name
  let some l := (← lift get).env.loader | return false
  match l.source.classMap.files? hash with
  | none =>
    lift (Load.report .warn fun _ =>
      s!"Could not find classmap for {name}! (Hash: 0x" ++ Text.hexWord hash ++ ")")
    return false
  | some files =>
    if ← loadFiles executor name files.length true files then bindClass name hash
    else return false

/-! ### Execution -/

/-- Loads the class that a constant names. -/
def importClass (index : Nat) : Traced Fault Machine Unit := do
  let v ← lift (Exec.constantAt index)
  let mem ← lift Exec.memory
  match mem.heap.text? v with
  | none => lift (Exec.fault (.importKind (mem.typeName v)))
  | some name =>
    if ← (loadClass executor name).toExec then pure ()
    else lift (Exec.fault (.notImported name))

/-- Carries out an instruction. -/
def perform : Instruction → Traced Fault Machine Unit
  | .importClass index => importClass executor index.toNat
  | i => lift (Exec.perform executor.run i)

/-- One step. -/
def step : Traced Fault Machine Unit := do perform executor (← lift Exec.advance)

end Loading

/-! ### Traced actions are actions -/

variable (executor : Traced Fault Machine Unit)

theorem run_runFile (bytes : List UInt8) (file : UInt32) :
    (runFile executor bytes file).run = Load.runFile executor.run bytes file := by
  show (runEntry executor bytes file).run = _
  unfold runEntry Load.runFile
  refine bind_congr fun module => bind_congr fun m => ?_
  beta_reduce
  cases m.env.entryFunction? module <;> rfl

theorem run_loadScript (file : UInt32) :
    (loadScript executor file).run = Load.loadScript executor.run file := by
  refine bind_congr fun found => ?_
  cases found with
  | cached => rfl
  | absent => rfl
  | fresh bytes =>
    show (runFile executor bytes file).run >>= _ = _
    rw [run_runFile]
    rfl

theorem run_loadFiles (name : String) (count : Nat) (first : Bool) (files : List UInt32) :
    (loadFiles executor name count first files).run =
      Load.loadFiles executor.run name count first files := by
  induction files generalizing first with
  | nil => rfl
  | cons file rest ih =>
    refine bind_congr fun found => ?_
    cases found with
    | cached => exact ih false
    | absent => rfl
    | fresh bytes =>
      have hrest : (runFile executor bytes file).run >>= (fun _ =>
          (loadFiles executor name count false rest).run) =
            Load.runFile executor.run bytes file >>= fun _ =>
              Load.loadFiles executor.run name count false rest := by
        rw [run_runFile, ih false]
      cases first with
      | false => exact hrest
      | true => exact bind_congr fun _ => hrest

omit executor in
/-- A class is bound if it is found and was not bound before. -/
theorem events_bindClass {m : Machine} {l : Loader} (hl : m.env.loader = some l) (name : String)
    (hash : UInt32) : (bindClass name hash).events m =
      if hash ∈ l.boundClasses then [] else (m.env.classByHash? hash).toList.map (.bound hash) := by
  unfold bindClass
  dsimp only
  rw [hl]
  cases m.env.classByHash? hash with
  | none => exact (ite_self _).symm
  | some c =>
    by_cases hbound : hash ∈ l.boundClasses
    · rw [if_pos hbound]
      exact if_pos (List.contains_iff_mem.2 hbound)
    · rw [if_neg hbound]
      exact if_neg fun h => hbound (List.contains_iff_mem.1 h)

theorem run_loadClass (name : String) :
    (loadClass executor name).run = Load.loadClass executor.run name := by
  unfold loadClass Load.loadClass
  split
  · rfl
  · refine bind_congr fun m => ?_
    beta_reduce
    cases m.env.loader with
    | none => rfl
    | some l =>
      dsimp only
      cases l.source.classMap.files? (hashName name) with
      | none => rfl
      | some files =>
        show (loadFiles executor name files.length true files).run >>= _ = _
        rw [run_loadFiles]
        refine bind_congr fun loaded => ?_
        cases loaded <;> rfl

theorem run_perform (i : Instruction) :
    (perform executor i).run = Exec.perform executor.run i := by
  cases i with
  | importClass index =>
    refine bind_congr fun v => bind_congr fun mem => ?_
    beta_reduce
    cases mem.heap.text? v with
    | none => rfl
    | some name =>
      show Load.toExec (loadClass executor name).run >>= _ = _
      rw [run_loadClass]
      refine bind_congr fun loaded => ?_
      cases loaded <;> rfl
  | _ => rfl

theorem run_step : (step executor).run = Exec.step executor.run := by
  rw [Exec.step_eq]
  exact bind_congr fun i => run_perform executor i

end Traced
end ScriptVm
