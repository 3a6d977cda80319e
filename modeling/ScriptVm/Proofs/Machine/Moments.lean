import ScriptVm.Proofs.Machine.CallerStack
import ScriptVm.Proofs.Machine.Nesting
import ScriptVm.Proofs.Machine.OrdinarySteps

/-!
# Moments of a run

What happens to a machine while its scripts run, in order: it executes an instruction, or a run in
it fails. As files can import classes, instructions are executed and runs fail in runs within runs.

* `moments` lists the moments of the executor, `runMoments` those of a run, and `classMoments` those
  of loading a class. They are for machines in which no debugger breaks in.
* `Unfolds` is an action that is made of ordinary ones and of runs, with its moments. The `unfolds_`
  lemmas take apart what loads files; `unfolds_importClass` is the only instruction that does.
-/

namespace ScriptVm

/-- What happens to a machine: it executes its next instruction, or a run fails in it. -/
inductive Moment where
  | executes (m : Machine)
  | fails (f : Fault) (m : Machine)

/-- The machine that executes its next instruction. -/
def Moment.executing? : Moment → Option Machine
  | .executes m => some m
  | .fails _ _ => none

namespace Machine.Call

open Exec

/-- The call itself, which may enter a function. -/
def start : Call → Exec Unit
  | .value callee args => do
    push callee
    pushAll args
    callValue args.length
  | .forObject callable receiver args => do
    push receiver
    pushAll args
    callForObject callable args.length

/-- A run is the call and what it enters. -/
theorem run_eq (call : Call) (executor : Exec Unit) :
    call.run executor = runProtected (do call.start; executor) := by
  rw [run_eq_runProtected]
  cases call <;> simp only [body, start, bind_assoc]

theorem above_start (call : Call) : Keeps (Machine.Above 0 0) call.start := by
  cases call with
  | value callee args =>
    refine ((keeps_push callee).above 0).bind fun _ =>
      ((keeps_pushAll args).above 0).bind fun _ => ?_
    exact (keeps_callValue _).above 0
  | forObject callable receiver args =>
    refine ((keeps_push receiver).above 0).bind fun _ =>
      ((keeps_pushAll args).above 0).bind fun _ => ?_
    exact (keeps_callForObject _ _).above 0

theorem ordinary_start (call : Call) : Ordinary 1 call.start := by
  cases call with
  | value callee args =>
    exact (ordinary_push callee).bind fun _ => (ordinary_pushAll args).bind fun _ =>
      ordinary_callValue _
  | forObject callable receiver args =>
    exact (ordinary_push receiver).bind fun _ => (ordinary_pushAll args).bind fun _ =>
      ordinary_callForObject _ _

end Machine.Call

namespace Exec

open Machine (Call)

section Ends

variable {m m' : Machine} {body : Exec Unit} {v : Value}

theorem runProtected_of_result (hbody : (body *> pop) m.beginRun = .ok v m') :
    runProtected body m =
      .ok v
        (m'.endRun m.thread.stack.size m.thread.frames.size m.thread.returnFrame .returned) := by
  unfold runProtected
  rw [hbody]

theorem runProtected_of_fault {f : Fault}
    (hbody : (body *> pop) m.beginRun = .error (.error f) m') :
    runProtected body m = .error (.error (m'.attachTrace f).1)
      ((m'.attachTrace f).2.endRun m.thread.stack.size m.thread.frames.size m.thread.returnFrame
        .errored) := by
  unfold runProtected
  rw [hbody]

/-- What is no fault has no trace. -/
theorem runProtected_of_halt {e : Halt Fault} (he : ∀ f, e ≠ .error f)
    (hbody : (body *> pop) m.beginRun = .error e m') :
    runProtected body m =
      .error e
        (m'.endRun m.thread.stack.size m.thread.frames.size m.thread.returnFrame .errored) := by
  unfold runProtected
  rw [hbody]
  cases e with
  | error f => exact absurd rfl (he f)
  | outOfFuel => rfl
  | overflow => rfl

end Ends

/-- The machines that execute their next instruction. -/
def executing (moments : List Moment) : List Machine := moments.filterMap Moment.executing?

section Lists

variable {ε α : Type}

/-- The moments of what follows an action. -/
def afterwards (x : EStateM (Halt ε) Machine α) (next : α → Machine → List Moment) (m : Machine) :
    List Moment :=
  match x m with
  | .ok a m' => next a m'
  | .error _ _ => []

/-- The moment in which an action fails. -/
def failure (x : Exec α) (m : Machine) : List Moment :=
  match x m with
  | .error (.error f) m' => [.fails f m']
  | _ => []

theorem afterwards_of_ok {x : EStateM (Halt ε) Machine α} {next : α → Machine → List Moment}
    {m m' : Machine} {a : α} (hrun : x m = .ok a m') : afterwards x next m = next a m' := by
  unfold afterwards
  rw [hrun]

theorem afterwards_of_error {x : EStateM (Halt ε) Machine α} {next : α → Machine → List Moment}
    {m m' : Machine} {e : Halt ε} (hrun : x m = .error e m') : afterwards x next m = [] := by
  unfold afterwards
  rw [hrun]

theorem afterwards_nil (x : EStateM (Halt ε) Machine α) (m : Machine) :
    afterwards x (fun _ _ => []) m = [] := by
  unfold afterwards
  cases x m <;> rfl

theorem executing_append (v w : List Moment) : executing (v ++ w) = executing v ++ executing w :=
  List.filterMap_append

theorem executing_failure (x : Exec α) (m : Machine) : executing (failure x m) = [] := by
  unfold failure
  split <;> rfl

end Lists

/-! ### Runs and loading -/

section Loading

variable (executor : Exec Unit) (inner : Machine → List Moment)

/-- The moments of a run: those of the executor once the call is made, and the end if it fails. -/
def runMoments (start : Exec Unit) (m : Machine) : List Moment :=
  afterwards start (fun _ => inner) m.beginRun ++ failure ((do start; executor) *> pop) m.beginRun

/-- The moments of a file. -/
def fileMoments (bytes : List UInt8) (file : UInt32) : Machine → List Moment :=
  afterwards (Load.readModule bytes file) fun module m =>
    match m.env.entryFunction? module with
    | some entry => runMoments executor inner (Call.value (.object entry) []).start m
    | none => []

/-- The moments of loading a file, unless it was loaded. -/
def scriptMoments (file : UInt32) : Machine → List Moment :=
  afterwards (Load.fetch file) fun found =>
    match found with
    | .fresh bytes => fileMoments executor inner bytes file
    | _ => fun _ => []

/-- The moments of the files of a class. -/
def filesMoments (name : String) (count : Nat) : Bool → List UInt32 → Machine → List Moment
  | _, [] => fun _ => []
  | first, file :: rest =>
    afterwards (Load.fetch file) fun found =>
      match found with
      | .cached => filesMoments name count false rest
      | .absent => fun _ => []
      | .fresh bytes =>
        afterwards
          (if first then Load.report .debug fun _ =>
            s!"Loading the object {name} class, {count} filenames..."
          else pure ())
          fun _ m => fileMoments executor inner bytes file m ++
            afterwards (Load.runFile executor bytes file)
              (fun _ => filesMoments name count false rest) m

/-- The moments of loading a class. -/
def classMoments (name : String) (m : Machine) : List Moment :=
  if name.isEmpty then []
  else
    match m.env.loader with
    | none => []
    | some l =>
      match l.source.classMap.files? (hashName name) with
      | none => []
      | some files => filesMoments executor inner name files.length true files m

/-- The moments of importing the class that a constant names. -/
def importMoments (index : Nat) : Machine → List Moment :=
  afterwards (constantAt index) fun v m =>
    match m.env.heap.text? v with
    | none => []
    | some name => classMoments executor inner name m

/-- The moments within an instruction. -/
def performMoments : Instruction → Machine → List Moment
  | .importClass index => importMoments executor inner index.toNat
  | _ => fun _ => []

end Loading

/-- The moments of executing the calls of the current run, at most `fuel` steps deep and far. -/
def moments : Nat → Machine → List Moment
  | 0, _ => []
  | fuel + 1, m =>
    if m.thread.isActive then
      .executes m :: (afterwards advance (performMoments (execute fuel) (moments fuel)) m ++
        afterwards (step (execute fuel)) (fun _ => moments fuel) m)
    else []

/-! ### Actions and their moments -/

section Unfolding

variable {ε δ α β : Type} [HasFault ε] [HasFault δ] {executor : Exec Unit}
  {inner : Machine → List Moment}

/-- An action made of ordinary ones that leave the thread alone, of complaints about classes that
their files do not define, and of runs of an executor whose moments are known; with its moments. -/
inductive Unfolds (executor : Exec Unit) (inner : Machine → List Moment) :
    {ε α : Type} → [HasFault ε] → EStateM (Halt ε) Machine α → (Machine → List Moment) → Prop
  | ordinary {ε α : Type} [HasFault ε] {x : EStateM (Halt ε) Machine α} (hx : Ordinary 0 x)
      (hthread : ∀ m, (after x m).thread = m.thread) : Unfolds executor inner x fun _ => []
  | bind {ε α β : Type} [HasFault ε] {x : EStateM (Halt ε) Machine α}
      {f : α → EStateM (Halt ε) Machine β} {v : Machine → List Moment}
      {w : α → Machine → List Moment} (hx : Unfolds executor inner x v)
      (hf : ∀ a, Unfolds executor inner (f a) (w a)) :
      Unfolds executor inner (x >>= f) fun m => v m ++ afterwards x w m
  | look {ε β : Type} [HasFault ε] {k : Machine → EStateM (Halt ε) Machine β}
      {w : Machine → Machine → List Moment} (hk : ∀ b m, k (m.against b) = k m)
      (h : ∀ m, Unfolds executor inner (k m) (w m)) :
      Unfolds executor inner (get >>= k) fun m => w m m
  | adapt {ε δ α : Type} [HasFault ε] [HasFault δ] {x : EStateM (Halt ε) Machine α}
      {v : Machine → List Moment} {g : ε → δ} (hg : ∀ e, HasFault.fault (g e) = HasFault.fault e)
      (hx : Unfolds executor inner x v) :
      Unfolds executor inner (EStateM.adaptExcept (Halt.map g) x) v
  | complain (name : String) :
      Unfolds executor inner (Load.report .error fun _ => s!"Could not find class of {name}")
        fun _ => []
  | run (call : Call) : Unfolds executor inner (call.run executor)
      (runMoments executor inner call.start)

namespace Unfolds

variable {x : EStateM (Halt ε) Machine α} {f : α → EStateM (Halt ε) Machine β}
  {v v' : Machine → List Moment} {w : α → Machine → List Moment}

theorem congr (hx : Unfolds executor inner x v) (hv : ∀ m, v m = v' m) :
    Unfolds executor inner x v' :=
  funext hv ▸ hx

theorem pure (a : α) :
    Unfolds executor inner (Pure.pure a : EStateM (Halt ε) Machine α) fun _ => [] :=
  .ordinary (ordinary_pure a) fun _ => rfl

theorem line (level : Level) (text : Unit → String) (h : level ≠ .error) :
    Unfolds executor inner (Load.report level text) fun _ => [] :=
  .ordinary (Load.ordinary_line level text h) fun _ => rfl

/-- After an action without moments. -/
theorem after (hx : Unfolds executor inner x fun _ => [])
    (hf : ∀ a, Unfolds executor inner (f a) (w a)) :
    Unfolds executor inner (x >>= f) (afterwards x w) := hx.bind hf

/-- Before an action without moments. -/
theorem before (hx : Unfolds executor inner x v)
    (hf : ∀ a, Unfolds executor inner (f a) fun _ => []) : Unfolds executor inner (x >>= f) v := by
  refine (hx.bind hf).congr fun m => ?_
  rw [afterwards_nil, List.append_nil]

end Unfolds

/-! ### What loads files -/

variable (executor inner)

theorem unfolds_readModule (bytes : List UInt8) (file : UInt32) :
    Unfolds executor inner (Load.readModule bytes file) fun _ => [] := by
  refine .ordinary (Load.ordinary_readModule bytes file) fun m => ?_
  unfold after Load.readModule
  cases m.env.readModule bytes file <;> rfl

theorem unfolds_fetch (file : UInt32) : Unfolds executor inner (Load.fetch file) fun _ => [] := by
  refine .ordinary (Load.ordinary_fetch file) fun m => ?_
  rw [Load.after_fetch]

theorem unfolds_runFile (bytes : List UInt8) (file : UInt32) :
    Unfolds executor inner (Load.runFile executor bytes file)
      (fileMoments executor inner bytes file) := by
  refine .after (unfolds_readModule executor inner bytes file) fun module => ?_
  refine (Unfolds.look (w := fun m => match m.env.entryFunction? module with
    | some entry => runMoments executor inner (Call.value (.object entry) []).start
    | none => fun _ => []) (fun _ _ => rfl) fun m => ?_).congr fun m => ?_
  · cases m.env.entryFunction? module with
    | none => exact .pure ()
    | some entry =>
      have hrun : Unfolds executor inner ((Call.value (.object entry) []).run executor) _ := .run _
      exact (hrun.adapt (g := RegistryError.vm) fun _ => rfl).before fun _ => .pure ()
  · cases m.env.entryFunction? module <;> rfl

theorem unfolds_loadScript (file : UInt32) :
    Unfolds executor inner (Load.loadScript executor file) (scriptMoments executor inner file) := by
  refine .after (unfolds_fetch executor inner file) fun found => ?_
  cases found with
  | cached => exact .pure true
  | absent => exact (Unfolds.line .warn _ nofun).before fun _ => .pure false
  | fresh bytes => exact (unfolds_runFile executor inner bytes file).before fun _ => .pure true

theorem unfolds_loadFiles (name : String) (count : Nat) (first : Bool) (files : List UInt32) :
    Unfolds executor inner (Load.loadFiles executor name count first files)
      (filesMoments executor inner name count first files) := by
  induction files generalizing first with
  | nil => exact .pure true
  | cons file rest ih =>
    refine .after (unfolds_fetch executor inner file) fun found => ?_
    cases found with
    | cached => exact ih false
    | absent => exact (Unfolds.line .warn _ nofun).before fun _ => .pure false
    | fresh bytes =>
      have hrest : Unfolds executor inner (do
          Load.runFile executor bytes file
          Load.loadFiles executor name count false rest) fun m =>
            fileMoments executor inner bytes file m ++
            afterwards (Load.runFile executor bytes file)
              (fun _ => filesMoments executor inner name count false rest) m :=
        (unfolds_runFile executor inner bytes file).bind fun _ => ih false
      dsimp only
      cases first with
      | true => exact .after (.line .debug _ nofun) fun _ => hrest
      | false => exact hrest

/-- The only error that is logged in loading is that a class is not found. -/
theorem unfolds_bindClass (name : String) (hash : UInt32) :
    Unfolds executor inner (Load.bindClass name hash) fun _ => [] := by
  refine Unfolds.look (w := fun _ _ => []) (fun _ _ => rfl) fun m => ?_
  dsimp only
  split
  · split
    · exact .pure true
    · split
      · exact (Unfolds.complain name).before fun _ => .pure false
      · rename_i l _ _ _ c _
        have hlisted : Environment.Ordinary fun env =>
            ((), { env with classes := env.classes.push c }) :=
          Environment.ordinary_of_log (fun _ _ => rfl) fun _ => rfl
        refine (Unfolds.ordinary (Load.ordinary_mapLoader _) fun _ => rfl).before fun _ => ?_
        refine (Unfolds.ordinary (Load.ordinary_modifyEnv hlisted) fun _ => rfl).before fun _ => ?_
        split
        · exact .pure true
        · rename_i b _
          have hbound := Environment.ordinary_bindMembers b c name
          split
          · refine (Unfolds.line .trace _ nofun).before fun _ => ?_
            exact (Unfolds.ordinary (Load.ordinary_modifyEnv hbound) fun _ => rfl).before fun _ =>
              .pure true
          · exact .pure true
  · exact .pure false

theorem unfolds_loadClass (name : String) :
    Unfolds executor inner (Load.loadClass executor name) (classMoments executor inner name) := by
  unfold Load.loadClass classMoments
  split
  · exact .pure false
  · refine (Unfolds.look (w := fun m => match m.env.loader with
      | none => fun _ => []
      | some l => match l.source.classMap.files? (hashName name) with
        | none => fun _ => []
        | some files => filesMoments executor inner name files.length true files) (fun _ _ => rfl)
      fun m => ?_).congr fun m => ?_
    · cases m.env.loader with
      | none => exact .pure false
      | some l =>
        dsimp only
        cases l.source.classMap.files? (hashName name) with
        | none => exact (Unfolds.line .warn _ nofun).before fun _ => .pure false
        | some files =>
          refine (unfolds_loadFiles executor inner name files.length true files).before
            fun loaded => ?_
          split
          · exact unfolds_bindClass executor inner name _
          · exact .pure false
    · cases m.env.loader with
      | none => rfl
      | some l =>
        dsimp only
        cases l.source.classMap.files? (hashName name) <;> rfl

theorem unfolds_importClass (index : Nat) :
    Unfolds executor inner (importClass executor index) (importMoments executor inner index) := by
  have hconstant : Unfolds executor inner (constantAt index) fun _ => [] :=
    .ordinary (ordinary_constantAt index) fun m =>
      congrArg Machine.thread (after_constantAt index m)
  have hfault : ∀ c, Unfolds executor inner (fault c : Exec Unit) fun _ => [] :=
    fun c => .ordinary (ordinary_fault c) fun _ => rfl
  have hmemory : Unfolds executor inner memory fun _ => [] := .ordinary ordinary_memory fun _ => rfl
  refine hconstant.after fun v => ?_
  refine (Unfolds.after (w := fun mem => match mem.heap.text? v with
    | none => fun _ => []
    | some name => classMoments executor inner name) hmemory fun mem => ?_).congr fun m => ?_
  · cases mem.heap.text? v with
    | none => exact hfault _
    | some name =>
      refine ((unfolds_loadClass executor inner name).adapt (g := RegistryError.toFault) fun _ =>
        rfl).before fun loaded => ?_
      split
      · exact .pure ()
      · exact hfault _
  · show (match m.env.heap.text? v with | none => _ | some name => _ : Machine → List Moment) m = _
    cases m.env.heap.text? v <;> rfl

end Unfolding
end Exec
end ScriptVm
