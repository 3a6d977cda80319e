import ScriptVm.Proofs.Machine.WholeRuns

/-!
# Calls below a run

A run that is started while calls are active leaves these calls as they are, through any nesting of
runs inside it.

* `Agree` says that the calls below the mark of the current run are as they were, `Above k l` that
  this is so wherever `k` calls of the run itself are active, and that `l` of them stay so.
* `above_execute` is the induction on the number of steps: a step changes the topmost call only.
* `calls_runProtected` is the result: after a run the calls are those before it, and the operand
  stack is no higher. So it is after loading a script or a class.
-/

namespace ScriptVm

namespace Machine

/-- The calls below the mark of the current run, and the mark itself, are as they were. -/
structure Agree (m m' : Machine) : Prop where
  returnFrame : m'.thread.returnFrame = m.thread.returnFrame
  frames : m'.thread.frames.toList.take m.thread.returnFrame =
    m.thread.frames.toList.take m.thread.returnFrame

/-- With at least `k` calls of the current run active, the calls below are left alone, and `l` calls
of the run are active afterwards. -/
def Above (k l : Nat) (m m' : Machine) : Prop :=
  m.thread.returnFrame + k ≤ m.thread.frames.size →
    m.Agree m' ∧ m'.thread.returnFrame + l ≤ m'.thread.frames.size

/-- All calls are as they were, and the operand stack is no higher. -/
structure SameCalls (m m' : Machine) : Prop where
  frames : m'.thread.frames = m.thread.frames
  returnFrame : m'.thread.returnFrame = m.thread.returnFrame
  height : m'.thread.stack.size ≤ m.thread.stack.size

variable {m m' m'' : Machine} {j k l : Nat}

theorem Agree.refl (m : Machine) : m.Agree m := ⟨rfl, rfl⟩

theorem Agree.trans (h : m.Agree m') (h' : m'.Agree m'') : m.Agree m'' := by
  refine ⟨h'.returnFrame.trans h.returnFrame, ?_⟩
  have hframes := h'.frames
  rw [h.returnFrame] at hframes
  exact hframes.trans h.frames

theorem Above.trans (h : Above j k m m') (h' : Above k l m' m'') : Above j l m m'' := by
  intro hk
  obtain ⟨hagree, hk'⟩ := h hk
  obtain ⟨hagree', hk''⟩ := h' hk'
  exact ⟨hagree.trans hagree', hk''⟩

theorem SameCalls.trans (h : m.SameCalls m') (h' : m'.SameCalls m'') : m.SameCalls m'' :=
  ⟨h'.frames.trans h.frames, h'.returnFrame.trans h.returnFrame, Nat.le_trans h'.height h.height⟩

theorem Above.mono (h : Above k l m m') (hl : j ≤ l) : Above k j m m' := by
  intro hk
  obtain ⟨hagree, hl'⟩ := h hk
  exact ⟨hagree, by omega⟩

instance : IsTrans Machine (Above k k) := ⟨fun _ _ _ => Above.trans⟩

instance : IsTrans Machine SameCalls := ⟨fun _ _ _ => SameCalls.trans⟩

theorem SameCalls.above (h : m.SameCalls m') : Above k k m m' := by
  intro hk
  refine ⟨⟨h.returnFrame, by rw [h.frames]⟩, ?_⟩
  rwa [h.returnFrame, h.frames]

theorem Undisturbed.above (h : m.Undisturbed m') : Above k k m m' := by
  intro hk
  obtain ⟨pushed, hpushed⟩ := h.frames
  have hlength : m.thread.returnFrame ≤ m.thread.frames.toList.length := by
    rw [Array.length_toList]
    omega
  refine ⟨⟨h.still.returnFrame, ?_⟩, ?_⟩
  · rw [← hpushed, List.take_append_of_le_length hlength]
  · have hsize : m'.thread.frames.size = m.thread.frames.size + pushed.length := by
      rw [← Array.length_toList, ← hpushed, List.length_append, Array.length_toList]
    rw [h.still.returnFrame]
    omega

/-- Changing the current call of a run. -/
theorem above_mapFrame (m : Machine) (g : Frame → Frame) : Above 1 1 m (m.mapFrame g) := by
  intro hk
  refine ⟨⟨rfl, ?_⟩, ?_⟩
  · show (m.thread.frames.modify (m.thread.frames.size - 1) g).toList.take _ = _
    refine List.ext_getElem? fun i => ?_
    rw [List.getElem?_take, List.getElem?_take]
    split
    · rename_i hi
      rw [Array.getElem?_toList, Array.getElem?_toList, Array.getElem?_modify, if_neg (by omega)]
    · rfl
  · show _ ≤ (m.thread.frames.modify (m.thread.frames.size - 1) g).size
    rwa [Array.size_modify]

instance : AdmitsCurrent (Above 1 1) where
  refl m := (Undisturbed.refl m).above
  stack m g := (AdmitsReads.stack m g : m.Undisturbed _).above
  search m env h := (AdmitsReads.search m env h : m.Undisturbed _).above
  current m g _ := m.above_mapFrame g

/-- Leaving the current call of a run. -/
theorem above_leave (m : Machine) : Above 1 0 m (m.mapFrames (·.pop)) := by
  intro hk
  refine ⟨⟨rfl, ?_⟩, ?_⟩
  · show m.thread.frames.pop.toList.take _ = _
    rw [Array.toList_pop, List.dropLast_eq_take, List.take_take, Array.length_toList,
      Nat.min_eq_left (by omega)]
  · show m.thread.returnFrame + 0 ≤ m.thread.frames.pop.size
    rw [Array.size_pop]
    omega

end Machine

namespace Exec

variable {ε α : Type} {executor body : Exec Unit} {m : Machine}

theorem Keeps.above {x : EStateM (Halt ε) Machine α} (hx : Quiet x) (k : Nat) :
    Keeps (Machine.Above k k) x := hx.mono fun _ _ h => h.above

/-! ### Protected runs -/

/-- After a run the calls are those before it. -/
theorem calls_runProtected (hbody : Keeps (Machine.Above 0 0) body) :
    Keeps Machine.SameCalls (runProtected body) := by
  intro m
  have hrun : Keeps (Machine.Above 0 0) (body *> pop) := hbody.bind fun _ => keeps_pop.above 0
  obtain ⟨hagree, -⟩ := hrun m.beginRun (Nat.le_refl _)
  obtain ⟨env, outcome, -, hafter⟩ := after_runProtected body m
  refine ⟨?_, by rw [hafter]; rfl, ?_⟩
  · rw [hafter]
    show (after (body *> pop) m.beginRun).thread.frames.shrink m.thread.frames.size = _
    have hframes := hagree.frames
    change List.take m.thread.frames.size _ = List.take m.thread.frames.size m.thread.frames.toList
      at hframes
    rw [← Array.toList_inj, Array.toList_shrink, hframes, List.take_of_length_le]
    exact Nat.le_of_eq Array.length_toList
  · rw [hafter]
    show ((after (body *> pop) m.beginRun).thread.stack.shrink m.thread.stack.size).size ≤ _
    rw [Array.size_shrink]
    exact Nat.min_le_left _ _

/-- What changes the environment only. -/
theorem calls_of_thread {x : EStateM (Halt ε) Machine α} (hx : ∀ m, (after x m).thread = m.thread) :
    Keeps Machine.SameCalls x := by
  intro m
  refine ⟨congrArg Thread.frames (hx m), congrArg Thread.returnFrame (hx m), ?_⟩
  exact Nat.le_of_eq (congrArg (·.stack.size) (hx m))

theorem calls_get : Keeps Machine.SameCalls (get : Exec Machine) := calls_of_thread fun _ => rfl

/-- The state of the thread and of its debugger are no calls. -/
theorem calls_mapDebug (g : DebugState → DebugState) : Keeps Machine.SameCalls (mapDebug g) :=
  fun _ => ⟨rfl, rfl, Nat.le_refl _⟩

theorem calls_setState (state : ThreadState) :
    Keeps Machine.SameCalls (modify (·.mapThread fun t => { t with state }) : Exec PUnit) :=
  fun _ => ⟨rfl, rfl, Nat.le_refl _⟩

theorem calls_loadReport (level : Level) (text : Unit → String) :
    Keeps Machine.SameCalls (Load.report level text) := calls_of_thread fun _ => rfl

theorem calls_loadPure (a : α) : Keeps Machine.SameCalls (pure a : Load α) :=
  calls_of_thread fun _ => rfl

theorem calls_loadGet : Keeps Machine.SameCalls (get : Load Machine) := calls_of_thread fun _ => rfl

theorem calls_modifyEnv (g : Environment → Environment) :
    Keeps Machine.SameCalls (modify fun m => { m with env := g m.env } : Load PUnit) :=
  calls_of_thread fun _ => rfl

theorem calls_mapLoader (g : Loader → Loader) : Keeps Machine.SameCalls (Load.mapLoader g) :=
  calls_of_thread fun _ => rfl

theorem calls_fetch (file : UInt32) : Keeps Machine.SameCalls (Load.fetch file) := by
  refine calls_of_thread fun m => ?_
  rw [Load.after_fetch]

theorem calls_bindClass (name : String) (hash : UInt32) :
    Keeps Machine.SameCalls (Load.bindClass name hash) := by
  refine calls_loadGet.bind fun m => ?_
  dsimp only
  split
  · split
    · exact calls_loadPure true
    · split
      · exact (calls_loadReport _ _).bind fun _ => calls_loadPure false
      · rename_i c _
        refine (calls_mapLoader _).bind fun _ => ?_
        refine (calls_modifyEnv fun env => { env with classes := env.classes.push c }).bind
          fun _ => ?_
        split
        · exact calls_loadPure true
        · rename_i b _
          split
          · refine (calls_loadReport _ _).bind fun _ => ?_
            refine (calls_modifyEnv fun env => Load.bindMembers env b c name).bind fun _ => ?_
            exact calls_loadPure true
          · exact calls_loadPure true
  · exact calls_loadPure false

theorem constantAt_eq {f : Frame} (index : Nat) (hf : m.thread.frames.back? = some f) :
    constantAt index m = ofOption (.constantRange index)
      ((m.env.heap.function? f.function).bind (·.constants[index]?)) m :=
  bind_of_ok (frame_of_back? hf)

theorem after_constantAt (index : Nat) (m : Machine) : after (constantAt index) m = m := by
  cases hf : m.thread.frames.back? with
  | none => exact after_of_error (bind_of_error (frame_of_none hf))
  | some f =>
    have hrun := constantAt_eq index hf
    unfold after
    rw [hrun]
    cases (m.env.heap.function? f.function).bind (·.constants[index]?) <;> rfl

section Runs

variable (he : Keeps (Machine.Above 0 0) executor)
include he

theorem calls_runValue (callee : Value) (args : List Value) :
    Keeps Machine.SameCalls (runValue executor callee args) := by
  refine calls_runProtected ?_
  refine ((keeps_push callee).above 0).bind fun _ => ((keeps_pushAll args).above 0).bind fun _ => ?_
  exact ((keeps_callValue args.length).above 0).bind fun _ => he

theorem calls_invokeForObject (callable receiver : Value) (args : List Value) :
    Keeps Machine.SameCalls (invokeForObject executor callable receiver args) := by
  refine calls_runProtected ?_
  refine ((keeps_push receiver).above 0).bind fun _ => ?_
  refine ((keeps_pushAll args).above 0).bind fun _ => ?_
  exact ((keeps_callForObject callable args.length).above 0).bind fun _ => he

/-! ### Loading -/

theorem calls_runFile (bytes : List UInt8) (file : UInt32) :
    Keeps Machine.SameCalls (Load.runFile executor bytes file) := by
  have hread : Keeps Machine.SameCalls (Load.readModule bytes file) := by
    refine calls_of_thread fun m => ?_
    unfold after Load.readModule
    cases m.env.readModule bytes file <;> rfl
  refine hread.bind fun module => calls_loadGet.bind fun m => ?_
  split
  · exact (keeps_adaptExcept (calls_runValue he _ []) _).bind fun _ => calls_loadPure ()
  · exact calls_loadPure ()

theorem calls_loadScript (file : UInt32) :
    Keeps Machine.SameCalls (Load.loadScript executor file) := by
  refine (calls_fetch file).bind fun found => ?_
  cases found with
  | cached => exact calls_loadPure true
  | absent => exact (calls_loadReport _ _).bind fun _ => calls_loadPure false
  | fresh bytes => exact (calls_runFile he bytes file).bind fun _ => calls_loadPure true

theorem calls_loadFiles (name : String) (count : Nat) (first : Bool) (files : List UInt32) :
    Keeps Machine.SameCalls (Load.loadFiles executor name count first files) := by
  induction files generalizing first with
  | nil => exact calls_loadPure true
  | cons file rest ih =>
    refine (calls_fetch file).bind fun found => ?_
    cases found with
    | cached => exact ih false
    | absent => exact (calls_loadReport _ _).bind fun _ => calls_loadPure false
    | fresh bytes =>
      have hrest : Keeps Machine.SameCalls (do
          Load.runFile executor bytes file
          Load.loadFiles executor name count false rest) :=
        (calls_runFile he bytes file).bind fun _ => ih false
      dsimp only
      split
      · exact (calls_loadReport _ _).bind fun _ => hrest
      · exact hrest

theorem calls_loadClass (name : String) :
    Keeps Machine.SameCalls (Load.loadClass executor name) := by
  unfold Load.loadClass
  split
  · exact calls_loadPure false
  · refine calls_loadGet.bind fun m => ?_
    split
    · split
      · exact (calls_loadReport _ _).bind fun _ => calls_loadPure false
      · refine (calls_loadFiles he name _ true _).bind fun loaded => ?_
        split
        · exact calls_bindClass name _
        · exact calls_loadPure false
    · exact calls_loadPure false

theorem calls_importClass (index : Nat) : Keeps Machine.SameCalls (importClass executor index) := by
  have hconstant : Keeps Machine.SameCalls (constantAt index) := calls_of_thread fun m => by
    rw [after_constantAt]
  have hmemory : Keeps Machine.SameCalls memory := calls_of_thread fun _ => rfl
  have hfault : ∀ c : Cause, Keeps Machine.SameCalls (fault c : Exec Unit) :=
    fun c => calls_of_thread fun _ => rfl
  refine hconstant.bind fun v => hmemory.bind fun mem => ?_
  split
  · exact hfault _
  · refine (keeps_adaptExcept (calls_loadClass he _) _).bind fun loaded => ?_
    split
    · exact calls_of_thread fun _ => rfl
    · exact hfault _

end Runs

/-! ### Steps -/

/-- Every instruction but a return leaves the calls of the run active. -/
theorem above_perform {i : Instruction} (he : Keeps (Machine.Above 0 0) executor) (hi : i ≠ .ret) :
    Keeps (Machine.Above 1 1) (perform executor i) := by
  cases i with
  | jump | jumpIfFalse | switchTable | failsafe =>
    refine keeps_perform_reading ?_ executor
    exact trivial
  | ret => exact absurd rfl hi
  | importClass index => exact (calls_importClass he index.toNat).mono fun _ _ h => h.above
  | _ =>
    refine Keeps.above (quiet_perform ?_ executor) 1
    exact trivial

/-- A return leaves the topmost call, so that those below the run are safe if it has one. -/
theorem above_ret : Keeps (Machine.Above 1 0) ret := by
  have hleave : Keeps (Machine.Above 1 0) (modify (·.mapFrames (·.pop)) : Exec PUnit) :=
    fun m => m.above_leave
  have hend : ∀ (f : Frame) (result : Value), Keeps (Machine.Above 1 0) (do
      modify (·.mapFrames (·.pop))
      truncate f.slots
      push result : Exec Unit) := by
    intro f result
    refine hleave.comp (S := Machine.Above 0 0) (fun _ => ?_) (fun _ _ _ => .trans) fun _ _ => id
    exact ((keeps_truncate _).above 0).bind fun _ => (keeps_push result).above 0
  refine (keeps_pop.above 1).comp (fun result => ?_) (fun _ _ _ => .trans)
    fun _ _ h => h.mono (Nat.zero_le 1)
  exact (keeps_frame.above 1).comp (fun f => hend f result) (fun _ _ _ => .trans)
    fun _ _ h => h.mono (Nat.zero_le 1)

/-- A step of a run. -/
theorem above_step (he : Keeps (Machine.Above 0 0) executor) :
    Keeps (Machine.Above 1 0) (step executor) := by
  rw [step_eq]
  refine (keeps_advance (R := Machine.Above 1 1)).comp (fun i => ?_) (fun _ _ _ => .trans)
    fun _ _ h => h.mono (Nat.zero_le 1)
  by_cases hi : i = .ret
  · subst hi
    exact above_ret
  · exact (above_perform he hi).mono fun _ _ h => h.mono (Nat.zero_le 1)

/-! ### Breakpoints -/

section Breakpoints

variable (he : Keeps (Machine.Above 0 0) executor)
include he

theorem calls_evaluate (target : Handle) : Keeps Machine.SameCalls (evaluate executor target) := by
  intro m
  rw [after_evaluate]
  exact calls_runValue he (.object target) [] m

theorem calls_observe (command : BreakCommand) (function : Handle) (offset : Nat) :
    Keeps Machine.SameCalls (observe executor command function offset) := by
  have hrecord : ∀ g : Environment → BreakRecord,
      Keeps Machine.SameCalls (do return g (← environment) : Exec BreakRecord) :=
    fun g => calls_of_thread fun _ => rfl
  refine calls_get.bind fun m => ?_
  dsimp only
  split
  · exact (calls_of_thread fun _ => rfl).bind fun evaluated => hrecord _
  · rw [map_eq_pure_bind, bind_assoc]
    refine (calls_evaluate he _).bind fun result => ?_
    exact (calls_of_thread fun _ => rfl).bind fun evaluated => hrecord _

theorem calls_breakAt (d : Debugger) (function : Handle) (offset : Nat) :
    Keeps Machine.SameCalls (breakAt executor d function offset) := by
  refine (calls_mapDebug _).bind fun _ => (calls_setState _).bind fun _ => ?_
  refine calls_get.bind fun m => (calls_of_thread fun _ => rfl).bind fun env => ?_
  refine (calls_of_thread fun _ => rfl).bind fun _ => (calls_observe he _ _ _).bind fun record => ?_
  refine (calls_mapDebug _).bind fun _ => (calls_setState _).bind fun _ => ?_
  split
  · exact calls_of_thread fun _ => rfl
  · exact calls_mapDebug _
  · exact calls_of_thread fun _ => rfl

theorem calls_checkBreakpoint : Keeps Machine.SameCalls (checkBreakpoint executor) := by
  refine calls_get.bind fun m => ?_
  dsimp only
  split
  · split
    · exact calls_breakAt he _ _ _
    · exact calls_of_thread fun _ => rfl
  · exact calls_of_thread fun _ => rfl

end Breakpoints

/-- Executing the calls of a run leaves those below it alone. -/
theorem above_execute (fuel : Nat) : Keeps (Machine.Above 0 0) (execute fuel) := by
  -- runs that a step starts get the fuel that is left, so the hypothesis covers them too
  induction fuel with
  | zero =>
    intro m hle
    have hsame : after (execute 0) m = m := by
      unfold after execute
      split <;> rename_i hrun <;> split at hrun <;> cases hrun <;> rfl
    rw [hsame]
    exact ⟨.refl m, hle⟩
  | succ fuel ih =>
    intro m hle
    have hround : Keeps (Machine.Above 1 0) (do
        checkBreakpoint (execute fuel)
        step (execute fuel)
        execute fuel) := by
      have hcheck : Keeps (Machine.Above 1 1) (checkBreakpoint (execute fuel)) :=
        (calls_checkBreakpoint ih).mono fun _ _ h => h.above
      refine hcheck.comp (fun _ => ?_) (fun _ _ _ => .trans) fun _ _ h => h.mono (Nat.zero_le 1)
      exact (above_step ih).comp (fun _ => ih) (fun _ _ _ => .trans) fun _ _ => id
    have hstart : ∀ x : Exec Unit, after (do if (← get).thread.isActive then x) m =
        after (if m.thread.isActive then x else pure ()) m := fun _ => rfl
    rw [execute_succ, hstart]
    split
    · rename_i hactive
      exact hround m (of_decide_eq_true hactive)
    · exact ⟨.refl m, hle⟩

end Exec
end ScriptVm
