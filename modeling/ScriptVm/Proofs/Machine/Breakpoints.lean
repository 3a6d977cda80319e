import ScriptVm.Proofs.Machine.ClassFiles
import ScriptVm.Proofs.Machine.Moments
import ScriptVm.Proofs.Machine.ParallelSteps

/-!
# Breakpoints

A debugger that evaluates nothing and lets the script run on is not noticed by the script, and is
asked before the instructions that it should be asked before, and no others.

* `DebugState.reach` is what becomes of the debugging state when a machine comes to its next
  instruction.
* `Simulates` says of an action that it does the same on a debugged machine and on one that is not
  debugged, and that the debugging state reaches the instructions that the other machine executes.
  `simulates_execute` is the induction on the number of steps.
* `Attended` says when the debugger is asked and what it sees; `attended_reach` that it is so, by
  induction on the instructions that are executed.
-/

namespace ScriptVm

/-! ### Debuggers that only look -/

/-- An answer that evaluates nothing and lets the script run on. -/
structure BreakCommand.Inspects (c : BreakCommand) : Prop where
  evaluate : c.evaluate = none
  action : c.action ≠ .abort

/-- Debugging is enabled, with a debugger that only looks. -/
def DebugState.Inspects (s : DebugState) : Prop :=
  s.enabled = true ∧ ∃ d, s.debugger = some d ∧ ∀ c ∈ d.script, c.Inspects

theorem Debugger.inspects_command {d : Debugger} (hd : ∀ c ∈ d.script, c.Inspects) :
    d.command.Inspects := by
  unfold command
  cases hscript : d.script with
  | nil => exact ⟨rfl, nofun⟩
  | cons c rest => exact hd c (hscript ▸ List.mem_cons_self)

namespace Machine

/-- The machine with debugging disabled. -/
def undebugged (m : Machine) : Machine :=
  m.mapThread fun t => { t with debug := { t.debug with enabled := false } }

/-- Whether the next instruction has a breakpoint. -/
def isFlagged (m : Machine) (breakpoints : List (Handle × Nat)) : Bool :=
  m.thread.frames.back?.any fun f => breakpoints.contains (f.function, f.ip)

/-- What a debugger sees before the next instruction. -/
def sighting (m : Machine) (c : BreakCommand) : BreakRecord :=
  let f := m.thread.frames.back?.getD default
  { offset := f.ip, thread := m.thread.id, line := lineOf? m.env f.function f.ip
    frames := m.callTrace, functionName := m.env.functionName f.function
    formatted := m.thread.locals.map m.env.memory.format
    locals := m.thread.locals.map m.env.memory.view
    globals := if c.tables then some (m.env.named m.env.globals) else none
    constants := if c.tables then some (m.env.named m.env.constants) else none
    evaluated := none }

end Machine

namespace DebugState

/-- The debugging state when a machine has come to its next instruction. -/
def reach (s : DebugState) (m : Machine) : DebugState :=
  match s.debugger with
  | some d =>
    if s.enabled && (s.stepping || m.isFlagged s.breakpoints) then
      { s with
        stepping := d.command.action == .step
        debugger := some (d.advance (m.sighting d.command)) }
    else s
  | none => s

/-- The debugger is asked before a flagged instruction and in a step, and not before others. -/
theorem reach_cases {s : DebugState} {d : Debugger} (hon : s.enabled = true)
    (hd : s.debugger = some d) (m : Machine) :
    ((s.stepping || m.isFlagged s.breakpoints) = true ∧ s.reach m = { s with
      stepping := d.command.action == .step
      debugger := some (d.advance (m.sighting d.command)) }) ∨
    ((s.stepping || m.isFlagged s.breakpoints) = false ∧ s.reach m = s) := by
  unfold reach
  rw [hd, hon, Bool.true_and]
  cases hask : s.stepping || m.isFlagged s.breakpoints with
  | true => exact .inl ⟨rfl, rfl⟩
  | false => exact .inr ⟨rfl, rfl⟩

theorem Inspects.reach {s : DebugState} (hs : s.Inspects) (m : Machine) : (s.reach m).Inspects := by
  obtain ⟨hon, d, hd, hscript⟩ := hs
  obtain ⟨-, heq⟩ | ⟨-, heq⟩ := reach_cases hon hd m
  · rw [heq]
    exact ⟨hon, _, rfl, fun c hc => hscript c (List.mem_of_mem_tail hc)⟩
  · rw [heq]
    exact ⟨hon, d, hd, hscript⟩

end DebugState

/-! ### What is not seen of a report -/

namespace Machine

theorem callTrace_bare (m : Machine) : m.bare.callTrace = m.callTrace := by
  have htrace : ∀ (caller : Option Frame) (frames : List Frame),
      traceFrom m.env.unlogged caller frames = traceFrom m.env caller frames := by
    intro caller frames
    induction frames generalizing caller with
    | nil => rfl
    | cons f rest ih => exact congrArg (traceEntry m.env caller f :: ·) (ih (some f))
  exact htrace none m.thread.frames.toList

/-- The trace of a fault is that of the calls. -/
theorem attachTrace_bare (m : Machine) (f : Fault) :
    (m.attachTrace f).1 = (m.bare.attachTrace f).1 ∧ (m.attachTrace f).2.bare = m.bare ∧
      (m.attachTrace f).2.thread = m.thread := by
  unfold attachTrace
  rw [callTrace_bare]
  split
  · refine ⟨rfl, ?_, rfl⟩
    unfold bare
    dsimp only
    rw [Environment.unlogged_report]
  · exact ⟨rfl, rfl, rfl⟩

end Machine

namespace Exec

/-! ### A debugged machine and another -/

section Simulation

variable {ε δ α β : Type} {m n m' n' : Machine}

/-- Two machines that are the same to scripts, of which only the first is debugged. -/
structure Paired (m n : Machine) : Prop where
  bare : m.bare = n.bare
  inspects : m.thread.debug.Inspects
  quiet : n.thread.debug.enabled = false

/-- An action ends in the same way on two machines. -/
inductive SameEnd (x : EStateM (Halt ε) Machine α) (m n m' n' : Machine) : Prop
  | ok (a : α) (hm : x m = .ok a m') (hn : x n = .ok a n')
  | error (e : Halt ε) (hm : x m = .error e m') (hn : x n = .error e n')

/-- An action ends in the same way on a debugged machine and on another, and the debugger comes to
the instructions that the other executes. -/
def Simulates (x : EStateM (Halt ε) Machine α) (v : Machine → List Moment) : Prop :=
  ∀ m n, Paired m n → ∃ m' n', SameEnd x m n m' n' ∧ Paired m' n' ∧
    m'.thread.debug = (executing (v n)).foldl DebugState.reach m.thread.debug

variable {x : EStateM (Halt ε) Machine α} {f : α → EStateM (Halt ε) Machine β}
  {v : Machine → List Moment} {w : α → Machine → List Moment}

theorem simulates_of_ordinary [HasFault ε] {k : Nat} (hx : Ordinary k x) :
    Simulates x fun _ => [] := by
  intro m n h
  have hm := hx.against m.periphery m.bare
  have hn := hx.against n.periphery n.bare
  rw [Machine.bare_against_periphery] at hm hn
  rw [h.bare] at hm
  have hend : ∀ r : Machine, Paired (r.against m.periphery) (r.against n.periphery) :=
    fun r => ⟨rfl, h.inspects, h.quiet⟩
  cases hrun : x n.bare with
  | ok a r =>
    rw [hrun] at hm hn
    exact ⟨_, _, .ok a hm hn, hend r, rfl⟩
  | error e r =>
    rw [hrun] at hm hn
    exact ⟨_, _, .error e hm hn, hend r, rfl⟩

theorem Simulates.bind (hx : Simulates x v) (hf : ∀ a, Simulates (f a) (w a)) :
    Simulates (x >>= f) fun m => v m ++ afterwards x w m := by
  intro m n h
  obtain ⟨m', n', hend, h', hdebug⟩ := hx m n h
  cases hend with
  | ok a hm hn =>
    obtain ⟨m'', n'', hend', h'', hdebug'⟩ := hf a m' n' h'
    refine ⟨m'', n'', ?_, h'', ?_⟩
    · cases hend' with
      | ok b hm' hn' => exact .ok b ((bind_of_ok hm).trans hm') ((bind_of_ok hn).trans hn')
      | error e hm' hn' => exact .error e ((bind_of_ok hm).trans hm') ((bind_of_ok hn).trans hn')
    · dsimp only
      rw [afterwards_of_ok hn, executing_append, List.foldl_append, ← hdebug, hdebug']
  | error e hm hn =>
    refine ⟨m', n', .error e (bind_of_error hm) (bind_of_error hn), h', ?_⟩
    dsimp only
    rw [afterwards_of_error hn, List.append_nil, hdebug]

/-! ### Runs -/

variable {executor : Exec Unit} {inner : Machine → List Moment}

/-- What is logged in between is nothing to the ends of runs. -/
theorem Paired.endRun (h : Paired m n) (hbare : m'.bare = n'.bare) (hm : m'.thread = m.thread)
    (hn : n'.thread = n.thread) (height calls returnFrame : Nat) (outcome : ThreadState) :
    Paired (m'.endRun height calls returnFrame outcome)
      (n'.endRun height calls returnFrame outcome) := by
  refine ⟨?_, ?_, ?_⟩
  · show (m'.bare.endRun height calls returnFrame outcome).bare =
      (n'.bare.endRun height calls returnFrame outcome).bare
    rw [hbare]
  · exact (congrArg (fun t : Thread => t.debug.Inspects) hm).mpr h.inspects
  · exact (congrArg (fun t : Thread => t.debug.enabled) hn).trans h.quiet

/-- Runs whose bodies end in the same way end in the same way, with the same trace. -/
theorem sameEnd_runProtected {body : Exec Unit} (h : Paired m n)
    (hend : SameEnd (body *> pop) m.beginRun n.beginRun m' n') (h' : Paired m' n') :
    ∃ m'' n'', SameEnd (runProtected body) m n m'' n'' ∧ Paired m'' n'' ∧
    m''.thread.debug = m'.thread.debug := by
  have hstack : m.thread.stack = n.thread.stack := congrArg (·.thread.stack) h.bare
  have hframes : m.thread.frames = n.thread.frames := congrArg (·.thread.frames) h.bare
  have hreturn : m.thread.returnFrame = n.thread.returnFrame :=
    congrArg (·.thread.returnFrame) h.bare
  cases hend with
  | ok v hm hn =>
    have hm' := runProtected_of_result hm
    rw [hstack, hframes, hreturn] at hm'
    exact ⟨_, _, .ok v hm' (runProtected_of_result hn), h'.endRun h'.bare rfl rfl _ _ _ _, rfl⟩
  | error e hm hn =>
    by_cases he : ∃ f, e = .error f
    · obtain ⟨f, rfl⟩ := he
      obtain ⟨hfault, hbare, hthread⟩ := m'.attachTrace_bare f
      obtain ⟨hfault', hbare', hthread'⟩ := n'.attachTrace_bare f
      rw [h'.bare, ← hfault'] at hfault
      have hm' := runProtected_of_fault hm
      rw [hstack, hframes, hreturn, hfault] at hm'
      refine ⟨_, _, .error _ hm' (runProtected_of_fault hn),
        h'.endRun (hbare.trans (h'.bare.trans hbare'.symm)) hthread hthread' _ _ _ _, ?_⟩
      show (m'.attachTrace f).2.thread.debug = _
      rw [hthread]
    · have hhalt : ∀ f, e ≠ .error f := fun f hf => he ⟨f, hf⟩
      have hm' := runProtected_of_halt hhalt hm
      rw [hstack, hframes, hreturn] at hm'
      exact ⟨_, _, .error e hm' (runProtected_of_halt hhalt hn),
        h'.endRun h'.bare rfl rfl _ _ _ _, rfl⟩

theorem simulates_run (he : Simulates executor inner) (call : Machine.Call) :
    Simulates (call.run executor) (runMoments executor inner call.start) := by
  rw [call.run_eq]
  intro m n h
  have hbegin : Paired m.beginRun n.beginRun := by
    refine ⟨?_, h.inspects, h.quiet⟩
    show m.bare.beginRun.bare = n.bare.beginRun.bare
    rw [h.bare]
  have hbody : Simulates (do call.start; executor) (afterwards call.start fun _ => inner) :=
    (simulates_of_ordinary call.ordinary_start).bind fun _ => he
  obtain ⟨m', n', hend, h', hdebug⟩ :=
    hbody.bind (fun _ => simulates_of_ordinary (k := 0) ordinary_pop) _ _ hbegin
  obtain ⟨m'', n'', hend', h'', hdebug'⟩ := sameEnd_runProtected h hend h'
  refine ⟨m'', n'', hend', h'', ?_⟩
  dsimp only at hdebug
  rw [afterwards_nil, List.append_nil] at hdebug
  unfold runMoments
  rw [executing_append, executing_failure, List.append_nil, hdebug']
  exact hdebug

/-- What is made of ordinary actions and runs does the same on a debugged machine. -/
theorem simulates_of_unfolds [HasFault ε] (he : Simulates executor inner)
    (hx : Unfolds executor inner x v) : Simulates x v := by
  induction hx with
  | ordinary hx _ => exact simulates_of_ordinary hx
  | bind _ _ ihx ihf => exact ihx.bind ihf
  | look hk _ ih =>
    rename_i k w _
    intro m n h
    have hm : k m = k n := by
      have hbare : ∀ m, k m = k m.bare := fun m => by
        have := hk m.periphery m.bare
        rwa [m.bare_against_periphery] at this
      rw [hbare m, hbare n, h.bare]
    obtain ⟨m', n', hend, h', hdebug⟩ := ih n m n h
    refine ⟨m', n', ?_, h', hdebug⟩
    cases hend with
    | ok a hm' hn => exact .ok a ((congrFun hm m).trans hm') hn
    | error e hm' hn => exact .error e ((congrFun hm m).trans hm') hn
  | adapt hg _ ih =>
    intro m n h
    obtain ⟨m', n', hend, h', hdebug⟩ := ih m n h
    refine ⟨m', n', ?_, h', hdebug⟩
    cases hend with
    | ok a hm hn => exact .ok a (adaptExcept_of_ok hm _) (adaptExcept_of_ok hn _)
    | error e hm hn => exact .error _ (adaptExcept_of_error hm _) (adaptExcept_of_error hn _)
  | complain name =>
    intro m n h
    refine ⟨_, _, .ok () rfl rfl, ⟨?_, h.inspects, h.quiet⟩, rfl⟩
    unfold Machine.bare
    rw [Environment.unlogged_report, Environment.unlogged_report]
    exact h.bare
  | run call => exact simulates_run he call

/-! ### Steps -/

theorem simulates_step (he : Simulates executor inner) :
    Simulates (step executor) (afterwards advance (performMoments executor inner)) := by
  rw [step_eq]
  refine (simulates_of_ordinary ordinary_advance).bind fun i => ?_
  by_cases hi : ∃ index, i = .importClass index
  · obtain ⟨index, rfl⟩ := hi
    exact simulates_of_unfolds he (unfolds_importClass executor inner index.toNat)
  · have hother := simulates_of_ordinary (ordinary_perform executor fun index h => hi ⟨index, h⟩)
    cases i with
    | importClass index => exact absurd ⟨index, rfl⟩ hi
    | _ => exact hother

theorem sighting_bare (m : Machine) (c : BreakCommand) : m.bare.sighting c = m.sighting c := by
  unfold Machine.sighting
  rw [m.callTrace_bare]
  rfl

/-- Looking is all that is done. -/
theorem observe_eq {f : Frame} {c : BreakCommand} (hf : m.thread.frames.back? = some f)
    (hc : c.Inspects) : observe executor c f.function f.ip m = .ok (m.sighting c) m := by
  have hfound : m.thread.frames.back?.getD default = f := by rw [hf]; rfl
  unfold observe Machine.sighting
  rw [hfound, hc.evaluate]
  rfl

/-- The thread runs on after a break, or does not, as the debugger has answered. -/
def resume (d : Debugger) (record : BreakRecord) : Exec Unit := do
  mapDebug fun s => { s with debugger := some (d.advance record) }
  modify (·.mapThread fun t => { t with state := .running })
  match d.command.action with
  | .continue => pure ()
  | .step => mapDebug fun s => { s with stepping := true }
  | .abort => fault .aborted

theorem resume_eq {d : Debugger} {record : BreakRecord} (hd : d.command.Inspects)
    (hm : m.thread.debug.stepping = false) :
    resume d record m = .ok () (m.mapThread fun t => { t with
      state := .running
      debug :=
        { t.debug with
          stepping := d.command.action == .step, debugger := some (d.advance record) } }) := by
  unfold resume
  cases hnext : d.command.action with
  | «continue» =>
    rw [show (DebugAction.continue == .step) = m.thread.debug.stepping from hm.symm]
    rfl
  | step => rfl
  | abort => exact absurd hnext hd.action

/-- A break is over when the debugger has answered: the thread runs on, or steps if told to. -/
theorem breakAt_eq {d : Debugger} {f : Frame} (hf : m.thread.frames.back? = some f)
    (hd : d.command.Inspects) : ∃ text : Unit → String,
      breakAt executor d f.function f.ip m = .ok () ⟨m.env.report .debug text, { m.thread with
        state := .running
        debug := { m.thread.debug with
          stepping := d.command.action == .step
          debugger := some (d.advance (m.sighting d.command)) } }⟩ := by
  refine ⟨fun _ =>
    s!"Thread {m.thread.id} suspended in {m.env.functionName f.function} at offset {f.ip}", ?_⟩
  generalize htext : (fun _ : Unit =>
    s!"Thread {m.thread.id} suspended in {m.env.functionName f.function} at offset {f.ip}") = text
  let suspended : Machine := ⟨m.env.report .debug text, { m.thread with
    state := .suspended, debug := { m.thread.debug with debugger := none, stepping := false } }⟩
  have hsighting : suspended.sighting d.command = m.sighting d.command := by
    have hbare : suspended.bare = m.bare := by
      unfold Machine.bare
      dsimp only [suspended]
      rw [Environment.unlogged_report]
    rw [← sighting_bare, hbare, sighting_bare]
  have hobserve : observe executor d.command f.function f.ip suspended = .ok _ suspended :=
    observe_eq hf hd
  rw [hsighting] at hobserve
  have hstart : breakAt executor d f.function f.ip m =
      (observe executor d.command f.function f.ip >>= resume d) suspended := by
    rw [show suspended = ⟨m.env.report .debug text, _⟩ from rfl, ← htext]
    rfl
  rw [hstart, bind_of_ok hobserve]
  exact resume_eq hd rfl

/-- Where debugging is disabled, nothing breaks in. -/
theorem checkBreakpoint_of_quiet (hm : m.thread.debug.enabled = false) :
    checkBreakpoint executor m = .ok () m := by
  refine Pairing.checkBreakpoint_of_unwatched fun f _ => ?_
  unfold DebugState.shouldBreak
  rw [hm]
  rfl

theorem reach_bare (s : DebugState) (m : Machine) : s.reach m.bare = s.reach m := by
  unfold DebugState.reach
  simp only [sighting_bare]
  rfl

/-- A debugger that breaks in before the next instruction leaves all else as it is. -/
theorem checkBreakpoint_of_paired (h : Paired m n) (hactive : m.thread.isActive = true) :
    ∃ m', checkBreakpoint executor m = .ok () m' ∧ Paired m' n ∧
      m'.thread.debug = m.thread.debug.reach n := by
  have hreach : m.thread.debug.reach n = m.thread.debug.reach m := by
    rw [← reach_bare _ n, ← h.bare, reach_bare]
  obtain ⟨f, hf⟩ : ∃ f, m.thread.frames.back? = some f := by
    have hlt : m.thread.returnFrame < m.thread.frames.size := of_decide_eq_true hactive
    exact ⟨_,
      Array.getElem?_eq_getElem (show m.thread.frames.size - 1 < m.thread.frames.size by omega)⟩
  obtain ⟨hon, d, hd, hscript⟩ := id h.inspects
  have hshould : m.thread.debug.shouldBreak f.function f.ip =
      (m.thread.debug.stepping || m.isFlagged m.thread.debug.breakpoints) := by
    unfold DebugState.shouldBreak Machine.isFlagged
    rw [hon, hd, hf]
    rfl
  rw [hreach]
  obtain ⟨hask, heq⟩ | ⟨hask, heq⟩ := DebugState.reach_cases hon hd m
  · obtain ⟨text, hrun⟩ : ∃ text, breakAt executor d f.function f.ip m =
        .ok () ⟨m.env.report .debug text, _⟩ :=
      breakAt_eq hf (Debugger.inspects_command hscript)
    refine ⟨⟨m.env.report .debug text, { m.thread with
      state := .running, debug := m.thread.debug.reach m }⟩, ?_,
        ⟨?_, h.inspects.reach m, h.quiet⟩, rfl⟩
    · unfold checkBreakpoint
      refine (bind_of_ok rfl).trans ?_
      dsimp only
      rw [hf, hd]
      dsimp only
      rw [hshould, if_pos hask, heq]
      exact hrun
    · rw [← h.bare]
      unfold Machine.bare
      dsimp only
      rw [Environment.unlogged_report]
  · refine ⟨m, Pairing.checkBreakpoint_of_unwatched fun f' hf' => ?_, h, heq.symm⟩
    cases hf.symm.trans hf'
    exact hshould.trans hask

/-- While calls of the run are active, one more instruction is executed, perhaps after a break. -/
theorem execute_with_breaks (hm : m.thread.isActive = true) (fuel : Nat) :
    execute (fuel + 1) m = (do
      checkBreakpoint (execute fuel)
      step (execute fuel)
      execute fuel) m := by
  rw [execute_succ]
  refine (bind_of_ok rfl).trans ?_
  rw [if_pos hm]

/-- **No script notices a debugger that only looks.** -/
theorem simulates_execute (fuel : Nat) : Simulates (execute fuel) (moments fuel) := by
  have hactive : ∀ {m n : Machine}, Paired m n → m.thread.isActive = n.thread.isActive := by
    intro m n h
    show m.bare.thread.isActive = n.bare.thread.isActive
    rw [h.bare]
  have hidle : ∀ {m : Machine}, m.thread.isActive = false → ∀ fuel, execute fuel m = .ok () m :=
    fun h => Machine.execute_of_inactive (of_decide_eq_false h)
  induction fuel with
  | zero =>
    intro m n h
    cases hn : n.thread.isActive with
    | true => exact ⟨m, n, .error .outOfFuel (if_pos ((hactive h).trans hn)) (if_pos hn), h, rfl⟩
    | false =>
      exact ⟨m, n, .ok () (hidle ((hactive h).trans hn) 0) (hidle hn 0), h, rfl⟩
  | succ fuel ih =>
    intro m n h
    cases hn : n.thread.isActive with
    | true =>
      -- only the debugged machine breaks; what the two execute after that is the same
      obtain ⟨m₁, hcheck, h₁, hdebug₁⟩ : ∃ m₁, checkBreakpoint (execute fuel) m = .ok () m₁ ∧
          Paired m₁ n ∧ _ :=
        checkBreakpoint_of_paired h ((hactive h).trans hn)
      obtain ⟨m', n', hend, h', hdebug⟩ := ((simulates_step ih).bind fun _ => ih) m₁ n h₁
      have hm := execute_with_breaks ((hactive h).trans hn) fuel
      rw [bind_of_ok hcheck] at hm
      have hn' := execute_with_breaks hn fuel
      rw [bind_of_ok (checkBreakpoint_of_quiet h.quiet)] at hn'
      refine ⟨m', n', ?_, h', ?_⟩
      · cases hend with
        | ok a hm' hn'' => exact .ok a (hm.trans hm') (hn'.trans hn'')
        | error e hm' hn'' => exact .error e (hm.trans hm') (hn'.trans hn'')
      · unfold moments
        rw [if_pos hn, hdebug, hdebug₁]
        rfl
    | false =>
      refine ⟨m, n, .ok () (hidle ((hactive h).trans hn) _) (hidle hn _), h, ?_⟩
      unfold moments
      rw [hn]
      rfl

end Simulation

/-! ### When the debugger is asked -/

/-- How a debugger, `d` before and `d'` afterwards, took part before the instructions of `visited`.
`stepping` and `stepping'` say whether it answered a step just before. -/
structure Attended (breakpoints : List (Handle × Nat)) (stepping stepping' : Bool) (d d' : Debugger)
    (visited : List Machine) (answers : List (Option BreakCommand)) : Prop where
  length : answers.length = visited.length
  /-- It is asked before an instruction that is flagged or that follows one that it answered with a
  step, and before no other. -/
  asked : ∀ (i : Nat) (m : Machine), visited[i]? = some m → ((∃ c, answers[i]? = some (some c)) ↔
    m.isFlagged breakpoints = true ∨ (i = 0 ∧ stepping = true) ∨
      ∃ j c, i = j + 1 ∧ answers[j]? = some (some c) ∧ c.action = .step)
  steps : stepping' = true ↔ (visited = [] ∧ stepping = true) ∨
    ∃ c, answers.getLast? = some (some c) ∧ c.action = .step
  /-- It gives its answers in turn. -/
  given : ∀ (k : Nat) (c : BreakCommand), (answers.filterMap id)[k]? = some c →
    c = d.script[k]?.getD BreakCommand.resume
  script : d'.script = d.script.drop (answers.filterMap id).length
  /-- It sees each of the machines before which it is asked once. -/
  records : d'.records.toList = d.records.toList ++
    (visited.zip answers).filterMap fun p => p.2.map p.1.sighting

namespace Attended

variable {breakpoints : List (Handle × Nat)} {stepping stepping' stepping'' : Bool}
  {d d₁ d' : Debugger} {m : Machine} {visited : List Machine} {answer : Option BreakCommand}
  {answers : List (Option BreakCommand)}

theorem nil (breakpoints : List (Handle × Nat)) (stepping : Bool) (d : Debugger) :
    Attended breakpoints stepping stepping d d [] [] where
  length := rfl
  asked i m hi := by cases List.getElem?_nil.symm.trans hi
  steps := by simp
  given k c hk := by cases List.getElem?_nil.symm.trans hk
  script := rfl
  records := (List.append_nil _).symm

/-- One more instruction, and the answer before it if the debugger was asked. -/
theorem cons (h : Attended breakpoints stepping' stepping'' d₁ d' visited answers)
    (hask : answer.isSome = (stepping || m.isFlagged breakpoints))
    (hstep : stepping' = true ↔ ∃ c, answer = some c ∧ c.action = .step)
    (hanswer : answer.elim (d₁ = d) fun c => c = d.command ∧ d₁ = d.advance (m.sighting c)) :
    Attended breakpoints stepping stepping'' d d' (m :: visited) (answer :: answers) where
  length := congrArg (· + 1) h.length
  asked := by
    intro i n hi
    cases i with
    | zero =>
      cases hi
      have hsome : (∃ c, (answer :: answers)[0]? = some (some c)) ↔ answer.isSome = true := by
        rw [Option.isSome_iff_exists]
        simp
      rw [hsome, hask, Bool.or_eq_true]
      constructor
      · rintro (hstepping | hflagged)
        · exact .inr (.inl ⟨rfl, hstepping⟩)
        · exact .inl hflagged
      · rintro (hflagged | ⟨-, hstepping⟩ | ⟨j, c, hj, -⟩)
        · exact .inr hflagged
        · exact .inl hstepping
        · cases hj
    | succ k =>
      -- the answer before is the new one or one of the others
      have hbefore :
          (∃ j c, k + 1 = j + 1 ∧ (answer :: answers)[j]? = some (some c) ∧ c.action = .step) ↔
          (k = 0 ∧ stepping' = true) ∨ ∃ j c, k = j + 1 ∧ answers[j]? = some (some c) ∧
          c.action = .step := by
        cases k with
        | zero => simp [hstep]
        | succ k => simp
      rw [hbefore]
      have hk := h.asked k n hi
      simp only [List.getElem?_cons_succ, Nat.add_one_ne_zero, false_and, false_or]
      exact hk
  steps := by
    rw [h.steps]
    cases visited with
    | nil =>
      obtain rfl : answers = [] := List.eq_nil_of_length_eq_zero h.length
      simp [hstep]
    | cons n rest =>
      obtain ⟨answer', others, rfl⟩ := List.exists_cons_of_length_eq_add_one h.length
      simp
  given := by
    intro k c hk
    cases answer with
    | none =>
      obtain rfl : d₁ = d := hanswer
      exact h.given k c hk
    | some c₀ =>
      obtain ⟨rfl, rfl⟩ := hanswer
      cases k with
      | zero =>
        cases hk
        exact congrArg (·.getD BreakCommand.resume) List.head?_eq_getElem?
      | succ k =>
        have hrest := h.given k c hk
        rwa [show (d.advance _).script = d.script.tail from rfl, List.getElem?_tail] at hrest
  script := by
    cases answer with
    | none =>
      obtain rfl : d₁ = d := hanswer
      exact h.script
    | some c₀ =>
      obtain ⟨rfl, rfl⟩ := hanswer
      rw [h.script, show (d.advance _).script = d.script.tail from rfl, List.drop_tail]
      rfl
  records := by
    cases answer with
    | none =>
      obtain rfl : d₁ = d := hanswer
      exact h.records
    | some c₀ =>
      obtain ⟨rfl, rfl⟩ := hanswer
      rw [h.records, show (d.advance _).records = d.records.push _ from rfl, Array.toList_push,
        List.append_assoc]
      rfl

end Attended

/-- The debugger takes part in what the machines come to, whatever they are. -/
theorem attended_reach (visited : List Machine) {s : DebugState} {d : Debugger}
    (hon : s.enabled = true) (hd : s.debugger = some d) : ∃ stepping d' answers,
      visited.foldl DebugState.reach s = { s with stepping, debugger := some d' } ∧
        Attended s.breakpoints s.stepping stepping d d' visited answers := by
  induction visited generalizing s d with
  | nil =>
    refine ⟨s.stepping, d, [], ?_, .nil _ _ d⟩
    rw [← hd]
    rfl
  | cons m rest ih =>
    rw [List.foldl_cons]
    obtain ⟨hask, heq⟩ | ⟨hask, heq⟩ := DebugState.reach_cases hon hd m
    · rw [heq]
      obtain ⟨stepping, d', answers, hfold, h⟩ := ih (s := { s with
        stepping := d.command.action == .step,
          debugger := some (d.advance (m.sighting d.command)) }) hon rfl
      refine ⟨stepping, d', some d.command :: answers, hfold, h.cons hask.symm ?_ ⟨rfl, rfl⟩⟩
      simp
    · rw [heq]
      obtain ⟨stepping, d', answers, hfold, h⟩ := ih hon hd
      refine ⟨stepping, d', none :: answers, hfold, h.cons hask.symm ?_ rfl⟩
      simp [(Bool.or_eq_false_iff.1 hask).1]

/-! ### Debugged runs -/

variable {ε α : Type}

/-- An outcome without what is nothing to scripts. -/
def bare : EStateM.Result ε Machine α → EStateM.Result ε Machine α
  | .ok a m => .ok a m.bare
  | .error e m => .error e m.bare

/-- An action has the same outcome whether its machine is debugged or not, and the debugger takes
part in what is executed when it is not debugged. -/
structure Unnoticed (x : EStateM (Halt ε) Machine α) (v : Machine → List Moment) (d : Debugger)
    (m : Machine) : Prop where
  outcome : bare (x m) = bare (x m.undebugged)
  attended : ∃ stepping d' answers,
    (after x m).thread.debug = { m.thread.debug with stepping, debugger := some d' } ∧
      Attended m.thread.debug.breakpoints m.thread.debug.stepping stepping d d'
        (executing (v m.undebugged)) answers

theorem Simulates.unnoticed {x : EStateM (Halt ε) Machine α} {v : Machine → List Moment}
    {d : Debugger} {m : Machine} (h : Simulates x v) (hon : m.thread.debug.enabled = true)
    (hd : m.thread.debug.debugger = some d) (hlooks : ∀ c ∈ d.script, c.Inspects) :
    Unnoticed x v d m := by
  obtain ⟨m', n', hend, hpaired, hdebug⟩ := h m m.undebugged ⟨rfl, ⟨hon, d, hd, hlooks⟩, rfl⟩
  obtain ⟨stepping, d', answers, hfold, hattended⟩ :=
    attended_reach (executing (v m.undebugged)) hon hd
  cases hend with
  | ok a hm hn =>
    refine ⟨?_, stepping, d', answers, ?_, hattended⟩
    · rw [hm, hn]
      exact congrArg (EStateM.Result.ok a) hpaired.bare
    · rw [after_of_ok hm, hdebug, hfold]
  | error e hm hn =>
    refine ⟨?_, stepping, d', answers, ?_, hattended⟩
    · rw [hm, hn]
      exact congrArg (EStateM.Result.error e) hpaired.bare
    · rw [after_of_error hm, hdebug, hfold]

/-- **Breakpoints are transparent.** Nothing comes out otherwise where a debugger only looks, and it
is asked once before each instruction that is flagged or follows a step. -/
theorem unnoticed_debugger (fuel : Nat) {m : Machine} {d : Debugger}
    (hon : m.thread.debug.enabled = true) (hd : m.thread.debug.debugger = some d)
    (hlooks : ∀ c ∈ d.script, c.Inspects) : (∀ call : Machine.Call,
      Unnoticed (call.run (execute fuel))
        (runMoments (execute fuel) (moments fuel) call.start) d m) ∧
    (∀ file, Unnoticed (Load.loadScript (execute fuel) file)
      (scriptMoments (execute fuel) (moments fuel) file) d m) ∧
    ∀ name, Unnoticed (Load.loadClass (execute fuel) name)
      (classMoments (execute fuel) (moments fuel) name) d m := by
  have hexecute := simulates_execute fuel
  refine ⟨fun call => ?_, fun file => ?_, fun name => ?_⟩
  · exact (simulates_run hexecute call).unnoticed hon hd hlooks
  · exact (simulates_of_unfolds hexecute (unfolds_loadScript _ _ file)).unnoticed hon hd hlooks
  · exact (simulates_of_unfolds hexecute (unfolds_loadClass _ _ name)).unnoticed hon hd hlooks

/-- A machine with a breakpoint on the first instruction of a function, and a debugger that
answers a step. -/
def flagged : Machine :=
  (Machine.ofCode #[Opcode.null.toByte, Opcode.pop.toByte, Opcode.null.toByte,
    Opcode.ret.toByte]).mapThread fun t =>
    { t with debug := ⟨true, false, [(⟨0, 0⟩, 0)], some (.ofScript [⟨.step, none, false⟩])⟩ }

/-- The debugger is asked before the first two of four instructions, and the run returns as if it
were not there. -/
theorem unnoticed_debugger_flagged :
    let call := Machine.Call.value (.object ⟨0, 0⟩) []
    (∃ m', call.run (execute 9) flagged = .ok .null m' ∧
      m'.thread.debug.debugger.map (·.records.toList.map (·.offset)) = some [0, 1]) ∧
      Unnoticed (call.run (execute 9)) (runMoments (execute 9) (moments 9) call.start)
        (.ofScript [⟨.step, none, false⟩]) flagged := by
  intro call
  have hrun : (match call.run (execute 9) flagged with
      | .ok v m' => decide (v = .null ∧
          m'.thread.debug.debugger.map (·.records.toList.map (·.offset)) = some [0, 1])
      | .error _ _ => false) = true := by decide +kernel
  refine ⟨?_, (unnoticed_debugger 9 rfl rfl fun c hc => ?_).1 call⟩
  · split at hrun
    · rename_i v m' heq
      obtain ⟨rfl, hrecords⟩ := of_decide_eq_true hrun
      exact ⟨m', heq, hrecords⟩
    · cases hrun
  · obtain rfl := List.mem_singleton.1 hc
    exact ⟨rfl, nofun⟩

end Exec
end ScriptVm
