import ScriptVm.Proofs.Machine.CallSites
import ScriptVm.Proofs.Machine.ClassFiles
import ScriptVm.Proofs.Machine.Moments

/-!
# Error traces

A fault gets its trace from the innermost run that fails, and the runs around that one pass it on.
What is executed until then leads to the calls of the trace.

* `Accounted` is what comes of an action without a debugger: it is done, it fails itself, or a run
  within it fails and the fault has its trace; and what was executed. `Accounted.bind` puts
  actions together.
* `accounted_run` is a run, `accounted_of_unfolds` what loads files, `accounted_step` an instruction
  and `accounts_execute` the induction on the number of steps.
* `error_trace` is the result.
-/

namespace ScriptVm

/-- A line that is no error, unless it complains of a class that its files do not define. -/
def LogEntry.IsHarmless (e : LogEntry) : Prop :=
  e.level = .error → ∃ name : String, e.text = "Could not find class of " ++ name

/-! ### The trace of calls -/

namespace Machine

/-- Each line is of a call, with the line where its caller is. -/
theorem getElem?_traceFrom (env : Environment) (caller : Option Frame) (frames : List Frame)
    (i : Nat) : (traceFrom env caller frames)[i]? =
      frames[i]?.map (traceEntry env (if i = 0 then caller else frames[i - 1]?)) := by
  induction frames generalizing caller i with
  | nil => rfl
  | cons f rest ih =>
    cases i with
    | zero => rfl
    | succ i =>
      refine (ih (some f) i).trans ?_
      cases i <;> rfl

theorem length_callTrace (m : Machine) : m.callTrace.length = m.thread.frames.size := by
  have hlength : ∀ (caller : Option Frame) (frames : List Frame),
      (traceFrom m.env caller frames).length = frames.length := by
    intro caller frames
    induction frames generalizing caller with
    | nil => rfl
    | cons f rest ih => exact congrArg (· + 1) (ih (some f))
  exact (hlength none _).trans Array.length_toList

theorem callTrace_ne_nil {m : Machine} (hm : m.thread.frames ≠ #[]) : m.callTrace ≠ [] := by
  rw [Ne, ← List.length_eq_zero_iff, m.length_callTrace]
  exact fun hsize => hm (Array.eq_empty_of_size_eq_zero hsize)

theorem attachTrace_of_nil {m : Machine} {f : Fault} (hf : f.stack = []) :
    m.attachTrace f = ({ f with stack := m.callTrace },
      { m with env := m.env.report .error fun _ => m.errorReport f.message }) := by
  unfold attachTrace
  rw [hf]
  rfl

theorem attachTrace_of_ne {m : Machine} {f : Fault} (hf : f.stack ≠ []) :
    m.attachTrace f = (f, m) := by
  unfold attachTrace
  rw [if_neg (by simpa using hf)]

end Machine

namespace Exec

open Machine (Call)

/-- A run failed on the machine `k` with the fault `g`, and that became the fault `f`: it has the
trace of the calls and was reported. -/
structure Reported (history : List Machine) (log : Log) (g : Fault) (k : Machine) (f : Fault)
    (log' : Log) : Prop where
  cause : f.cause = g.cause
  stack : f.stack = k.callTrace
  waits : k.Waits 1 history
  before : log.Adds LogEntry.IsHarmless k.env.log
  report : log' = (k.env.report .error fun _ => k.errorReport g.message).log

section Accounts

variable {ε δ α β : Type} [HasFault ε] [HasFault δ]

/-- What comes of an action begun on `m` after a history, and its moments. `done` says what is so
when it is done and `failed` what is so when it fails itself. -/
inductive Accounted (done : α → List Machine → Machine → Prop) (failed : Fault → Machine → Prop)
    (history : List Machine) (m : Machine) : EStateM.Result (Halt ε) Machine α → List Moment → Prop
  | ok {a : α} {m' : Machine} (executed : List Machine)
      (hlog : m.env.log.Adds LogEntry.IsHarmless m'.env.log)
      (hdebug : m'.thread.debug.debugger = none) (hdone : done a executed m') :
      Accounted done failed history m (.ok a m') (executed.map .executes)
  | fresh {e : ε} {m' : Machine} (executed : List Machine)
      (hlog : m.env.log.Adds LogEntry.IsHarmless m'.env.log)
      (hstack : (HasFault.fault e).stack = []) (hwaits : m'.Waits 1 (history ++ executed))
      (hfailed : failed (HasFault.fault e) m') :
      Accounted done failed history m (.error (.error e) m') (executed.map .executes)
  | noticed {e : ε} {m' : Machine} (executed : List Machine) (g : Fault) (k : Machine)
      (rest : List Moment) (hnested : k.thread.frames ≠ #[]) (hrest : executing rest = [])
      (hreported : Reported (history ++ executed) m.env.log g k (HasFault.fault e) m'.env.log) :
      Accounted done failed history m (.error (.error e) m')
        (executed.map .executes ++ .fails g k :: rest)
  | halted {e : Halt ε} {m' : Machine} (v : List Moment) (he : ∀ e', e ≠ .error e') :
      Accounted done failed history m (.error e m') v

namespace Accounted

variable {done done' : α → List Machine → Machine → Prop} {failed failed' : Fault → Machine → Prop}
  {history : List Machine} {m : Machine} {r : EStateM.Result (Halt ε) Machine α} {v : List Moment}

theorem mono (h : Accounted done failed history m r v)
    (hdone : ∀ a executed m', done a executed m' → done' a executed m')
    (hfailed : ∀ f m', failed f m' → failed' f m') : Accounted done' failed' history m r v := by
  cases h with
  | ok executed hlog hdebug h => exact .ok executed hlog hdebug (hdone _ _ _ h)
  | fresh executed hlog hstack hwaits h => exact .fresh executed hlog hstack hwaits (hfailed _ _ h)
  | noticed executed g k rest hnested hrest hreported =>
    exact .noticed executed g k rest hnested hrest hreported
  | halted _ he => exact .halted _ he

theorem bind {x : EStateM (Halt ε) Machine α} {f : α → EStateM (Halt ε) Machine β}
    {w : α → Machine → List Moment} {last : β → List Machine → Machine → Prop}
    (hx : Accounted done failed history m (x m) v)
    (hf : ∀ a executed m', x m = .ok a m' → m'.thread.debug.debugger = none → done a executed m' →
      Accounted (fun b later => last b (executed ++ later)) failed (history ++ executed) m' (f a m')
        (w a m')) :
    Accounted last failed history m ((x >>= f) m) (v ++ afterwards x w m) := by
  generalize hrun : x m = r at hx
  cases hx with
  | @ok a m' executed hlog hdebug hdone =>
    rw [bind_of_ok hrun, afterwards_of_ok hrun]
    have hnext := hf a executed m' hrun hdebug hdone
    generalize f a m' = r, w a m' = v at hnext
    cases hnext with
    | ok later hlog' hdebug' hlast =>
      rw [← List.map_append]
      exact .ok _ (hlog.trans hlog') hdebug' hlast
    | fresh later hlog' hstack hwaits hfailed =>
      rw [← List.map_append]
      rw [List.append_assoc] at hwaits
      exact .fresh _ (hlog.trans hlog') hstack hwaits hfailed
    | noticed later g k rest hnested hrest hreported =>
      rw [← List.append_assoc, ← List.map_append]
      rw [List.append_assoc] at hreported
      exact .noticed _ g k rest hnested hrest
        { hreported with before := hlog.trans hreported.before }
    | halted _ he => exact .halted _ he
  | fresh executed hlog hstack hwaits hfailed =>
    rw [bind_of_error hrun, afterwards_of_error hrun, List.append_nil]
    exact .fresh executed hlog hstack hwaits hfailed
  | noticed executed g k rest hnested hrest hreported =>
    rw [bind_of_error hrun, afterwards_of_error hrun, List.append_nil]
    exact .noticed executed g k rest hnested hrest hreported
  | halted _ he =>
    rw [bind_of_error hrun]
    exact .halted _ he

theorem adapt {x : EStateM (Halt ε) Machine α} {g : ε → δ}
    (hg : ∀ e, HasFault.fault (g e) = HasFault.fault e)
    (hx : Accounted done failed history m (x m) v) :
    Accounted done failed history m (EStateM.adaptExcept (Halt.map g) x m) v := by
  generalize hrun : x m = r at hx
  cases hx with
  | ok executed hlog hdebug hdone =>
    rw [adaptExcept_of_ok hrun]
    exact .ok executed hlog hdebug hdone
  | fresh executed hlog hstack hwaits hfailed =>
    rw [adaptExcept_of_error hrun]
    rw [← hg] at hstack hfailed
    exact .fresh executed hlog hstack hwaits hfailed
  | noticed executed f k rest hnested hrest hreported =>
    rw [adaptExcept_of_error hrun]
    rw [← hg] at hreported
    exact .noticed executed f k rest hnested hrest hreported
  | @halted e m' _ he =>
    rw [adaptExcept_of_error hrun]
    refine .halted _ fun e' hmap => ?_
    cases e with
    | error e => exact he e rfl
    | outOfFuel => cases hmap
    | overflow => cases hmap

/-- An ordinary action, in the course of which nothing is executed. -/
theorem of_ordinary {n : Nat} {x : EStateM (Halt ε) Machine α} (hx : Ordinary n x)
    (hdebug : m.thread.debug.debugger = none) (hwaits : (after x m).Waits 1 history)
    (hdone : ∀ a m', x m = .ok a m' → done a [] m')
    (hfailed : ∀ e m', x m = .error (.error e) m' → failed (HasFault.fault e) m') :
    Accounted done failed history m (x m) [] := by
  have hlog : m.env.log.Adds LogEntry.IsHarmless (after x m).env.log :=
    (hx.log m).mono fun e he herror => absurd herror he
  have hquiet : (after x m).thread.debug.debugger = none := by rw [hx.debug, hdebug]
  have huntraced := hx.untraced m
  cases hrun : x m with
  | ok a m' =>
    rw [after_of_ok hrun] at hlog hquiet
    exact .ok [] hlog hquiet (hdone a m' hrun)
  | error e m' =>
    rw [after_of_error hrun] at hlog hwaits
    cases e with
    | error e =>
      exact .fresh [] hlog (huntraced e m' hrun) (by rwa [List.append_nil]) (hfailed e m' hrun)
    | outOfFuel => exact .halted _ nofun
    | overflow => exact .halted _ nofun

end Accounted
end Accounts

/-! ### Runs -/

section Runs

variable {executor : Exec Unit} {inner : Machine → List Moment} {history : List Machine}
  {m : Machine}

/-- A fault with no calls left is of the operand stack. -/
def Emptied (f : Fault) (m : Machine) : Prop :=
  m.thread.frames = #[] → f.cause = .stackUnderflow ∨ ∃ count, f.cause = .stackOverflow count

/-- A fault with no calls left is of the operand stack, or no errors were logged before it. -/
def Unmistakable (log : Log) (f : Fault) (m : Machine) : Prop :=
  Emptied f m ∨ log.Continues m.env.log

/-- An executor with known moments. -/
def Accounts (executor : Exec Unit) (inner : Machine → List Moment) : Prop :=
  ∀ {history : List Machine} {m : Machine}, m.Waits 1 history → m.thread.debug.debugger = none →
    m.thread.returnFrame ≤ m.thread.frames.size →
      Accounted (fun _ executed m' => m'.Waits 1 (history ++ executed) ∧
        ∀ e ∈ executed, m.thread.returnFrame < e.thread.frames.size) Emptied history m (executor m)
          (inner m)

/-- What is executed in a run is above the calls that were active. -/
theorem accounted_body (he : Accounts executor inner) (call : Call) (hwaits : m.Waits 0 history)
    (hdebug : m.thread.debug.debugger = none) :
    Accounted (fun _ executed _ => ∀ e ∈ executed, m.thread.frames.size < e.thread.frames.size)
      (Unmistakable m.env.log) history m.beginRun (((do call.start; executor) *> pop) m.beginRun)
      (afterwards call.start (fun _ => inner) m.beginRun) := by
  have hbegun : m.beginRun.Waits 0 history := hwaits
  -- the call itself executes nothing
  have hstart : Accounted (fun _ executed m' => executed = [] ∧ m'.Waits 1 history)
      (Unmistakable m.env.log) history m.beginRun (call.start m.beginRun) [] := by
    have hsites := call.ordinary_start.sites m.beginRun
    have hlog := call.ordinary_start.log m.beginRun
    refine .of_ordinary call.ordinary_start hdebug (hbegun.sites hsites)
      (fun a m' hrun => ⟨rfl, ?_⟩) fun f m' hrun => .inr ?_
    · rw [after_of_ok hrun] at hsites
      exact hbegun.sites hsites
    · rwa [after_of_error hrun] at hlog
  have hrun : Accounted (fun _ executed m' => m'.Waits 1 (history ++ executed) ∧
      ∀ e ∈ executed, m.thread.frames.size < e.thread.frames.size) (Unmistakable m.env.log) history
      m.beginRun ((do call.start; executor : Exec Unit) m.beginRun)
      (afterwards call.start (fun _ => inner) m.beginRun) := by
    refine hstart.bind fun _ executed m' hok hdebug' h => ?_
    obtain ⟨rfl, hwaits'⟩ := h
    obtain ⟨hagree, hle⟩ := after_of_ok hok ▸ call.above_start m.beginRun (Nat.le_refl _)
    have hreturn : m'.thread.returnFrame = m.thread.frames.size := hagree.returnFrame
    rw [List.append_nil]
    refine (he hwaits' hdebug' hle).mono (fun _ later m'' h => ?_) fun _ _ => .inl
    rwa [hreturn] at h
  have hpop : ∀ executed m', m'.thread.debug.debugger = none → m'.Waits 1 (history ++ executed) →
      (∀ e ∈ executed, m.thread.frames.size < e.thread.frames.size) →
        Accounted
          (fun _ later _ => ∀ e ∈ executed ++ later, m.thread.frames.size < e.thread.frames.size)
          (Unmistakable m.env.log) (history ++ executed) m' (pop m') [] := by
    intro executed m' hdebug' hwaits' habove
    have hordinary : Ordinary 0 pop := ordinary_pop
    refine .of_ordinary hordinary hdebug' (hwaits'.sites (hordinary.sites m'))
      (fun _ _ _ => by rwa [List.append_nil]) fun f m'' hfails => .inl fun _ => .inl ?_
    unfold pop at hfails
    split at hfails <;> cases hfails
    rfl
  rw [← List.append_nil (afterwards _ _ _), ← afterwards_nil (do call.start; executor) m.beginRun]
  exact hrun.bind fun _ executed m' _ hdebug' h => hpop executed m' hdebug' h.1 h.2

/-- A run within a call passes on the trace of a run in it, or gives its own. -/
theorem accounted_run (he : Accounts executor inner) (hcalls : Keeps (Machine.Above 0 0) executor)
    (call : Call) (hwaits : m.Waits 0 history) (hdebug : m.thread.debug.debugger = none)
    (hnested : m.thread.frames ≠ #[]) :
    Accounted (fun _ executed m' => m'.thread.frames = m.thread.frames ∧
        ∀ e ∈ executed, m.thread.frames.size < e.thread.frames.size)
      (fun _ m' => m'.thread.frames = m.thread.frames) history m (call.run executor m)
      (runMoments executor inner call.start m) := by
  have hbody := accounted_body he call hwaits hdebug
  have habove : Keeps (Machine.Above 0 0) ((do call.start; executor) *> pop) :=
    (call.above_start.bind fun _ => hcalls).bind fun _ => keeps_pop.above 0
  have hframes : (after (call.run executor) m).thread.frames = m.thread.frames := by
    rw [call.run_eq]
    exact (calls_runProtected (call.above_start.bind fun _ => hcalls) m).frames
  rw [call.run_eq] at hframes ⊢
  unfold runMoments failure
  generalize hrun : ((do call.start; executor) *> pop) m.beginRun = r,
    afterwards call.start (fun _ => inner) m.beginRun = v at hbody
  cases hbody with
  | ok executed hlog hdebug' hdone =>
    have hended := runProtected_of_result hrun
    rw [after_of_ok hended] at hframes
    rw [hended, List.append_nil]
    exact .ok executed hlog hdebug' ⟨hframes, hdone⟩
  | @fresh f k executed hlog hstack hwaits' _ =>
    -- the calls that were active are still there
    have hk : k.thread.frames ≠ #[] := by
      obtain ⟨hagree, hle⟩ := after_of_error hrun ▸ habove m.beginRun (Nat.le_refl _)
      have hreturn : k.thread.returnFrame = m.thread.frames.size := hagree.returnFrame
      rw [← Array.size_pos_iff] at hnested ⊢
      omega
    rw [runProtected_of_fault hrun, Machine.attachTrace_of_nil (show f.stack = [] from hstack)]
    exact .noticed executed f k [] hk rfl ⟨rfl, rfl, hwaits', hlog, rfl⟩
  | @noticed f m' executed g k rest hk hrest hreported =>
    have hstack : f.stack = k.callTrace := hreported.stack
    rw [runProtected_of_fault hrun,
      Machine.attachTrace_of_ne (hstack ▸ Machine.callTrace_ne_nil hk),
      List.append_assoc, List.cons_append]
    refine .noticed executed g k _ hk ?_ hreported
    rw [executing_append, hrest]
    rfl
  | @halted e m' _ hhalt =>
    rw [runProtected_of_halt hhalt hrun]
    exact .halted _ hhalt

/-- What loads files within a call. -/
theorem accounted_of_unfolds {ε α : Type} [HasFault ε] {x : EStateM (Halt ε) Machine α}
    {v : Machine → List Moment} (he : Accounts executor inner)
    (hcalls : Keeps (Machine.Above 0 0) executor) (hx : Unfolds executor inner x v)
    (hwaits : m.Waits 0 history) (hdebug : m.thread.debug.debugger = none)
    (hnested : m.thread.frames ≠ #[]) :
    Accounted (fun _ executed m' => m'.thread.frames = m.thread.frames ∧
        ∀ e ∈ executed, m.thread.frames.size < e.thread.frames.size)
      (fun _ m' => m'.thread.frames = m.thread.frames) history m (x m) (v m) := by
  induction hx generalizing history m with
  | ordinary hx hthread =>
    have hframes := congrArg Thread.frames (hthread m)
    refine .of_ordinary hx hdebug ?_ (fun a m' hrun => ⟨?_, fun _ h => absurd h List.not_mem_nil⟩)
      fun e m' hrun => ?_
    · exact (hwaits.mono (Nat.zero_le 1)).sites (n := 0) (.of_frames hframes)
    · rwa [after_of_ok hrun] at hframes
    · rwa [after_of_error hrun] at hframes
  | bind _ _ ihx ihf =>
    refine (ihx hwaits hdebug hnested).bind fun a executed m' _ hdebug' h => ?_
    obtain ⟨hframes, habove⟩ := h
    have hwaits' : m'.Waits 0 (history ++ executed) :=
      (hwaits.append (n := 0) habove).sites (n := 0) (.of_frames hframes)
    refine (ihf a hwaits' hdebug' (hframes ▸ hnested)).mono (fun b later m'' h => ?_) fun f m'' h =>
      h.trans hframes
    refine ⟨h.1.trans hframes, List.forall_mem_append.2 ⟨habove, fun e hlater => ?_⟩⟩
    rw [← hframes]
    exact h.2 e hlater
  | look _ _ ih => exact ih m hwaits hdebug hnested
  | adapt hg _ ih => exact .adapt hg (ih hwaits hdebug hnested)
  | complain name =>
    have hcomplaint : LogEntry.IsHarmless ⟨.error, s!"Could not find class of {name}"⟩ :=
      fun _ => ⟨name, rfl⟩
    have hlog : m.env.log.Adds LogEntry.IsHarmless
        (m.env.log.add .error fun _ => s!"Could not find class of {name}") := .add _ hcomplaint
    exact .ok [] hlog hdebug ⟨rfl, fun _ h => absurd h List.not_mem_nil⟩
  | run call => exact accounted_run he hcalls call hwaits hdebug hnested

/-! ### Steps -/

theorem emptied_ret {m' : Machine} {f : Fault} (hrun : ret m = .error (.error f) m')
    (hm : m.thread.frames ≠ #[]) : Emptied f m' := by
  intro hempty
  have hpop : (after pop m).thread.frames = m.thread.frames := by
    unfold after pop
    cases m.thread.stack.back? <;> rfl
  unfold ret at hrun
  cases hresult : pop m with
  | error e m₁ =>
    rw [after_of_error hresult] at hpop
    rw [bind_of_error hresult] at hrun
    cases hrun
    exact absurd (hpop.symm.trans hempty) hm
  | ok result m₁ =>
    rw [after_of_ok hresult] at hpop
    rw [bind_of_ok hresult] at hrun
    cases hf : m₁.thread.frames.back? with
    | none =>
      rw [bind_of_error (frame_of_none hf)] at hrun
      cases hrun
      exact absurd (hpop.symm.trans hempty) hm
    | some g =>
      rw [bind_of_ok (frame_of_back? hf), modify_bind] at hrun
      -- all that can fail now is to put the result back
      change push result ((m₁.mapFrames (·.pop)).mapStack (·.shrink g.slots)) = _ at hrun
      unfold push at hrun
      split at hrun <;> cases hrun
      exact .inr ⟨_, rfl⟩

/-- An instruction that fails leaves no calls only if it is a return whose result does not fit. -/
theorem emptied_perform (hcalls : Keeps (Machine.Above 0 0) executor) {i : Instruction}
    {m' : Machine} {f : Fault} (hrun : perform executor i m = .error (.error f) m')
    (hm : m.thread.returnFrame < m.thread.frames.size) : Emptied f m' := by
  by_cases hi : i = .ret
  · subst hi
    exact emptied_ret hrun (Array.size_pos_iff.1 (by omega))
  · intro hempty
    obtain ⟨-, hle⟩ := after_of_error hrun ▸ above_perform hcalls hi m hm
    rw [hempty] at hle
    exact absurd hle (Nat.not_succ_le_zero _)

/-- An instruction that imports no class. -/
theorem accounted_perform {i : Instruction} (hi : ∀ index, i ≠ .importClass index)
    (hcalls : Keeps (Machine.Above 0 0) executor) (hwaits : m.Waits 1 history)
    (hled : i.Leads → m.Waits 0 history) (hdebug : m.thread.debug.debugger = none)
    (hm : m.thread.returnFrame < m.thread.frames.size) :
    Accounted (fun _ executed m' => executed = [] ∧ m'.Waits 1 history) Emptied history m
      (perform executor i m) [] := by
  have hordinary := ordinary_perform executor hi
  have hsites := hordinary.sites m
  have hwaits' : (after (perform executor i) m).Waits 1 history := by
    by_cases hadds : i.adds = 0
    · rw [hadds] at hsites
      exact hwaits.sites hsites
    · have hone : i.adds = 1 := by
        cases i <;> first | rfl | exact absurd rfl hadds
      rw [hone] at hsites
      exact (hled (Instruction.leads_of_adds hadds)).sites hsites
  refine .of_ordinary hordinary hdebug hwaits' (fun _ m' hrun => ⟨rfl, ?_⟩) fun f m' hrun =>
    emptied_perform hcalls hrun hm
  rwa [after_of_ok hrun] at hwaits'

/-- Fetching an instruction. The machine has been about to execute it, so calls may wait for what it
leads to. -/
theorem accounted_advance (hwaits : m.Waits 1 history) (hdebug : m.thread.debug.debugger = none)
    (hm : m.thread.returnFrame < m.thread.frames.size) :
    Accounted (fun i executed m' => executed = [m] ∧ m'.Waits 1 (history ++ [m]) ∧
      (i.Leads → m'.Waits 0 (history ++ [m]))) Emptied history m (advance m) [.executes m] := by
  have habove : Machine.Above 1 1 m (after advance m) := keeps_advance m
  obtain ⟨-, hle⟩ := habove hm
  have hmoved := hwaits.advance
  have hlog := ((ordinary_advance.log m).mono fun e he herror => absurd herror he :
    m.env.log.Adds LogEntry.IsHarmless (after advance m).env.log)
  have hdebug' := (congrArg DebugState.debugger (ordinary_advance.debug m)).trans hdebug
  cases hrun : advance m with
  | ok i m' =>
    rw [after_of_ok hrun] at hmoved hlog hdebug'
    exact .ok [m] hlog hdebug' ⟨rfl, hmoved, hwaits.led hrun⟩
  | error e m' =>
    rw [after_of_error hrun] at hmoved hlog hle
    cases e with
    | error f =>
      refine .fresh [m] hlog (ordinary_advance.untraced m f m' hrun) hmoved fun hempty => ?_
      rw [hempty] at hle
      exact absurd hle (Nat.not_succ_le_zero _)
    | outOfFuel => exact .halted _ nofun
    | overflow => exact .halted _ nofun

/-- One instruction. -/
theorem accounted_step (he : Accounts executor inner) (hcalls : Keeps (Machine.Above 0 0) executor)
    (hwaits : m.Waits 1 history) (hdebug : m.thread.debug.debugger = none)
    (hm : m.thread.returnFrame < m.thread.frames.size) :
    Accounted (fun _ executed m' => m'.Waits 1 (history ++ executed) ∧
        ∀ e ∈ executed, m.thread.returnFrame < e.thread.frames.size)
      Emptied history m (step executor m)
      (.executes m :: afterwards advance (performMoments executor inner) m) := by
  have habove : Machine.Above 1 1 m (after advance m) := keeps_advance m
  obtain ⟨hagree, hle⟩ := habove hm
  rw [step_eq]
  refine (accounted_advance hwaits hdebug hm).bind (v := [.executes m])
    fun i executed m' hrun hdebug' h => ?_
  obtain ⟨rfl, hmoved, hled⟩ := h
  rw [after_of_ok hrun] at hagree hle
  rw [← hagree.returnFrame]
  have hfirst : m'.thread.returnFrame < m.thread.frames.size := by rwa [hagree.returnFrame]
  by_cases hi : ∃ index, i = .importClass index
  · obtain ⟨index, rfl⟩ := hi
    have hnested : m'.thread.frames ≠ #[] := Array.size_pos_iff.1 (by omega)
    refine (accounted_of_unfolds he hcalls (unfolds_importClass executor inner index.toNat)
      (hled trivial) hdebug' hnested).mono (fun _ later m'' h => ⟨?_, ?_⟩) fun f m'' h hempty =>
        absurd (h.symm.trans hempty) hnested
    · rw [← List.append_assoc]
      exact ((((hled trivial).append (n := 0) h.2).sites (n := 0) (.of_frames h.1))).mono
        (Nat.zero_le 1)
    · refine List.forall_mem_append.2 ⟨?_, fun e hlater => Nat.lt_trans ?_ (h.2 e hlater)⟩
      · exact List.forall_mem_singleton.2 hfirst
      · omega
  · have hnone : performMoments executor inner i m' = [] := by
      cases i with
      | importClass index => exact absurd ⟨index, rfl⟩ hi
      | _ => rfl
    rw [hnone]
    refine (accounted_perform (fun index h => hi ⟨index, h⟩) hcalls hmoved hled hdebug'
      (by omega)).mono (fun _ later m'' h => ?_) fun _ _ => id
    obtain ⟨rfl, hwaits'⟩ := h
    exact ⟨hwaits', List.forall_mem_singleton.2 hfirst⟩

/-- **Executing accounts for its faults.** -/
theorem accounts_execute (fuel : Nat) : Accounts (execute fuel) (moments fuel) := by
  -- the hypothesis serves twice: for the runs within the instruction, and for the instructions that
  -- follow it
  induction fuel with
  | zero =>
    intro history m hwaits hdebug _
    by_cases hm : m.thread.returnFrame < m.thread.frames.size
    · rw [show execute 0 m = .error .outOfFuel m from if_pos (decide_eq_true hm)]
      exact .halted _ nofun
    · rw [Machine.execute_of_inactive hm]
      exact .ok [] (.refl _) hdebug ⟨by rwa [List.append_nil], fun _ h => absurd h List.not_mem_nil⟩
  | succ fuel ih =>
    intro history m hwaits hdebug hle
    by_cases hm : m.thread.returnFrame < m.thread.frames.size
    · have hactive : m.thread.isActive = true := decide_eq_true hm
      rw [execute_of_active hm hdebug]
      unfold moments
      rw [if_pos hactive]
      refine (accounted_step ih (above_execute fuel) hwaits hdebug hm).bind
        fun _ executed m' hrun hdebug' h => ?_
      obtain ⟨hagree, hle'⟩ := after_of_ok hrun ▸ above_step (above_execute fuel) m hm
      refine (ih h.1 hdebug' hle').mono
        (fun _ later m'' h' => ⟨?_, List.forall_mem_append.2 ⟨h.2, ?_⟩⟩) fun _ _ => id
      · rw [← List.append_assoc]
        exact h'.1
      · rw [← hagree.returnFrame]
        exact h'.2
    · rw [Machine.execute_of_inactive hm]
      unfold moments
      rw [if_neg (by simpa [Thread.isActive] using hm)]
      exact .ok [] (.refl _) hdebug ⟨by rwa [List.append_nil], fun _ h => absurd h List.not_mem_nil⟩

end Runs

/-! ### Reports -/

/-- A fault of a run is not reported as classes that are not found are complained of. -/
theorem head?_errorReport {k : Machine} {f : Fault} (hf : Emptied f k) :
    (k.errorReport f.message).toList.head? ≠ some 'C' := by
  unfold Machine.errorReport
  cases hback : k.thread.frames.back? with
  | none =>
    have hempty : k.thread.frames = #[] := by
      by_contra hk
      rw [Array.back?_eq_getElem?, Array.getElem?_eq_none_iff] at hback
      have := Array.size_pos_iff.2 hk
      omega
    unfold Fault.message
    obtain hcause | ⟨count, hcause⟩ := hf hempty
    · rw [hcause, show Cause.stackUnderflow.message = "Stack underflow!" from rfl]
      simp
    · rw [hcause, show (Cause.stackOverflow count).message = "Stack overflow! Count: " ++
        toString count from rfl]
      simp
  | some c =>
    unfold Machine.location
    dsimp only
    cases Machine.lineOf? k.env c.function c.ipLast <;> simp [toString]

/-- A report is a line of the log, after those that were there and those added since. -/
theorem entries_report {p : LogEntry → Prop} {log : Log} {env : Environment}
    (hlog : log.Adds p env.log) (hkeeps : log.keeps .error = true) (text : String) : ∃ before,
      (env.report .error fun _ => text).log.entries.toList = log.entries.toList ++ before ++
        [⟨.error, text⟩] ∧
        ∀ e ∈ before, p e := by
  obtain ⟨before, hbefore, hp⟩ := hlog.entries
  refine ⟨before, ?_, hp⟩
  have hkeeps' : env.log.keeps .error = true := by
    unfold Log.keeps at hkeeps ⊢
    rwa [hlog.limit]
  show (env.log.add .error fun _ => text).entries.toList = _
  unfold Log.add
  rw [if_pos hkeeps', ← hbefore]
  exact Array.toList_push

/-- The report of a fault is unlike all that was logged before it. -/
theorem logged_once {log : Log} {k : Machine} {f : Fault}
    (hlog : log.Adds LogEntry.IsHarmless k.env.log)
    (hf : Unmistakable log f k) (hkeeps : log.keeps .error = true) : ∃ before : List LogEntry,
      (k.env.report .error fun _ => k.errorReport f.message).log.entries.toList =
        log.entries.toList ++ before ++ [⟨.error, k.errorReport f.message⟩] ∧
      (⟨.error, k.errorReport f.message⟩ : LogEntry) ∉ before := by
  obtain hf | hquiet := hf
  · obtain ⟨before, hentries, hharmless⟩ := entries_report hlog hkeeps (k.errorReport f.message)
    refine ⟨before, hentries, fun hmem => ?_⟩
    obtain ⟨name, hname⟩ := hharmless _ hmem rfl
    refine head?_errorReport hf ?_
    rw [show k.errorReport f.message = "Could not find class of " ++ name from hname]
    simp
  · obtain ⟨before, hentries, herrors⟩ := entries_report hquiet hkeeps (k.errorReport f.message)
    exact ⟨before, hentries, fun hmem => herrors _ hmem rfl⟩

/-- A trace is that of the calls of `k`: it has one line for each, the outermost first, with the
name and the source of the function, and with the line that the function of its caller has for the
instruction that led to it. -/
structure ExactTrace (executed : List Machine) (k : Machine) (stack : List StackFrame) : Prop where
  length : stack.length = k.thread.frames.size
  named : ∀ (i : Nat) (c : Frame) (entry : StackFrame), k.thread.frames[i]? = some c →
    stack[i]? = some entry →
    entry.functionName = k.env.functionName c.function ∧
    entry.sourceFilename = k.env.sourceFilename c.function
  outermost : ∀ entry, stack[0]? = some entry → entry.line = none
  line : ∀ (i : Nat) (c : Frame) (entry : StackFrame), k.thread.frames[i]? = some c →
    stack[i + 1]? = some entry →
    c.Waits executed i ∧ entry.line = Machine.lineOf? k.env c.function c.ipLast

theorem exactTrace_callTrace {executed : List Machine} {k : Machine} (hk : k.Waits 1 executed) :
    ExactTrace executed k k.callTrace := by
  have hentry : ∀ i, k.callTrace[i]? = k.thread.frames[i]?.map
      (Machine.traceEntry k.env (if i = 0 then none else k.thread.frames[i - 1]?)) := by
    intro i
    refine (Machine.getElem?_traceFrom k.env none k.thread.frames.toList i).trans ?_
    rw [Array.getElem?_toList, Array.getElem?_toList]
  refine ⟨k.length_callTrace, fun i c entry hc he => ?_, fun entry he => ?_,
    fun i c entry hc he => ?_⟩
  · rw [hentry, hc] at he
    cases he
    exact ⟨rfl, rfl⟩
  · rw [hentry] at he
    obtain ⟨c, -, rfl⟩ := Option.map_eq_some_iff.1 he
    rfl
  · have hlt : i + 1 < k.thread.frames.size := by
      rw [← k.length_callTrace]
      exact (List.getElem?_eq_some_iff.1 he).1
    rw [hentry] at he
    obtain ⟨c', -, rfl⟩ := Option.map_eq_some_iff.1 he
    refine ⟨hk i c hlt hc, ?_⟩
    show (if i + 1 = 0 then none else k.thread.frames[i]?).bind _ = _
    rw [if_neg (Nat.succ_ne_zero i), hc]
    rfl

/-- **Error traces.** The trace of a fault is that of the calls that were active when the innermost
run failed, and that report is logged once. -/
theorem error_trace (fuel : Nat) (call : Call) {m m' : Machine} {f : Fault}
    (hidle : m.thread.frames = #[]) (hdebug : m.thread.debug.debugger = none)
    (hrun : call.run (execute fuel) m = .error (.error f) m') :
    ∃ executed g k rest,
      runMoments (execute fuel) (moments fuel) call.start m = executed.map .executes ++
        .fails g k :: rest ∧
      executing rest = [] ∧ f.cause = g.cause ∧ ExactTrace executed k f.stack ∧
      (m.env.log.keeps .error = true → ∃ before : List LogEntry,
        m'.env.log.entries.toList =
          m.env.log.entries.toList ++ before ++ [⟨.error, k.errorReport f.message⟩] ∧
        (⟨.error, k.errorReport f.message⟩ : LogEntry) ∉ before) := by
  have hwaits : m.Waits 0 [] := by
    intro index c hindex
    rw [hidle] at hindex
    exact absurd hindex (Nat.not_lt_zero _)
  have hbody := accounted_body (accounts_execute fuel) call hwaits hdebug
  rw [call.run_eq] at hrun
  unfold runMoments failure
  generalize hresult : ((do call.start; execute fuel) *> pop) m.beginRun = r,
    afterwards call.start (fun _ => moments fuel) m.beginRun = v at hbody
  cases hbody with
  | ok executed hlog hdebug' hdone => cases (runProtected_of_result hresult).symm.trans hrun
  | @fresh g k executed hlog hstack hwaits' hfailed =>
    rw [runProtected_of_fault hresult, Machine.attachTrace_of_nil (show g.stack = [] from hstack)]
      at hrun
    cases hrun
    exact ⟨executed, g, k, [], rfl, rfl, rfl, exactTrace_callTrace hwaits',
      logged_once hlog hfailed⟩
  | @noticed f' m'' executed g k rest hk hrest hreported =>
    have hstack : f'.stack = k.callTrace := hreported.stack
    have hcause : f'.cause = g.cause := hreported.cause
    have hmessage : f'.message = g.message := congrArg Cause.message hcause
    rw [runProtected_of_fault hresult,
      Machine.attachTrace_of_ne (hstack ▸ Machine.callTrace_ne_nil hk)] at hrun
    cases hrun
    refine ⟨executed, g, k, rest ++ [.fails f' m''], by simp, ?_, hcause, ?_, fun hkeeps => ?_⟩
    · rw [executing_append, hrest]
      rfl
    · rw [hstack]
      exact exactTrace_callTrace hreported.waits
    · rw [hmessage, show (Machine.endRun _ _ _ _ m'').env.log = _ from hreported.report]
      exact logged_once hreported.before (.inl fun hempty => absurd hempty hk) hkeeps
  | @halted e m'' _ hhalt =>
    cases (runProtected_of_halt hhalt hresult).symm.trans hrun
    exact absurd rfl (hhalt f)

/-- The fault that a run failed with, and the machine that it left. -/
def failedWith? {α : Type} : EStateM.Result (Halt Fault) Machine α → Option (Fault × Machine)
  | .error (.error f) m => some (f, m)
  | _ => none

theorem eq_error_of_failedWith? {α : Type} {r : EStateM.Result (Halt Fault) Machine α} {f : Fault}
    {m : Machine} (h : failedWith? r = some (f, m)) : r = .error (.error f) m := by
  unfold failedWith? at h
  split at h
  · cases h
    rfl
  · cases h

/-- A function that asks for a class that is not there, another that calls it on line 6, and a log
that keeps errors. -/
def stumbling : Machine :=
  let asking := FunctionObject.ofCode 0 1 #[Opcode.getSuperclass.toByte]
  let calling :=
    FunctionObject.ofCode 0 1 #[Opcode.constant.toByte, 0, 0, 0, 0, Opcode.call.toByte, 0]
  let heap := (Heap.empty.alloc (.function asking)).2
  let heap := (heap.alloc (.function { calling with
    lines := some #[5, 5, 5, 5, 5, 6, 6], constants := #[.object ⟨0, 0⟩] })).2
  ⟨.new heap Native.standard none (.upTo .error), .new 0⟩

/-- The trace is of both calls, and one line is logged. -/
theorem error_trace_stumbling :
    let call := Call.value (.object ⟨1, 0⟩) []
    ∃ f m', call.run (execute 3) stumbling = .error (.error f) m' ∧
    f.stack.map (·.line) = [none, some 6] ∧
      m'.env.log.entries.size = 1 ∧ ∃ executed g k rest,
        runMoments (execute 3) (moments 3) call.start stumbling = executed.map .executes ++
          .fails g k :: rest ∧
        f.cause = g.cause ∧ ExactTrace executed k f.stack := by
  intro call
  have hfails : (failedWith? (call.run (execute 3) stumbling)).any (fun failed => decide
      (failed.1.stack.map (·.line) = [none, some 6] ∧ failed.2.env.log.entries.size = 1)) =
      true := by
    decide +kernel
  obtain ⟨⟨f, m'⟩, hfailed, hseen⟩ := (Option.any_eq_true _ _).1 hfails
  obtain ⟨hlines, hlogged⟩ := of_decide_eq_true hseen
  have hrun : call.run (execute 3) stumbling = .error (.error f) m' :=
    eq_error_of_failedWith? hfailed
  obtain ⟨executed, g, k, rest, hmoments, -, hcause, htrace, -⟩ := error_trace 3 call rfl rfl hrun
  exact ⟨f, m', hrun, hlines, hlogged, executed, g, k, rest, hmoments, hcause, htrace⟩

end Exec
end ScriptVm
