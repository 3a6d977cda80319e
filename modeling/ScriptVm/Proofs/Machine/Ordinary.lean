import ScriptVm.Proofs.Machine.WholeRuns

/-!
# What scripts cannot tell

Neither the lines logged earlier nor the state of the thread nor its debugging state is anything
to a script.

* `Machine.against` puts a machine against another `Periphery` of these, `Machine.bare`
  takes them away.
* `Machine.SameSites n` says that all but the `n` topmost calls are calls of before, at the same
  instructions.
* `Ordinary n` is an action that cannot tell one periphery from another and leaves it alone, that
  fails without a trace, that logs no errors, and that keeps `SameSites n`.
* `Ordinary.bind` puts actions together. The rest are the primitives and the calls.
-/

namespace ScriptVm

/-! ### What is nothing to scripts -/

/-- What is nothing to scripts: lines logged earlier, the state of the thread, and its debugging. -/
structure Periphery where
  lines : Array LogEntry
  state : ThreadState
  debug : DebugState

/-- The log with other lines before its own. -/
def Log.behind (log : Log) (lines : Array LogEntry) : Log :=
  { log with entries := lines ++ log.entries }

/-- The environment with other lines before those of its log. -/
def Environment.behind (env : Environment) (lines : Array LogEntry) : Environment :=
  { env with log := env.log.behind lines }

/-- The environment with nothing logged. -/
def Environment.unlogged (env : Environment) : Environment :=
  { env with log := { env.log with entries := #[] } }

theorem Environment.unlogged_report (env : Environment) (level : Level) (text : Unit → String) :
    (env.report level text).unlogged = env.unlogged := by
  unfold Environment.report Environment.unlogged Log.add
  dsimp only
  split <;> rfl

namespace Machine

/-- The machine against another periphery. -/
def against (m : Machine) (b : Periphery) : Machine :=
  ⟨m.env.behind b.lines, { m.thread with state := b.state, debug := b.debug }⟩

/-- The machine without its periphery. -/
def bare (m : Machine) : Machine :=
  ⟨m.env.unlogged, { m.thread with state := .idle, debug := .off }⟩

/-- The periphery of a machine. -/
def periphery (m : Machine) : Periphery := ⟨m.env.log.entries, m.thread.state, m.thread.debug⟩

/-- Nothing is lost when the periphery is taken away. -/
theorem bare_against_periphery (m : Machine) : m.bare.against m.periphery = m := by
  simp [against, bare, periphery, Environment.behind, Environment.unlogged, Log.behind]

end Machine

/-! ### Logs -/

/-- Lines of some kind were added to a log. -/
structure Log.Adds (p : LogEntry → Prop) (log log' : Log) : Prop where
  limit : log'.limit = log.limit
  entries : ∃ added, log'.entries.toList = log.entries.toList ++ added ∧ ∀ e ∈ added, p e

/-- Lines were added to a log, and no errors. -/
abbrev Log.Continues : Log → Log → Prop := Log.Adds fun e => e.level ≠ .error

namespace Log.Adds

variable {log log' log'' : Log} {p q : LogEntry → Prop}

theorem refl (log : Log) : log.Adds p log := ⟨rfl, [], by simp⟩

theorem trans (h : log.Adds p log') (h' : log'.Adds p log'') : log.Adds p log'' := by
  obtain ⟨added, hadded, hp⟩ := h.entries
  obtain ⟨added', hadded', hp'⟩ := h'.entries
  refine ⟨h'.limit.trans h.limit, added ++ added', by rw [hadded', hadded, List.append_assoc], ?_⟩
  exact List.forall_mem_append.2 ⟨hp, hp'⟩

theorem mono (h : log.Adds p log') (hpq : ∀ e, p e → q e) : log.Adds q log' := by
  obtain ⟨added, hadded, hp⟩ := h.entries
  exact ⟨h.limit, added, hadded, fun e he => hpq e (hp e he)⟩

theorem add (log : Log) {level : Level} {text : Unit → String} (h : p ⟨level, text ()⟩) :
    log.Adds p (log.add level text) := by
  unfold Log.add
  split
  · exact ⟨rfl, [⟨level, text ()⟩], by simp, by simpa using h⟩
  · exact refl log

end Log.Adds

/-! ### Call sites -/

/-- A call of the same function at the same instruction. -/
structure Frame.SameSite (f f' : Frame) : Prop where
  function : f'.function = f.function
  code : f'.code = f.code
  ipLast : f'.ipLast = f.ipLast

namespace Machine

/-- All but the `n` topmost calls are calls of before, at the same instructions. -/
def SameSites (n : Nat) (m m' : Machine) : Prop :=
  ∀ i, i + n < m'.thread.frames.size →
    ∃ f f', m.thread.frames[i]? = some f ∧ m'.thread.frames[i]? = some f' ∧ f.SameSite f'

namespace SameSites

variable {j n : Nat} {m m' m'' : Machine}

theorem of_frames (h : m'.thread.frames = m.thread.frames) : m.SameSites n m' := by
  intro i hi
  have hlt : i < m'.thread.frames.size := Nat.lt_of_le_of_lt (Nat.le_add_right i n) hi
  have hget := Array.getElem?_eq_getElem hlt
  exact ⟨_, _, h ▸ hget, hget, rfl, rfl, rfl⟩

/-- There are at most `n` calls more. -/
theorem size_le (h : m.SameSites n m') : m'.thread.frames.size ≤ m.thread.frames.size + n := by
  by_contra hlt
  obtain ⟨f, f', hf, -, -⟩ := h m.thread.frames.size (by omega)
  rw [Array.getElem?_eq_none (Nat.le_refl _)] at hf
  cases hf

theorem comp (h : m.SameSites j m') (h' : m'.SameSites n m'') : m.SameSites (j + n) m'' := by
  intro i hi
  have hsize := h'.size_le
  obtain ⟨g, g', hg, hg', hsite⟩ := h' i (by omega)
  obtain ⟨f, f', hf, hf', hsite'⟩ := h i (by omega)
  cases hf'.symm.trans hg
  exact ⟨f, g', hf, hg', hsite.function.trans hsite'.function, hsite.code.trans hsite'.code,
    hsite.ipLast.trans hsite'.ipLast⟩

theorem mono (h : m.SameSites j m') (hle : j ≤ n) : m.SameSites n m' := fun i hi => h i (by omega)

end SameSites

/-- Changing the current call leaves the others at their instructions, and moving it leaves it
at its own. -/
theorem sameSites_mapFrame {n : Nat} {m : Machine} {g : Frame → Frame}
    (hg : n = 0 → ∀ f, m.thread.frames.back? = some f → f.SameSite (g f)) :
    m.SameSites n (m.mapFrame g) := by
  intro i hi
  have hsize : (m.mapFrame g).thread.frames.size = m.thread.frames.size := Array.size_modify
  have hlt : i < m.thread.frames.size := by omega
  have hget : (m.mapFrame g).thread.frames[i]? =
      if m.thread.frames.size - 1 = i then m.thread.frames[i]?.map g else m.thread.frames[i]? :=
    Array.getElem?_modify
  split at hget
  · rename_i hlast
    have hback : m.thread.frames.back? = some m.thread.frames[i] := by
      rw [Array.back?_eq_getElem?, hlast, Array.getElem?_eq_getElem hlt]
    rw [Array.getElem?_eq_getElem hlt] at hget
    exact ⟨_, _, Array.getElem?_eq_getElem hlt, hget, hg (by omega) _ hback⟩
  · rw [Array.getElem?_eq_getElem hlt] at hget
    exact ⟨_, _, Array.getElem?_eq_getElem hlt, hget, rfl, rfl, rfl⟩

/-- A new call is above all others. -/
theorem sameSites_push (m : Machine) (f : Frame) : m.SameSites 1 (m.mapFrames (·.push f)) := by
  intro i hi
  have hlt : i < m.thread.frames.size := by
    have hsize : (m.mapFrames (·.push f)).thread.frames.size = m.thread.frames.size + 1 :=
      Array.size_push f
    omega
  refine ⟨_, _, Array.getElem?_eq_getElem hlt, ?_, rfl, rfl, rfl⟩
  exact (Array.getElem?_push_lt hlt)

/-- A return leaves the calls below. -/
theorem sameSites_pop {n : Nat} (m : Machine) : m.SameSites n (m.mapFrames (·.pop)) := by
  intro i hi
  have hlt : i < m.thread.frames.pop.size := Nat.lt_of_le_of_lt (Nat.le_add_right i n) hi
  have hget : m.thread.frames.pop[i]? = m.thread.frames[i]? := by
    rw [Array.size_pop] at hlt
    rw [Array.getElem?_pop, if_pos hlt]
  exact ⟨_, _, hget ▸ Array.getElem?_eq_getElem hlt, Array.getElem?_eq_getElem hlt, rfl, rfl, rfl⟩

end Machine

/-! ### Ordinary actions -/

/-- Errors that come to a fault. -/
class HasFault (ε : Type) where
  fault : ε → Fault

instance : HasFault Fault := ⟨id⟩

instance : HasFault RegistryError := ⟨RegistryError.toFault⟩

namespace Exec

variable {ε δ α β : Type}

/-- The same outcome against another periphery. -/
def against (b : Periphery) : EStateM.Result ε Machine α → EStateM.Result ε Machine α
  | .ok a m => .ok a (m.against b)
  | .error e m => .error e (m.against b)

/-- An action that cannot tell one periphery from another, fails without a trace, logs no errors,
and leaves all but the topmost calls at their instructions. -/
structure Ordinary [HasFault ε] (n : Nat) (x : EStateM (Halt ε) Machine α) : Prop where
  against : ∀ (b : Periphery) (m : Machine), x (m.against b) = against b (x m)
  untraced : ∀ (m : Machine) (e : ε) (m' : Machine), x m = .error (.error e) m' →
    (HasFault.fault e).stack = []
  log : ∀ m : Machine, m.env.log.Continues (after x m).env.log
  sites : ∀ m : Machine, m.SameSites n (after x m)

section Composition

variable [HasFault ε] [HasFault δ] {j n : Nat} {x : EStateM (Halt ε) Machine α}
  {f : α → EStateM (Halt ε) Machine β}

theorem Ordinary.comp (hx : Ordinary j x) (hf : ∀ a, Ordinary n (f a)) :
    Ordinary (j + n) (x >>= f) where
  against b m := by
    have hfirst := hx.against b m
    cases hrun : x m with
    | ok a m' =>
      rw [hrun] at hfirst
      rw [bind_of_ok hfirst, bind_of_ok hrun]
      exact (hf a).against b m'
    | error e m' =>
      rw [hrun] at hfirst
      rw [bind_of_error hfirst, bind_of_error hrun]
      rfl
  untraced m e m' hrun := by
    cases hfirst : x m with
    | ok a m₁ =>
      rw [bind_of_ok hfirst] at hrun
      exact (hf a).untraced m₁ e m' hrun
    | error e₁ m₁ =>
      rw [bind_of_error hfirst] at hrun
      cases hrun
      exact hx.untraced m e m' hfirst
  log m := by
    have hfirst := hx.log m
    cases hrun : x m with
    | ok a m' =>
      rw [after_of_ok hrun] at hfirst
      rw [after_bind_of_ok hrun]
      exact hfirst.trans ((hf a).log m')
    | error e m' =>
      rw [after_of_error hrun] at hfirst
      rwa [after_of_error (bind_of_error hrun)]
  sites m := after_bind (R := Machine.SameSites j) (hx.sites m) (fun a => (hf a).sites)
    (fun _ _ _ => .comp) fun _ _ h => h.mono (Nat.le_add_right j n)

theorem Ordinary.bind (hx : Ordinary 0 x) (hf : ∀ a, Ordinary n (f a)) : Ordinary n (x >>= f) :=
  Nat.zero_add n ▸ hx.comp hf

/-- An action that always succeeds. -/
theorem ordinary_of_ok {g : Machine → α × Machine} (hx : ∀ m, x m = .ok (g m).1 (g m).2)
    (hg : ∀ b m, g (m.against b) = ((g m).1, (g m).2.against b))
    (hlog : ∀ m : Machine, m.env.log.Continues (g m).2.env.log)
    (hsites : ∀ m : Machine, m.SameSites n (g m).2) : Ordinary n x where
  against b m := by
    rw [hx, hx, hg]
    rfl
  untraced m e m' hrun := by
    rw [hx] at hrun
    cases hrun
  log m := by
    rw [after_of_ok (hx m)]
    exact hlog m
  sites m := by
    rw [after_of_ok (hx m)]
    exact hsites m

theorem ordinary_pure (a : α) : Ordinary n (pure a : EStateM (Halt ε) Machine α) :=
  ordinary_of_ok (g := fun m => (a, m)) (fun _ => rfl) (fun _ _ => rfl) (fun _ => .refl _) fun _ =>
    .of_frames rfl

theorem ordinary_modify {u : Machine → Machine} (hu : ∀ b m, u (m.against b) = (u m).against b)
    (hlog : ∀ m, (u m).env.log = m.env.log) (hsites : ∀ m : Machine, m.SameSites n (u m)) :
    Ordinary n (modify u : EStateM (Halt ε) Machine PUnit) := by
  refine ordinary_of_ok (g := fun m => (⟨⟩, u m)) (fun _ => rfl)
    (fun b m => congrArg (Prod.mk _) (hu b m)) (fun m => ?_) hsites
  rw [hlog]
  exact .refl _

theorem Ordinary.map (g : α → β) (hx : Ordinary 0 x) : Ordinary n (g <$> x) := by
  rw [map_eq_pure_bind]
  exact hx.bind fun a => ordinary_pure (g a)

/-- What is looked up in the machine must not be of the periphery. -/
theorem ordinary_get {k : Machine → EStateM (Halt ε) Machine β} (hk : ∀ b m, k (m.against b) = k m)
    (h : ∀ m, Ordinary n (k m)) : Ordinary n (get >>= k) where
  against b m := by
    show k (m.against b) (m.against b) = _
    rw [hk]
    exact (h m).against b m
  untraced m e m' hrun := (h m).untraced m e m' hrun
  log m := (h m).log m
  sites m := (h m).sites m

/-- Nothing happens to the debugging state. -/
theorem Ordinary.debug (hx : Ordinary n x) (m : Machine) :
    (after x m).thread.debug = m.thread.debug := by
  have hrun := hx.against m.periphery m.bare
  rw [m.bare_against_periphery] at hrun
  unfold after
  rw [hrun]
  cases x m.bare <;> rfl

/-- The same errors in another form. -/
theorem Ordinary.adaptExcept (hx : Ordinary n x) {g : ε → δ}
    (hg : ∀ e, HasFault.fault (g e) = HasFault.fault e) :
    Ordinary n (EStateM.adaptExcept (Halt.map g) x : EStateM (Halt δ) Machine α) where
  against b m := by
    have hrun := hx.against b m
    unfold EStateM.adaptExcept
    rw [hrun]
    cases x m <;> rfl
  untraced m e m' hrun := by
    unfold EStateM.adaptExcept at hrun
    cases hx₁ : x m with
    | ok a m₁ =>
      rw [hx₁] at hrun
      cases hrun
    | error e₁ m₁ =>
      rw [hx₁] at hrun
      cases e₁ with
      | error e₁ =>
        cases hrun
        rw [hg]
        exact hx.untraced m e₁ m' hx₁
      | outOfFuel => cases hrun
      | overflow => cases hrun
  log m := by
    rw [after_adaptExcept]
    exact hx.log m
  sites m := by
    rw [after_adaptExcept]
    exact hx.sites m

end Composition

/-! ### Reading and failing -/

section Reading

variable {n : Nat}

/-- An action that halts and changes nothing. -/
theorem ordinary_of_error [HasFault ε] {x : EStateM (Halt ε) Machine α} (e : Halt ε)
    (hx : ∀ m, x m = .error e m) (he : ∀ e₁, e = .error e₁ → (HasFault.fault e₁).stack = []) :
    Ordinary n x where
  against b m := by rw [hx, hx]; rfl
  untraced m e₁ m' hrun := by
    rw [hx] at hrun
    cases hrun
    exact he e₁ rfl
  log m := by
    rw [after_of_error (hx m)]
    exact .refl _
  sites m := by
    rw [after_of_error (hx m)]
    exact .of_frames rfl

theorem ordinary_fault (c : Cause) : Ordinary n (fault c : Exec α) :=
  ordinary_of_error _ (fun _ => rfl) fun _ h => by cases h; rfl

theorem ordinary_outOfRange : Ordinary n (outOfRange : Exec α) :=
  ordinary_of_error _ (fun _ => rfl) fun _ h => by cases h

theorem ordinary_ofOption (c : Cause) (o : Option α) : Ordinary n (ofOption c o) := by
  cases o with
  | some a => exact ordinary_pure a
  | none => exact ordinary_fault c

theorem ordinary_ofExcept (r : Except Cause α) : Ordinary n (ofExcept r) := by
  cases r with
  | ok a => exact ordinary_pure a
  | error c => exact ordinary_fault c

theorem ordinary_environment {k : Environment → Exec β}
    (hk : ∀ lines env, k (env.behind lines) = k env)
    (h : ∀ env, Ordinary n (k env)) : Ordinary n (environment >>= k) :=
  ordinary_get (k := fun m => k m.env) (fun b m => hk b.lines m.env) fun m => h m.env

theorem ordinary_memory : Ordinary n memory :=
  ordinary_of_ok (g := fun m => (m.env.memory, m)) (fun _ => rfl) (fun _ _ => rfl)
    (fun _ => .refl _) fun _ => .of_frames rfl

theorem ordinary_cells : Ordinary n cells :=
  ordinary_of_ok (g := fun m => (m.env.memory.cells, m)) (fun _ => rfl) (fun _ _ => rfl)
    (fun _ => .refl _) fun _ => .of_frames rfl

theorem ordinary_size (count : Nat) : Ordinary n (size count) := by
  unfold size
  split
  · exact ordinary_pure _
  · exact ordinary_outOfRange

theorem ordinary_difference (count k : Nat) : Ordinary n (difference count k) := by
  unfold difference
  split
  · exact ordinary_pure _
  · exact ordinary_outOfRange

theorem ordinary_offset (distance : Int) : Ordinary n (offset distance) := by
  unfold offset
  split
  · exact ordinary_pure _
  · exact ordinary_outOfRange

end Reading

/-! ### The operand stack and the current call -/

section Thread

/-- What looks at the machine and then succeeds or fails. -/
theorem ordinary_of_match [HasFault ε] {x : EStateM (Halt ε) Machine α}
    {y : Machine → EStateM (Halt ε) Machine α} (hx : ∀ m, x m = y m m)
    (hy : ∀ b m, y (m.against b) = y m) (h : ∀ m, Ordinary n (y m)) : Ordinary n x := by
  have hget : x = get >>= y := funext hx
  rw [hget]
  exact ordinary_get hy h

theorem ordinary_mapStack (g : Array Value → Array Value) :
    Ordinary n (modify (·.mapStack g) : Exec PUnit) :=
  ordinary_modify (u := (·.mapStack g)) (fun _ _ => rfl) (fun _ => rfl) fun _ => .of_frames rfl

theorem ordinary_mapFrame {g : Frame → Frame} (hg : n = 0 → ∀ f : Frame, f.SameSite (g f)) :
    Ordinary n (modify (·.mapFrame g) : Exec PUnit) :=
  ordinary_modify (u := (·.mapFrame g)) (fun _ _ => rfl) (fun _ => rfl) fun _ =>
    Machine.sameSites_mapFrame fun hn f _ => hg hn f

theorem ordinary_valueAt (index : Nat) : Ordinary n (valueAt index) := by
  refine ordinary_of_match (y := fun m => m.thread.stack[index]?.elim outOfRange pure) (fun m => ?_)
    (fun _ _ => rfl) fun m => ?_
  · unfold valueAt
    cases m.thread.stack[index]? <;> rfl
  · cases m.thread.stack[index]? with
    | none => exact ordinary_outOfRange
    | some v => exact ordinary_pure v

theorem ordinary_setValueAt (index : Nat) (v : Value) : Ordinary n (setValueAt index v) := by
  refine ordinary_of_match (y := fun m =>
    if index < m.thread.stack.size then modify (·.mapStack (·.setIfInBounds index v))
      else outOfRange)
    (fun m => ?_) (fun _ _ => rfl) fun m => ?_
  · unfold setValueAt
    split <;> rfl
  · split
    · exact ordinary_mapStack _
    · exact ordinary_outOfRange

theorem ordinary_valuesFrom (start : Nat) : Ordinary n (valuesFrom start) := by
  refine ordinary_of_match (y := fun m =>
    if start ≤ m.thread.stack.size then pure (m.thread.stack.extract start m.thread.stack.size)
    else outOfRange) (fun m => ?_) (fun _ _ => rfl) fun m => ?_
  · unfold valuesFrom
    split <;> rfl
  · split
    · exact ordinary_pure _
    · exact ordinary_outOfRange

theorem ordinary_push (v : Value) : Ordinary n (push v) := by
  refine ordinary_of_match (y := fun m =>
    if m.thread.stack.size < Thread.maxStack then modify (·.mapStack (·.push v))
    else fault (.stackOverflow m.thread.stack.size)) (fun m => ?_) (fun _ _ => rfl) fun m => ?_
  · unfold push
    split <;> rfl
  · split
    · exact ordinary_mapStack _
    · exact ordinary_fault _

theorem ordinary_pushAll (vs : List Value) : Ordinary n (pushAll vs) := by
  induction vs with
  | nil => exact ordinary_pure ()
  | cons v rest ih => exact (ordinary_push v).bind fun _ => ih

theorem ordinary_truncate (height : Nat) : Ordinary n (truncate height) := ordinary_mapStack _

theorem ordinary_pop : Ordinary n pop := by
  refine ordinary_of_match
      (y := fun m => m.thread.stack.back?.elim (fault .stackUnderflow) fun v => do
    modify (·.mapStack (·.pop))
    return v) (fun m => ?_) (fun _ _ => rfl) fun m => ?_
  · unfold pop
    cases m.thread.stack.back? <;> rfl
  · cases m.thread.stack.back? with
    | none => exact ordinary_fault _
    | some v => exact (ordinary_mapStack _).bind fun _ => ordinary_pure v

theorem ordinary_popMany (count : Nat) : Ordinary n (popMany count) := by
  induction count with
  | zero => exact ordinary_pure ()
  | succ count ih => exact ordinary_pop.bind fun _ => ih

theorem ordinary_heightBelow (count : Nat) : Ordinary n (heightBelow count) := by
  refine ordinary_of_match (y := fun m =>
    if count ≤ m.thread.stack.size then pure (m.thread.stack.size - count)
      else fault .stackUnderflow)
    (fun m => ?_) (fun _ _ => rfl) fun m => ?_
  · unfold heightBelow
    split <;> rfl
  · split
    · exact ordinary_pure _
    · exact ordinary_fault _

theorem ordinary_peek (depth : Nat) : Ordinary n (peek depth) :=
  (ordinary_size _).bind fun count => (ordinary_heightBelow count).bind fun height =>
    ordinary_valueAt height

theorem ordinary_setPeek (depth : Nat) (v : Value) : Ordinary n (setPeek depth v) :=
  (ordinary_size _).bind fun count => (ordinary_heightBelow count).bind fun height =>
    ordinary_setValueAt height v

theorem ordinary_enter (f : Frame) : Ordinary 1 (enter f) := by
  refine ordinary_of_match (y := fun m =>
    if m.thread.frames.size < Thread.maxFrames then modify (·.mapFrames (·.push f)) else outOfRange)
    (fun m => ?_) (fun _ _ => rfl) fun m => ?_
  · unfold enter
    split <;> rfl
  · split
    · exact ordinary_modify (u := (·.mapFrames (·.push f))) (fun _ _ => rfl) (fun _ => rfl) fun m =>
        m.sameSites_push f
    · exact ordinary_outOfRange

theorem ordinary_frame : Ordinary n frame := by
  refine ordinary_of_match (y := fun m => ofOption .noFrame m.thread.frames.back?)
    (fun m => ?_) (fun _ _ => rfl) fun m => ordinary_ofOption _ _
  unfold frame
  cases m.thread.frames.back? <;> rfl

theorem sites_moveTo (target : Int) (m : Machine) : m.SameSites n (after (moveTo target) m) := by
  unfold moveTo
  cases hf : m.thread.frames.back? with
  | none =>
    rw [after_of_error (bind_of_error (frame_of_none hf))]
    exact .of_frames rfl
  | some f =>
    rw [after_bind_of_ok (frame_of_back? hf)]
    cases hmoved : f.moveTo target with
    | error c => exact .of_frames rfl
    | ok f' =>
      refine Machine.sameSites_mapFrame fun _ g hg => ?_
      cases hf.symm.trans hg
      unfold Frame.moveTo at hmoved
      split at hmoved <;> cases hmoved
      exact ⟨rfl, rfl, rfl⟩

theorem ordinary_moveTo (target : Int) : Ordinary n (moveTo target) := by
  have hmoves : Ordinary 1 (moveTo target) :=
    ordinary_frame.bind fun f => (ordinary_ofExcept (f.moveTo target)).bind fun _ =>
      ordinary_mapFrame nofun
  exact { hmoves with sites := sites_moveTo target }

theorem ordinary_jump (distance : Int) : Ordinary n (jump distance) :=
  ordinary_frame.bind fun _ => (ordinary_offset _).bind fun target => ordinary_moveTo target

end Thread

end Exec

/-! ### The environment -/

namespace Environment

variable {α : Type}

/-- A function of the environment that does not look at the log, and adds no errors to it. -/
structure Ordinary (f : Environment → α × Environment) : Prop where
  behind : ∀ lines env, f (env.behind lines) = ((f env).1, (f env).2.behind lines)
  log : ∀ env : Environment, env.log.Continues (f env).2.log

theorem ordinary_report (level : Level) (text : Unit → String) (h : level ≠ .error) :
    Ordinary fun env => ((), env.report level text) where
  behind lines env := by
    unfold report behind Log.behind Log.add Log.keeps
    dsimp only
    split
    · rw [Array.append_push]
    · rfl
  log env := .add env.log h

/-- A change of all but the log. -/
theorem ordinary_of_log {f : Environment → α × Environment}
    (hbehind : ∀ lines env, f (env.behind lines) = ((f env).1, (f env).2.behind lines))
    (hlog : ∀ env, (f env).2.log = env.log) : Ordinary f :=
  ⟨hbehind, fun env => by
    rw [hlog]
    exact .refl _⟩

theorem heap_behind (env : Environment) (lines : Array LogEntry) :
    (env.behind lines).heap = env.heap := rfl

theorem classByHash?_behind (env : Environment) (lines : Array LogEntry) :
    (env.behind lines).classByHash? = env.classByHash? := rfl

theorem ordinary_resolveParent (c : Handle) : Ordinary (·.resolveParent c) := by
  refine ordinary_of_log (fun lines env => ?_) fun env => ?_
  · unfold resolveParent
    rw [heap_behind, classByHash?_behind]
    cases env.heap.class? c with
    | none => rfl
    | some k =>
      dsimp only
      cases k.parent with
      | some p => rfl
      | none =>
        dsimp only
        cases k.parentHash.bind env.classByHash? <;> rfl
  · unfold resolveParent
    split
    · rfl
    · split
      · rfl
      · split <;> rfl

theorem ordinary_walk (first : Handle) (hash : UInt32) (left : Nat) (current : Option Handle)
    (bound : Bool) : Ordinary (walk first hash left current bound) := by
  induction left generalizing current bound with
  | zero =>
    cases current with
    | none => exact ordinary_of_log (fun _ _ => rfl) fun _ => rfl
    | some c =>
      have hreport (env : Environment) := ordinary_report .warn
        (fun _ => s!"Inheritance chain of {env.className first} is too deep") nofun
      exact ⟨fun lines env => congrArg (Prod.mk none)
        (Prod.mk.inj ((hreport env).behind lines env)).2,
        fun env => (hreport env).log env⟩
  | succ left ih =>
    cases current with
    | none => exact ordinary_of_log (fun _ _ => rfl) fun _ => rfl
    | some c =>
      constructor
      · intro lines env
        unfold walk
        rw [heap_behind]
        cases env.heap.class? c with
        | none => rfl
        | some k =>
          dsimp only
          cases ownMember? k hash with
          | some v => rfl
          | none =>
            dsimp only
            rw [(ordinary_resolveParent c).behind]
            exact (ih _ _).behind lines _
      · intro env
        unfold walk
        split
        · exact .refl _
        · split
          · exact .refl _
          · exact ((ordinary_resolveParent c).log env).trans ((ih _ _).log _)

theorem ordinary_findMember (c : Handle) (hash : UInt32) : Ordinary (·.findMember c hash) :=
  ordinary_walk c hash maxChain (some c) false

theorem ordinary_hasMember (c : Handle) (hash : UInt32) : Ordinary (·.hasMember c hash) where
  behind lines env := by
    unfold hasMember
    rw [(ordinary_findMember c hash).behind]
  log env := (ordinary_findMember c hash).log env

end Environment

namespace Exec

open Environment

section Environment

variable {n : Nat} {α β : Type}

theorem ordinary_onEnvironment {f : Environment → α × Environment} (hf : Environment.Ordinary f) :
    Ordinary n (onEnvironment f) := by
  refine ordinary_of_ok (g := fun m => ((f m.env).1, ⟨(f m.env).2, m.thread⟩)) (fun _ => rfl)
    (fun b m => ?_) (fun m => hf.log m.env) fun _ => .of_frames rfl
  show ((f (m.env.behind b.lines)).1, (⟨(f (m.env.behind b.lines)).2, _⟩ : Machine)) = _
  rw [hf.behind]
  rfl

/-- A change of the environment that leaves the log alone. -/
theorem ordinary_mapEnvironment {u : Environment → Environment}
    (hu : ∀ lines env, u (env.behind lines) = (u env).behind lines)
    (hlog : ∀ env, (u env).log = env.log) : Ordinary n (mapEnvironment u) :=
  ordinary_onEnvironment
    (ordinary_of_log (fun lines env => congrArg (Prod.mk ()) (hu lines env)) hlog)

theorem ordinary_mapHeap (u : Heap → Heap) : Ordinary n (mapHeap u) :=
  ordinary_mapEnvironment (u := (·.mapHeap u)) (fun _ _ => rfl) fun _ => rfl

theorem ordinary_mapCells (g : Cells → Cells) : Ordinary n (mapCells g) :=
  ordinary_mapEnvironment
    (u := fun env => { env with memory := { env.memory with cells := g env.memory.cells } })
    (fun _ _ => rfl) fun _ => rfl

theorem ordinary_onMemory (f : Memory → α × Memory) : Ordinary n (onMemory f) :=
  ordinary_onEnvironment (ordinary_of_log
    (f := fun env => ((f env.memory).1, { env with memory := (f env.memory).2 })) (fun _ _ => rfl)
    fun _ => rfl)

theorem ordinary_alloc (o : Obj) : Ordinary n (alloc o) := ordinary_onMemory _

theorem ordinary_line (level : Level) (text : Unit → String) (h : level ≠ .error) :
    Ordinary n (report level text) :=
  ordinary_onEnvironment (Environment.ordinary_report level text h)

theorem ordinary_search (c : Handle) (hash : UInt32) :
    Ordinary n (onEnvironment (·.findMember c hash)) :=
  ordinary_onEnvironment (ordinary_findMember c hash)

theorem ordinary_parent (c : Handle) : Ordinary n (onEnvironment (·.resolveParent c)) :=
  ordinary_onEnvironment (ordinary_resolveParent c)

end Environment

/-! ### Calls -/

section Calls

variable {n : Nat}

theorem ordinary_callNative (name : String) (passed consumed : Nat) :
    Ordinary n (callNative name passed consumed) := by
  refine (ordinary_heightBelow passed).bind fun start => ?_
  refine (ordinary_heightBelow consumed).bind fun base => ?_
  refine (ordinary_valuesFrom start).bind fun args => ?_
  refine ordinary_environment (fun _ _ => rfl) fun env => ?_
  refine (ordinary_onMemory _).bind fun result => (ordinary_ofExcept result).bind fun v => ?_
  exact (ordinary_truncate base).bind fun _ => ordinary_push v

theorem ordinary_call (function : Handle) (argc : Nat) : Ordinary 1 (call function argc) := by
  refine ordinary_get (fun _ _ => rfl) fun m => (ordinary_ofOption _ _).bind fun f => ?_
  split
  · exact ordinary_fault _
  · split
    · exact ordinary_fault _
    · refine (ordinary_size _).bind fun count => ?_
      exact (ordinary_heightBelow count).bind fun slots => ordinary_enter _

theorem ordinary_callCallee (callee : Value) (argc : Nat) :
    Ordinary 1 (callCallee callee argc) := by
  refine ordinary_environment (fun _ _ => rfl) fun env => ?_
  cases callee with
  | object h =>
    dsimp only
    split
    · exact (ordinary_setPeek argc _).bind fun _ => ordinary_call _ argc
    · exact ordinary_call h argc
    · exact ordinary_callNative _ _ _
    · exact ordinary_fault _
  | _ => exact ordinary_fault _

theorem ordinary_callValue (argc : Nat) : Ordinary 1 (callValue argc) :=
  (ordinary_peek argc).bind fun callee => ordinary_callCallee callee argc

theorem ordinary_callForObject (callable : Value) (argc : Nat) :
    Ordinary 1 (callForObject callable argc) := by
  refine ordinary_environment (fun _ _ => rfl) fun env => ?_
  cases callable with
  | object h =>
    dsimp only
    split
    · exact ordinary_callNative _ _ _
    · exact ordinary_callCallee _ argc
  | _ => exact ordinary_fault _

theorem ordinary_invokeFromClass (c : Handle) (hash : UInt32) (argc : Nat) :
    Ordinary 1 (invokeFromClass c hash argc) := by
  refine (ordinary_search c hash).bind fun found => ?_
  cases found with
  | some method => exact ordinary_cells.bind fun cells => ordinary_callForObject _ argc
  | none => exact ordinary_environment (fun _ _ => rfl) fun _ => ordinary_fault _

theorem ordinary_invokeOnInstance (i : InstanceObject) (hash : UInt32) (argc : Nat)
    (isSuper : Bool) : Ordinary 1 (invokeOnInstance i hash argc isSuper) := by
  unfold invokeOnInstance
  split
  · refine (ordinary_parent i.classHandle).bind fun parent => ?_
    cases parent with
    | some parent => exact ordinary_invokeFromClass parent hash argc
    | none => exact ordinary_fault _
  · split
    · exact ordinary_cells.bind fun cells => ordinary_callCallee _ argc
    · exact ordinary_invokeFromClass i.classHandle hash argc

theorem ordinary_invokeOnClass (c : Handle) (hash : UInt32) (argc : Nat) :
    Ordinary 1 (invokeOnClass c hash argc) := by
  refine (ordinary_search c hash).bind fun found => ?_
  cases found with
  | some method => exact ordinary_cells.bind fun cells => ordinary_callCallee _ argc
  | none => exact ordinary_environment (fun _ _ => rfl) fun _ => ordinary_fault _

theorem ordinary_invoke (hash : UInt32) (argc : Nat) (isSuper : Bool) :
    Ordinary 1 (invoke hash argc isSuper) := by
  refine (ordinary_peek argc).bind fun v => ?_
  cases v with
  | object h =>
    refine ordinary_environment (fun _ _ => rfl) fun env => ?_
    split
    · exact ordinary_invokeOnInstance _ hash argc isSuper
    · exact ordinary_invokeOnClass h hash argc
    · exact ordinary_fault _
  | _ => exact ordinary_fault _

theorem ordinary_instantiate (argc : Nat) : Ordinary 1 (instantiate argc) := by
  refine (ordinary_peek argc).bind fun callee => ordinary_environment (fun _ _ => rfl) fun env => ?_
  refine (ordinary_ofOption _ _).bind fun c => (ordinary_alloc _).bind fun h => ?_
  refine (ordinary_setPeek argc _).bind fun _ => ordinary_environment (fun _ _ => rfl) fun env => ?_
  split
  · exact ordinary_callForObject _ argc
  · split
    · exact ordinary_pure ()
    · exact ordinary_fault _

end Calls
end Exec
end ScriptVm
