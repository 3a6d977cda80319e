import ScriptVm.Proofs.Machine.Execution

/-!
# Watched runs

Watching an execution changes nothing unless it halts it.

* `Refines` says that an action does what another does, unless it overflows. It is kept by all that
  takes an executor, from protected runs to whole steps.
* `watch_refines` is the induction on the number of steps; `watch_eq_execute` is the case in which
  nothing can halt it.
-/

namespace ScriptVm
namespace Exec

variable {ε δ α β : Type} {executor executor' : Exec Unit}

/-- An action does what another does, unless it overflows. -/
def Refines (x y : EStateM (Halt ε) Machine α) : Prop :=
  ∀ m, x m = y m ∨ ∃ m', x m = .error .overflow m'

namespace Refines

variable {x y : EStateM (Halt ε) Machine α}

theorem refl (x : EStateM (Halt ε) Machine α) : Refines x x := fun _ => .inl rfl

theorem bind {f g : α → EStateM (Halt ε) Machine β} (hx : Refines x y)
    (hf : ∀ a, Refines (f a) (g a)) : Refines (x >>= f) (y >>= g) := by
  intro m
  show EStateM.bind x f m = EStateM.bind y g m ∨ ∃ m', EStateM.bind x f m = _
  unfold EStateM.bind
  rcases hx m with heq | ⟨m', hover⟩
  · rw [heq]
    cases y m with
    | ok a m₁ => exact hf a m₁
    | error e m₁ => exact .inl rfl
  · rw [hover]
    exact .inr ⟨m', rfl⟩

/-- What comes first may be left as it is. -/
theorem after {f g : α → EStateM (Halt ε) Machine β} (hf : ∀ a, Refines (f a) (g a)) :
    Refines (x >>= f) (x >>= g) :=
  (refl x).bind hf

theorem map (f : α → β) (hx : Refines x y) : Refines (f <$> x) (f <$> y) := by
  intro m
  show EStateM.map f x m = EStateM.map f y m ∨ ∃ m', EStateM.map f x m = _
  unfold EStateM.map
  rcases hx m with heq | ⟨m', hover⟩
  · exact .inl (by rw [heq])
  · rw [hover]
    exact .inr ⟨m', rfl⟩

theorem adaptExcept (f : ε → δ) (hx : Refines x y) :
    Refines (EStateM.adaptExcept (Halt.map f) x) (EStateM.adaptExcept (Halt.map f) y) := by
  intro m
  unfold EStateM.adaptExcept
  rcases hx m with heq | ⟨m', hover⟩
  · exact .inl (by rw [heq])
  · rw [hover]
    exact .inr ⟨m', rfl⟩

/-- A run refines another if its body does: an overflow passes through. -/
theorem runProtected {body body' : Exec Unit} (hb : Refines body body') :
    Refines (runProtected body) (runProtected body') := by
  intro m
  have hrun : Refines (body *> pop) (body' *> pop) := hb.bind fun _ => refl pop
  unfold Exec.runProtected
  rcases hrun m.beginRun with heq | ⟨m', hover⟩
  · exact .inl (by rw [heq])
  · simp only [hover]
    exact .inr ⟨_, rfl⟩

end Refines

/-! ### What takes an executor -/

section Executors

variable (he : Refines executor executor')

include he

theorem refines_runValue (v : Value) (args : List Value) :
    Refines (runValue executor v args) (runValue executor' v args) :=
  Refines.runProtected (.after fun _ => .after fun _ => .after fun _ => he)

theorem refines_invokeForObject (v receiver : Value) (args : List Value) :
    Refines (invokeForObject executor v receiver args)
      (invokeForObject executor' v receiver args) :=
  Refines.runProtected (.after fun _ => .after fun _ => .after fun _ => he)

theorem refines_callInitializer (h : Handle) :
    Refines (callInitializer executor h) (callInitializer executor' h) := by
  have hinvoke : ∀ init : Value, Refines
      (do let _ ← invokeForObject executor init (.object h) [])
      (do let _ ← invokeForObject executor' init (.object h) []) := fun init =>
    (refines_invokeForObject he init (.object h) []).bind fun _ => .refl _
  refine .after fun env => .after fun i => ?_
  split
  · exact .refl _
  · split
    · split
      · exact hinvoke _
      · exact .refl _
    · exact hinvoke _

theorem refines_runFile (bytes : List UInt8) (file : UInt32) :
    Refines (Load.runFile executor bytes file) (Load.runFile executor' bytes file) := by
  refine .after fun module => .after fun m => ?_
  split
  · exact ((refines_runValue he _ []).adaptExcept _).bind fun _ => .refl _
  · exact .refl _

theorem refines_loadFiles (name : String) (count : Nat) (files : List UInt32) (first : Bool) :
    Refines (Load.loadFiles executor name count first files)
      (Load.loadFiles executor' name count first files) := by
  induction files generalizing first with
  | nil => exact .refl _
  | cons file rest ih =>
    refine .after fun found => ?_
    cases found with
    | cached => exact ih false
    | absent => exact .refl _
    | fresh bytes =>
      have hrest := (refines_runFile he bytes file).bind fun _ => ih false
      dsimp only
      split
      · exact .after fun _ => hrest
      · exact hrest

theorem refines_loadClass (name : String) :
    Refines (Load.loadClass executor name) (Load.loadClass executor' name) := by
  unfold Load.loadClass
  split
  · exact .refl _
  · refine .after fun m => ?_
    split
    · split
      · exact .refl _
      · exact (refines_loadFiles he name _ _ true).bind fun _ => .refl _
    · exact .refl _

theorem refines_perform (i : Instruction) :
    Refines (perform executor i) (perform executor' i) := by
  cases i with
  | importClass index =>
    refine .after fun v => .after fun mem => ?_
    split
    · exact .refl _
    · exact ((refines_loadClass he _).adaptExcept _).bind fun _ => .refl _
  | _ => exact .refl _

theorem refines_step : Refines (step executor) (step executor') := by
  refine .after fun p => .after fun m => .after fun _ => .after fun _ => ?_
  split
  · exact .refl _
  · exact .after fun _ => refines_perform he _

theorem refines_evaluate (target : Handle) :
    Refines (evaluate executor target) (evaluate executor' target) := by
  intro m
  unfold evaluate
  rcases refines_runValue he (.object target) [] m with heq | ⟨m', hover⟩
  · exact .inl (by rw [heq])
  · simp only [hover]
    exact .inr ⟨m', rfl⟩

theorem refines_checkBreakpoint :
    Refines (checkBreakpoint executor) (checkBreakpoint executor') := by
  have hobserve : ∀ command function offset, Refines (observe executor command function offset)
      (observe executor' command function offset) := by
    intro command function offset
    refine .after fun m => ?_
    dsimp only
    split
    · exact .refl _
    · exact ((refines_evaluate he _).map _).bind fun _ => .refl _
  refine .after fun m => ?_
  dsimp only
  split
  · split
    · refine .after fun _ => .after fun _ => .after fun _ => .after fun _ => .after fun _ => ?_
      exact (hobserve _ _ _).bind fun _ => .refl _
    · exact .refl _
  · exact .refl _

end Executors

/-- A watched execution is an execution, unless what is expected fails. -/
theorem watch_refines (expected : Machine → Bool) (fuel : Nat) :
    Refines (watch expected fuel) (execute fuel) := by
  induction fuel with
  | zero => exact .refl _
  | succ fuel ih =>
    rw [execute_succ]
    refine .after fun m => ?_
    split
    · refine (refines_checkBreakpoint ih).bind fun _ => ?_
      have hround : Refines (expect expected >>= fun _ => do
          step (watch expected fuel)
          watch expected fuel) (do
          step (execute fuel)
          execute fuel) := by
        intro m₁
        show EStateM.bind (expect expected) _ m₁ = _ ∨
          ∃ m', EStateM.bind (expect expected) _ m₁ = _
        unfold EStateM.bind expect
        by_cases htrue : expected m₁ = true
        · simp only [htrue, if_true]
          exact (refines_step ih).bind (fun _ => ih) m₁
        · simp only [htrue]
          exact .inr ⟨m₁, rfl⟩
      exact hround
    · exact .refl _

/-- Watching for what is always so is nothing but executing. -/
theorem watch_eq_execute {expected : Machine → Bool} (hall : ∀ m, expected m = true) (fuel : Nat) :
    watch expected fuel = execute fuel := by
  induction fuel with
  | zero => rfl
  | succ fuel ih =>
    have hexpect : expect expected = pure () := by
      funext m
      exact if_pos (hall m)
    rw [execute_succ]
    refine bind_congr fun m => ?_
    rw [ih, hexpect]
    rfl

end Exec
end ScriptVm
