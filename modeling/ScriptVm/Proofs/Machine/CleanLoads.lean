import ScriptVm.Proofs.Machine.Bookkeeping

/-!
# Loads that succeed

A failure ends whatever it happens in: the file that imports a failing file fails, and so does the
load that all of it belongs to. Only what a debugger evaluates may fail and be forgotten.

* `Machine.Unwatched` are the machines that no debugger looks at.
* `Traced.Clean` says that an action that succeeds on such a machine has no failure
  among its events.
* `clean_executeBreaking` is the induction on the number of steps; an import is the only instruction
  with events.
-/

namespace ScriptVm

/-- No debugger looks at the machine. -/
def Machine.Unwatched (m : Machine) : Prop := m.thread.debug.debugger = none

theorem Machine.Unwatched.still {m m' : Machine} (hm : m.Unwatched) (hs : m.Still m') :
    m'.Unwatched := by
  unfold Machine.Unwatched
  rw [hs.debug]
  exact hm

namespace Load

variable {m m' : Machine}

/-- Fetching a file is nothing to the thread. -/
theorem thread_of_fetch {file : UInt32} {found : Fetched} (hrun : fetch file m = .ok found m') :
    m'.thread = m.thread := by
  rw [← Exec.after_of_ok hrun, after_fetch]

/-- Registering a class is nothing to the thread. -/
theorem thread_of_bindClass {name : String} {hash : UInt32} {bound : Bool}
    (hrun : bindClass name hash m = .ok bound m') : m'.thread = m.thread := by
  cases hl : m.env.loader with
  | none =>
    have hfalse : bindClass name hash m = .ok false m := by
      refine (Exec.bind_of_ok rfl).trans ?_
      rw [hl]
      rfl
    cases hrun.symm.trans hfalse
    rfl
  | some l =>
    rcases bindClass_cases hl name hash with ⟨-, hcase⟩ | ⟨-, -, env, hcase, -⟩ |
      ⟨c, env, binder, -, -, hcase, -⟩
    all_goals
      cases hrun.symm.trans hcase
    all_goals rfl

end Load

namespace Traced

/-! ### Rules -/

section Rules

variable {ε α β : Type} {x : Traced ε Machine α} {g : α → Traced ε Machine β}

/-- Where no debugger looks, an action that succeeds leaves it so and has no failure as an event. -/
def Clean (x : Traced ε Machine α) : Prop :=
  ∀ m a m', m.Unwatched → x.run m = .ok a m' →
    m'.Unwatched ∧ ∀ file, .failed file ∉ x.events m

theorem clean_lift {y : EStateM (Halt ε) Machine α}
    (hy : ∀ m a m', y m = .ok a m' → m'.thread = m.thread) : (lift y).Clean := by
  intro m a m' hm hrun
  refine ⟨?_, fun _ => nofun⟩
  unfold Machine.Unwatched
  rw [hy m a m' hrun]
  exact hm

theorem clean_still {y : EStateM (Halt ε) Machine α} (hy : Exec.Keeps Machine.Still y) :
    (lift y).Clean := by
  intro m a m' hm hrun
  have hstill : m.Still m' := Exec.after_of_ok (x := y) hrun ▸ hy m
  exact ⟨hm.still hstill, fun _ => nofun⟩

theorem clean_pure (a : α) : (pure a : Traced ε Machine α).Clean :=
  clean_still fun m => .refl m

theorem Clean.bind (hx : x.Clean) (hg : ∀ a, (g a).Clean) : (x >>= g).Clean := by
  intro m b m' hm hrun
  obtain ⟨a, m₁, hfirst, hsecond⟩ := Exec.bind_eq_ok.1 hrun
  obtain ⟨hm₁, hclean⟩ := hx m a m₁ hm hfirst
  obtain ⟨hm', hclean'⟩ := hg a m₁ b m' hm₁ hsecond
  rw [events_bind_of_ok hfirst]
  exact ⟨hm', fun file hf => (List.mem_append.1 hf).elim (hclean file) (hclean' file)⟩

/-- Changing the error changes nothing of a success. -/
theorem clean_adaptExcept {δ : Type} (hx : x.Clean) (f : ε → δ) :
    (⟨EStateM.adaptExcept (Halt.map f) x.run, x.events⟩ : Traced δ Machine α).Clean := by
  intro m a m' hm hrun
  dsimp only at hrun
  unfold EStateM.adaptExcept at hrun
  cases hend : x.run m with
  | ok b m₁ =>
    rw [hend] at hrun
    cases hrun
    exact hx m a m' hm hend
  | error e m₁ =>
    rw [hend] at hrun
    cases hrun

end Rules

/-! ### Loading -/

section Loading

variable {executor body : Traced Fault Machine Unit}

theorem clean_runProtected (hb : body.Clean) : (runProtected body).Clean := by
  intro m v m' hm hrun
  have hbegun : m.beginRun.Unwatched := hm
  have hpopped : (body >>= fun _ => lift Exec.pop).Clean :=
    hb.bind fun _ => clean_still Exec.keeps_pop
  change Exec.runProtected body.run m = _ at hrun
  unfold Exec.runProtected at hrun
  cases hends : (body.run *> Exec.pop) m.beginRun with
  | error e m₁ =>
    rw [hends] at hrun
    cases e <;> cases hrun
  | ok u m₁ =>
    rw [hends] at hrun
    cases hrun
    obtain ⟨hm₁, hclean⟩ := hpopped m.beginRun v m₁ hbegun hends
    rw [events_bind_lift] at hclean
    exact ⟨hm₁, hclean⟩

theorem clean_runValue (he : executor.Clean) (callee : Value) (args : List Value) :
    (runValue executor callee args).Clean := by
  refine clean_runProtected ?_
  refine (clean_still (Exec.keeps_push callee)).bind fun _ => ?_
  refine (clean_still (Exec.keeps_pushAll args)).bind fun _ => ?_
  exact (clean_still (Exec.keeps_callValue args.length)).bind fun _ => he

theorem clean_runEntry (he : executor.Clean) (bytes : List UInt8) (file : UInt32) :
    (runEntry executor bytes file).Clean := by
  refine (clean_still (Exec.keeps_readModule bytes file)).bind fun module => ?_
  refine (clean_still Exec.keeps_get).bind fun m => ?_
  split
  · exact (clean_adaptExcept (clean_runValue he _ []) _).bind fun _ => clean_pure ()
  · exact clean_pure ()

theorem clean_runFile (he : executor.Clean) (bytes : List UInt8) (file : UInt32) :
    (runFile executor bytes file).Clean := by
  intro m a m' hm hrun
  change (runEntry executor bytes file).run m = _ at hrun
  obtain ⟨hm', hclean⟩ := clean_runEntry he bytes file m a m' hm hrun
  have hevents : (runFile executor bytes file).events m =
      .started file bytes :: (runEntry executor bytes file).events m ++ [.completed file] := by
    unfold runFile
    dsimp only
    rw [hrun]
  refine ⟨hm', fun f hf => ?_⟩
  rw [hevents] at hf
  rcases List.mem_append.1 hf with hf | hf
  · rcases List.mem_cons.1 hf with heq | hf
    · cases heq
    · exact hclean f hf
  · cases List.mem_singleton.1 hf

theorem clean_fetch (file : UInt32) : (lift (Load.fetch file)).Clean :=
  clean_lift fun _ _ _ => Load.thread_of_fetch

theorem clean_loadReport (level : Level) (text : Unit → String) :
    (lift (Load.report level text)).Clean :=
  clean_still (Exec.keeps_loadReport level text)

theorem clean_loadScript (he : executor.Clean) (file : UInt32) :
    (loadScript executor file).Clean := by
  refine (clean_fetch file).bind fun found => ?_
  cases found with
  | cached => exact clean_pure true
  | absent => exact (clean_loadReport _ _).bind fun _ => clean_pure false
  | fresh bytes => exact (clean_runFile he bytes file).bind fun _ => clean_pure true

theorem clean_loadFiles (he : executor.Clean) (name : String) (count : Nat) (first : Bool)
    (files : List UInt32) : (loadFiles executor name count first files).Clean := by
  induction files generalizing first with
  | nil => exact clean_pure true
  | cons file rest ih =>
    refine (clean_fetch file).bind fun found => ?_
    cases found with
    | cached => exact ih false
    | absent => exact (clean_loadReport _ _).bind fun _ => clean_pure false
    | fresh bytes =>
      have hrest : (do
          runFile executor bytes file
          loadFiles executor name count false rest).Clean :=
        (clean_runFile he bytes file).bind fun _ => ih false
      cases first with
      | false => exact hrest
      | true => exact (clean_loadReport _ _).bind fun _ => hrest

theorem clean_bindClass (name : String) (hash : UInt32) : (bindClass name hash).Clean := by
  intro m a m' hm hrun
  refine ⟨?_, fun file hf => ?_⟩
  · unfold Machine.Unwatched
    rw [Load.thread_of_bindClass hrun]
    exact hm
  · unfold bindClass at hf
    dsimp only at hf
    split at hf
    · split at hf
      · cases hf
      · cases List.mem_singleton.1 hf
    · cases hf

theorem clean_loadClass (he : executor.Clean) (name : String) :
    (loadClass executor name).Clean := by
  unfold loadClass
  split
  · exact clean_pure false
  · refine (clean_still Exec.keeps_get).bind fun m => ?_
    split
    · split
      · exact (clean_loadReport _ _).bind fun _ => clean_pure false
      · refine (clean_loadFiles he name _ true _).bind fun loaded => ?_
        split
        · exact clean_bindClass name _
        · exact clean_pure false
    · exact clean_pure false

/-! ### Steps -/

theorem clean_importClass (he : executor.Clean) (index : Nat) :
    (importClass executor index).Clean := by
  refine (clean_still (Exec.keeps_constantAt index)).bind fun v => ?_
  refine (clean_still Exec.keeps_memory).bind fun mem => ?_
  split
  · exact clean_still (Exec.keeps_fault _)
  · refine (clean_adaptExcept (clean_loadClass he _) _).bind fun loaded => ?_
    split
    · exact clean_pure ()
    · exact clean_still (Exec.keeps_fault _)

theorem clean_step (he : executor.Clean) : (step executor).Clean := by
  refine (clean_still Exec.keeps_advance).bind fun i => ?_
  unfold perform
  split
  · exact clean_importClass he _
  · rename_i hi
    exact clean_still (Exec.still_perform hi executor.run)

/-- Without a debugger there are no breaks. -/
theorem checkBreakpoint_of_none {executor : Exec Unit} {m : Machine} (hm : m.Unwatched) :
    Exec.checkBreakpoint executor m = .ok () m := by
  refine (Exec.bind_of_ok rfl).trans ?_
  rw [hm]
  cases m.thread.frames.back? <;> rfl

theorem clean_checkBreakpoint : (checkBreakpoint executor).Clean := by
  intro m a m' hm hrun
  rw [run_checkBreakpoint] at hrun
  cases (checkBreakpoint_of_none hm).symm.trans hrun
  have hevents : (checkBreakpoint executor).events m = [] := by
    have hnone : m.thread.debug.debugger = none := hm
    refine (events_bind_of_ok (x := lift get) (s := m) rfl).trans ?_
    dsimp only
    rw [hnone]
    cases m.thread.frames.back? <;> rfl
  rw [hevents]
  exact ⟨hm, fun _ => nofun⟩

theorem clean_executeBreaking (fuel : Nat) : (executeBreaking fuel).Clean := by
  induction fuel with
  | zero =>
    refine clean_still fun m => ?_
    rw [Exec.after_execute_zero]
    exact .refl m
  | succ fuel ih =>
    refine (clean_still Exec.keeps_get).bind fun m => ?_
    split
    · exact clean_checkBreakpoint.bind fun _ => (clean_step ih).bind fun _ => ih
    · exact clean_pure ()

end Loading
end Traced
end ScriptVm
