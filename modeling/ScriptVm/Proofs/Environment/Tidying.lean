import ScriptVm.Proofs.Environment.Retention
import ScriptVm.Proofs.Machine.Reading

/-!
# What collections do to an environment

A collection changes the memory, and notes in the log what it did. Nothing else of an environment is
touched, whether or not the next threshold is in range.

* `Log.Chatter` says that a log got nothing but lines for debugging.
* `Purged` is the environment after a collection with given roots, `Tidied` that after a collection
  was asked for or forced, which may do nothing.
* `collect_eq`, `tidies_force` and `tidies_request` say that this is all, and when a collection
  fails. `dispose_cases` does the same for the two collections of a disposal.
-/

namespace ScriptVm

/-! ### Lines for debugging -/

/-- A log got lines for debugging and no others. -/
structure Log.Chatter (log log' : Log) : Prop where
  limit : log'.limit = log.limit
  lines : ∃ lines : List LogEntry, (∀ l ∈ lines, l.level = .debug) ∧
    log'.entries = log.entries ++ lines.toArray

namespace Log.Chatter

variable {log log' log'' : Log}

theorem refl (log : Log) : log.Chatter log :=
  ⟨rfl, [], fun _ hl => absurd hl List.not_mem_nil, by simp⟩

theorem trans (h : log.Chatter log') (h' : log'.Chatter log'') : log.Chatter log'' := by
  obtain ⟨lines, hdebug, hentries⟩ := h.lines
  obtain ⟨lines', hdebug', hentries'⟩ := h'.lines
  refine ⟨h'.limit.trans h.limit, lines ++ lines', List.forall_mem_append.2 ⟨hdebug, hdebug'⟩, ?_⟩
  simp [hentries', hentries]

theorem add (log : Log) (text : Unit → String) : log.Chatter (log.add .debug text) := by
  unfold Log.add
  split
  · exact ⟨rfl, [⟨.debug, text ()⟩], by simp, by simp⟩
  · exact .refl log

end Log.Chatter

namespace Environment

variable {env env' env'' : Environment} {roots : List Handle} {threads : List Thread}

/-- Only the log is another, by lines for debugging. -/
def Chatter (env env' : Environment) : Prop :=
  ∃ log, env.log.Chatter log ∧ env' = { env with log }

/-- The environment after what some roots do not reach was removed. -/
def Purged (roots : List Handle) (env env' : Environment) : Prop :=
  Chatter { env with memory := (env.memory.collect roots).2 } env'

/-- The environment after a collection, if there was one. -/
def Tidied (threads : List Thread) (env env' : Environment) : Prop :=
  env.Chatter env' ∨ env.Purged (env.roots threads) env'

theorem Chatter.refl (env : Environment) : env.Chatter env := ⟨env.log, .refl _, rfl⟩

theorem Chatter.trans (h : env.Chatter env') (h' : env'.Chatter env'') : env.Chatter env'' := by
  obtain ⟨log, hlog, rfl⟩ := h
  obtain ⟨log', hlog', rfl⟩ := h'
  exact ⟨log', hlog.trans hlog', rfl⟩

theorem chatter_report (env : Environment) (text : Unit → String) :
    env.Chatter (env.report .debug text) :=
  ⟨_, .add env.log text, rfl⟩

theorem chatter_reportAll (lines : List String) (env : Environment) :
    env.Chatter (lines.foldl (fun env line => env.report .debug fun _ => line) env) := by
  induction lines generalizing env with
  | nil => exact .refl env
  | cons line rest ih => exact (env.chatter_report fun _ => line).trans (ih _)

theorem Tidied.chatter (h : env.Tidied threads env') (h' : env'.Chatter env'') :
    env.Tidied threads env'' :=
  h.imp (·.trans h') (·.trans h')

theorem heap_collect_memory (mem : Memory) (roots : List Handle) :
    (mem.collect roots).2.heap = (mem.heap.collect roots).heap :=
  (Memory.foldl_reclaim _ _).1

/-! ### Collections -/

/-- A collection fails exactly if the next threshold is out of range, and sweeps in any case. -/
theorem collect_eq (env : Environment) (roots : List Handle) :
    ∃ env', env.Purged roots env' ∧
      collect roots env = if (env.heap.collect roots).overflow then .error .mk env'
        else .ok (env.heap.collect roots).report env' :=
  ⟨_, chatter_reportAll (env.heap.collect roots).lines _, rfl⟩

/-- What an action that may collect leaves: it fails only if the next threshold is out of range. -/
structure Tidies {α : Type} (threads : List Thread) (env : Environment) (x : Collect α) : Prop where
  ok : ∀ a env', x env = .ok a env' → env.Tidied threads env'
  error : ∀ e env', x env = .error e env' →
    env.Purged (env.roots threads) env' ∧ (env.heap.collect (env.roots threads)).overflow = true

theorem tidies_of_ok {α : Type} {x : Collect α} {a : α} (hx : x env = .ok a env')
    (ht : env.Tidied threads env') : Tidies threads env x := by
  refine ⟨fun b env₁ h => ?_, fun e env₁ h => ?_⟩
  all_goals
    rw [hx] at h
    cases h
  exact ht

theorem tidies_of_error {α : Type} {x : Collect α} {e : SizeOverflow} (hx : x env = .error e env')
    (hpurged : env.Purged (env.roots threads) env')
    (hover : (env.heap.collect (env.roots threads)).overflow = true) : Tidies threads env x := by
  refine ⟨fun a env₁ h => ?_, fun e₁ env₁ h => ?_⟩
  all_goals
    rw [hx] at h
    cases h
  exact ⟨hpurged, hover⟩

theorem tidies_force (threads : List Thread) (env : Environment) :
    Tidies threads env (force threads) := by
  by_cases hactive : 1 < env.activeThreads
  · exact tidies_of_ok (if_pos hactive) (.inl (env.chatter_report _))
  · have hforce : force threads env = EStateM.map some (collect (env.roots threads)) env :=
      if_neg hactive
    obtain ⟨env₁, hpurged, hcollect⟩ := env.collect_eq (env.roots threads)
    rw [EStateM.map, hcollect] at hforce
    by_cases hover : (env.heap.collect (env.roots threads)).overflow = true
    · rw [if_pos hover] at hforce
      exact tidies_of_error hforce hpurged hover
    · rw [if_neg hover] at hforce
      exact tidies_of_ok hforce (.inr hpurged)

theorem tidies_request (threads : List Thread) (env : Environment) :
    Tidies threads env (request threads) := by
  have hforce := tidies_force threads env
  by_cases hfull : env.heap.shouldCollect = true
  · have hrequest : request threads env = _ := if_pos hfull
    dsimp only at hrequest
    cases hrun : force threads env with
    | ok report env₁ =>
      have htidied := hforce.ok _ _ hrun
      rw [hrun] at hrequest
      cases report with
      | none => exact tidies_of_ok hrequest htidied
      | some report => exact tidies_of_ok hrequest (htidied.chatter (env₁.chatter_report _))
    | error e env₁ =>
      rw [hrun] at hrequest
      obtain ⟨hpurged, hover⟩ := hforce.error _ _ hrun
      exact tidies_of_error hrequest hpurged hover
  · exact tidies_of_ok (if_neg hfull) (.inl (.refl env))

/-! ### Disposal -/

/-- Taking everything down is two collections, the second without roots. Either may leave the range
of sizes, and then nothing after it is done. -/
theorem dispose_cases (threads : List Thread) (env : Environment) :
    ∃ env₁ env₂, env.keepDefinitions.Tidied threads env₁ ∧ env₁.forget.Purged [] env₂ ∧
      ((dispose threads env = .error .mk env₁ ∧
          (env.heap.collect (env.keepDefinitions.roots threads)).overflow = true) ∨
        dispose threads env =
          if (env₁.heap.collect []).overflow then .error .mk env₂ else .ok () env₂) := by
  have hforce := tidies_force threads env.keepDefinitions
  have hfirst : dispose threads env = (force threads >>= fun _ => _) env.keepDefinitions :=
    Exec.bind_of_ok rfl
  cases hrun : force threads env.keepDefinitions with
  | error e env₁ =>
    obtain ⟨hpurged, hover⟩ := hforce.error _ _ hrun
    obtain ⟨env₂, hlast, -⟩ := env₁.forget.collect_eq []
    exact ⟨env₁, env₂, .inr hpurged, hlast, .inl ⟨hfirst.trans (Exec.bind_of_error hrun), hover⟩⟩
  | ok report env₁ =>
    have hsecond : dispose threads env = (collect [] >>= fun _ => pure ())
        (env₁.report _ _).forget :=
      hfirst.trans <| (Exec.bind_of_ok hrun).trans <|
        (Exec.bind_of_ok rfl).trans (Exec.bind_of_ok rfl)
    obtain ⟨env₂, hlast, hcollect⟩ := (env₁.report _ _).forget.collect_eq []
    refine ⟨_, env₂, (hforce.ok _ _ hrun).chatter (env₁.chatter_report _), hlast, .inr ?_⟩
    rw [hsecond]
    split
    · rename_i hover
      exact Exec.bind_of_error (hcollect.trans (if_pos hover))
    · rename_i hover
      exact Exec.bind_of_ok (hcollect.trans (if_neg hover))

end Environment
end ScriptVm
