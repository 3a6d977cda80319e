import ScriptVm.Proofs.Machine.ParallelSteps
import ScriptVm.Proofs.Registry.FrameProtection
import ScriptVm.Proofs.Registry.Workings

/-!
# Registries that mirror each other

The same calls on two registries that mirror each other have the same answers, whenever either of
them collects.

* `Call` is a call that scripts answer. `answers` are the answers to a list of calls, one after the
  other, and `finish` is the registry that they leave.
* `Spacious` says that none of the calls ends for want of room on the heap.
* `DebugState.QuietFor` says that breakpoints stay out of the way for some collections.
* `Alike` relates two registries between calls. `Alike.call` is about one call, `Alike.serve` about
  lists of them.
-/

namespace ScriptVm

/-! ### Breakpoints -/

/-- Breaks are at functions that are gone at most, and stay so while slots move on. -/
def DebugState.QuietFor (s : DebugState) (generation : Nat → UInt32) (n : Nat) : Prop :=
  ∀ function offset, s.shouldBreak function offset = true →
    ∀ k ≤ n, generation function.index + UInt32.ofNat k ≠ function.generation

namespace DebugState.QuietFor

variable {s : DebugState} {generation generation' : Nat → UInt32} {n k : Nat}

theorem quiet (h : s.QuietFor generation n) : s.Quiet generation := by
  intro function offset hbreak
  simpa using h function offset hbreak 0 (Nat.zero_le n)

theorem mono (h : s.QuietFor generation n) (hk : k ≤ n) : s.QuietFor generation k :=
  fun function offset hbreak j hj => h function offset hbreak j (Nat.le_trans hj hk)

/-- A collection moves slots on by one generation at most. -/
theorem next (h : s.QuietFor generation (n + 1))
    (hg : ∀ i, generation' i = generation i ∨ generation' i = generation i + 1) :
    s.QuietFor generation' n := by
  intro function offset hbreak k hk
  rcases hg function.index with heq | heq
  · rw [heq]
    exact h function offset hbreak k (Nat.le_succ_of_le hk)
  · have hlater := h function offset hbreak (k + 1) (Nat.succ_le_succ hk)
    rw [heq, UInt32.add_assoc, UInt32.add_comm 1]
    rwa [UInt32.ofNat_add] at hlater

/-- Without a debugger there are no breaks. -/
theorem of_no_debugger (h : s.debugger = none) : s.QuietFor generation n := by
  intro function offset hbreak
  simp [DebugState.shouldBreak, h] at hbreak

end DebugState.QuietFor

theorem Heap.generationAt_collect {heap : Heap} (hs : heap.Slotted) (roots : List Handle)
    (i : Nat) : (heap.collect roots).heap.generationAt i = heap.generationAt i ∨
      (heap.collect roots).heap.generationAt i = heap.generationAt i + 1 := by
  cases dates_collect hs roots i with
  | stays hsame _ => exact .inl hsame
  | leaves hnext _ _ => exact .inr hnext

/-- A thread without calls holds its operands and its register. -/
theorem Thread.Mirrors.reached {p : Pairing} {t t' : Thread} {heap heap' : Heap}
    {roots : List Handle} (ht : t.Mirrors p t') (hframes : t.frames = #[])
    (hm : heap.Mirrors p heap') (hroots : t.roots ⊆ roots)
    (hquiet : (Heap.reachedPairs p heap roots).debug.Quiet
      (Heap.reachedPairs p heap roots).generation) :
    t.Mirrors (Heap.reachedPairs p heap roots) t' := by
  have hkept : ∀ h ∈ t.roots, ∀ h', p.pairs h h' → (Heap.reachedPairs p heap roots).pairs h h' :=
    fun h hh h' hp => ⟨hp, .root (hroots hh) (hm.contains hp).1⟩
  have hnone := ht.frames
  rw [hframes] at hnone
  refine { ht with
    stack := mirrors_imp_of_handlesOf ht.stack fun h hh h' _ => ?_
    frames := ?_
    register := ht.register.imp fun h hh h' _ => ?_
    quiet := hquiet }
  · exact hkept h (List.mem_append_left _ (List.mem_append_left _ hh)) h'
  · rw [hframes, List.forall₂_nil_left_iff.1 hnone]
    exact .nil
  · exact hkept h (List.mem_append_right _ hh) h'

namespace Registry

variable {callable : String → Prop} {n n' : Nat} {p : Pairing} {r r' : Registry} {α β : Type}

/-! ### Calls -/

/-- A call that scripts answer, with its arguments. -/
inductive Call where
  | loadScript (fuel : Nat) (file : UInt32)
  | loadClass (fuel : Nat) (name : String)
  | runBytecode (fuel : Nat) (bytes : List UInt8) (file : UInt32)
  | callFunction (fuel : Nat) (name : String)

namespace Call

/-- A call as an operation; a file that has run is answered by `true`. -/
def operation : Call → Operation Bool
  | .loadScript fuel file => Registry.loadScript fuel file
  | .loadClass fuel name => Registry.loadClass fuel name
  | .runBytecode fuel bytes file => do
    Registry.runBytecode fuel bytes file
    return true
  | .callFunction fuel name => Registry.callFunction fuel name

/-- The answer to a call. -/
def answer (c : Call) (r : Registry) : Except (Halt RegistryError) Bool :=
  match c.operation r with
  | .ok b _ => .ok b
  | .error e _ => .error e

/-- The registry that a call leaves. -/
def after (c : Call) (r : Registry) : Registry :=
  match c.operation r with
  | .ok _ r' => r'
  | .error _ r' => r'

end Call

/-- The answers to calls, one after the other. -/
def answers : List Call → Registry → List (Except (Halt RegistryError) Bool)
  | [], _ => []
  | c :: rest, r => c.answer r :: answers rest (c.after r)

/-- The registry that calls leave, one after the other. -/
def finish (calls : List Call) (r : Registry) : Registry := calls.foldl (fun r c => c.after r) r

/-- An operation that ends out of range has not run out of room on the heap: the accounted size and
the growth are in range together. -/
def Spares : EStateM.Result (Halt RegistryError) Registry α → Prop
  | .error .overflow r => r.vm.env.heap.accounted + r.vm.env.heap.growth < Heap.sizeRange
  | _ => True

/-- None of the calls runs out of room on the heap. -/
def Spacious : List Call → Registry → Prop
  | [], _ => True
  | c :: rest, r => Spares (c.operation r) ∧ Spacious rest (c.after r)

instance : ∀ result : EStateM.Result (Halt RegistryError) Registry α, Decidable (Spares result)
  | .error .overflow r =>
    inferInstanceAs (Decidable (r.vm.env.heap.accounted + r.vm.env.heap.growth < Heap.sizeRange))
  | .error .outOfFuel _ | .error (.error _) _ | .ok _ _ => isTrue trivial

instance decidableSpacious : ∀ (calls : List Call) (r : Registry), Decidable (Spacious calls r)
  | [], _ => isTrue trivial
  | c :: rest, r => @instDecidableAnd _ _ inferInstance (decidableSpacious rest (c.after r))

/-! ### Mirroring -/

/-- The registers of all threads. -/
def registers (r : Registry) : List Value := r.vm.threads.toList.map (·.register)

/-- The environments, the first threads and all registers are the same up to handles, and no
script runs. The breakpoints stay out of the way for `n` collections of one registry and `n'` of
the other. -/
structure Mirrors (n n' : Nat) (p : Pairing) (r r' : Registry) : Prop where
  main : r.main.Mirrors p r'.main
  registers : List.Forall₂ (Value.Mirrors p) r.registers r'.registers
  rest : r.AtRest
  rest' : r'.AtRest
  quiet : p.debug.QuietFor p.generation n
  quiet' : p.debug'.QuietFor p.generation' n'

/-- Two registries mirror each other. -/
def Alike (callable : String → Prop) (n n' : Nat) (r r' : Registry) : Prop :=
  ∃ p : Pairing, p.callable = callable ∧ r.Mirrors n n' p r'

theorem Alike.symm (h : Alike callable n n' r r') : Alike callable n' n r' r := by
  obtain ⟨p, hp, hm⟩ := h
  exact ⟨p.swap, hp, hm.main.swap, mirrors_swap hm.registers, hm.rest', hm.rest, hm.quiet',
    hm.quiet⟩

theorem Alike.mono (h : Alike callable n n' r r') {k k' : Nat} (hk : k ≤ n) (hk' : k' ≤ n') :
    Alike callable k k' r r' := by
  obtain ⟨p, hp, hm⟩ := h
  exact ⟨p, hp, { hm with quiet := hm.quiet.mono hk, quiet' := hm.quiet'.mono hk' }⟩

theorem Alike.report (h : Alike callable n n' r r') (level : Level) (text : Unit → String) :
    Alike callable n n' (r.withEnv (r.vm.env.report level text))
      (r'.withEnv (r'.vm.env.report level text)) := by
  obtain ⟨p, hp, hm⟩ := h
  exact ⟨p, hp, { hm with main := ⟨hm.main.env.report level rfl, hm.main.thread⟩ }⟩

theorem AtRest.main_thread (h : r.AtRest) :
    r.main.thread ∈ r.vm.threads.toList ∧ r.main.thread.frames = #[] := by
  obtain ⟨t, ht, -, hframes⟩ := h
  have hthread : r.main.thread = t := by simp [Registry.main, ht]
  exact ⟨hthread ▸ Array.mem_toList_iff.2 (Array.mem_of_getElem? ht), hthread ▸ hframes⟩

theorem main_ran (h : r.AtRest) (m : Machine) : (r.ran m).main = m := by
  obtain ⟨t, ht, -, -⟩ := h
  unfold Registry.ran Registry.main
  simp [(Array.getElem?_eq_some_iff.1 ht).1]

theorem registers_ran (r : Registry) (m : Machine) :
    (r.ran m).registers = r.registers.set 0 m.thread.register := by
  unfold Registry.ran registers
  rw [Array.toList_setIfInBounds, List.map_set]

/-- A collection of one registry. -/
theorem Alike.tidied (h : Alike callable (n + 1) n' r r') {env : Environment}
    (ht : r.vm.env.Tidied r.vm.threads.toList env) : Alike callable n n' (r.withEnv env) r' := by
  rcases ht with hc | hp
  · obtain ⟨p, hp, hm⟩ := h.mono (Nat.le_succ n) le_rfl
    exact ⟨p, hp, { hm with main := ⟨hm.main.env.chatter hc, hm.main.thread⟩ }⟩
  · obtain ⟨p, hcallable, hm⟩ := h
    obtain ⟨hmem, hframes⟩ := hm.rest.main_thread
    have hheap := hm.main.env.heap
    let q := Heap.reachedPairs p r.vm.env.heap (r.vm.env.roots r.vm.threads.toList)
    have hquiet : q.debug.QuietFor q.generation n := by
      rw [Heap.reachedPairs_debug, Heap.reachedPairs_generation]
      refine hm.quiet.next fun i => ?_
      rw [← hheap.generation]
      exact Heap.generationAt_collect hheap.left _ i
    have hsame : q.callable = callable := (Heap.reachedPairs_callable ..).trans hcallable
    refine ⟨q, hsame, ⟨hm.main.env.purged hp fun h hh => ?_, ?_⟩, ?_, hm.rest, hm.rest', hquiet,
      hm.quiet'⟩
    · rcases Environment.mem_roots.1 hh with ⟨t, ht, -⟩ | hh
      · cases ht
      · exact Environment.mem_roots.2 (.inr hh)
    · refine hm.main.thread.reached hframes hheap (fun h hh => ?_) hquiet.quiet
      exact Environment.mem_roots.2 (.inl ⟨_, hmem, hh⟩)
    · refine mirrors_imp_of_handlesOf hm.registers fun h hh h' _ hpair => ?_
      refine ⟨hpair, .root ?_ (hheap.contains hpair).1⟩
      obtain ⟨v, hv, hvh⟩ := List.mem_filterMap.1 hh
      obtain ⟨t, ht, rfl⟩ := List.mem_map.1 hv
      exact Environment.mem_roots.2 (.inl ⟨t, ht, Environment.mem_thread_roots.2 (.inr (.inr hvh))⟩)

/-! ### Outcomes -/

/-- Two outcomes are the same up to a relation of the results, and what they leave is related. -/
inductive Concur {ε : Type} (P : Registry → Registry → Prop) (Q : α → β → Prop) :
    EStateM.Result ε Registry α → EStateM.Result ε Registry β → Prop
  | ok {a : α} {b : β} {r r' : Registry} : Q a b → P r r' → Concur P Q (.ok a r) (.ok b r')
  | error (e : ε) {r r' : Registry} : P r r' → Concur P Q (.error e r) (.error e r')

section Concur

variable {P : Registry → Registry → Prop} {Q : α → β → Prop} {x : Operation α} {x' : Operation β}
  {γ : Type}

theorem Concur.bind {g : α → Operation γ} {g' : β → Operation γ} (h : Concur P Q (x r) (x' r'))
    (hg : ∀ a b r r', Q a b → P r r' → Concur P Eq (g a r) (g' b r')) :
    Concur P Eq ((x >>= g) r) ((x' >>= g') r') := by
  show Concur P Eq (EStateM.bind x g r) (EStateM.bind x' g' r')
  unfold EStateM.bind
  generalize x r = result, x' r' = result' at h
  cases h with
  | ok hab h => exact hg _ _ _ _ hab h
  | error e h => exact .error e h

theorem Concur.attempt (h : Concur P Q (x r) (x' r')) :
    Concur P (ExceptRel Q) (attempt x r) (attempt x' r') := by
  unfold Registry.attempt
  generalize x r = result, x' r' = result' at h
  cases h with
  | ok hab h => exact .ok (.ok hab) h
  | error e h =>
    cases e with
    | error e => exact .ok (.error e) h
    | outOfFuel => exact .error _ h
    | overflow => exact .error _ h

/-- An action on the first thread, on both sides. -/
theorem Mirrors.concur_onMain (hm : r.Mirrors n n' p r') {y : Load α} {y' : Load β}
    (hy : p.Parallel (fun _ => Q) y y') (hcalls : Exec.Keeps Machine.SameCalls y)
    (hcalls' : Exec.Keeps Machine.SameCalls y') :
    Concur (Alike p.callable n n') Q (onMain y r) (onMain y' r') := by
  have hrest := rests_onMain hcalls r hm.rest
  have hrest' := rests_onMain hcalls' r' hm.rest'
  have hran : ∀ {q : Pairing} {m m' : Machine}, p ≤ q → m.Mirrors q m' → (r.ran m).AtRest →
      (r'.ran m').AtRest → Alike p.callable n n' (r.ran m) (r'.ran m') := by
    intro q m m' hq hmirrors hat hat'
    refine ⟨q, Pairing.callable_eq hq, ?_, ?_, hat, hat', hq.2 ▸ hm.quiet, hq.2 ▸ hm.quiet'⟩
    · rwa [main_ran hm.rest, main_ran hm.rest']
    · rw [registers_ran, registers_ran]
      exact forall₂_set (mirrors_mono hm.registers hq) 0 hmirrors.thread.register
  have hout := hy p le_rfl r.main r'.main hm.main
  have hmain := Traced.onMain_eq y r
  have hmain' := Traced.onMain_eq y' r'
  generalize y r.main = result, y' r'.main = result' at hout hmain hmain'
  cases hout with
  | ok hq hmirrors hab =>
    rw [hmain, hmain']
    exact .ok hab (hran hq hmirrors (hrest.ok hmain).1 (hrest'.ok hmain').1)
  | error e hq hmirrors =>
    rw [hmain, hmain']
    exact .error e (hran hq hmirrors (hrest.error hmain) (hrest'.error hmain'))

end Concur

theorem Mirrors.concur_loading (hm : r.Mirrors n n' p r') {y : Load Bool}
    (hy : p.Parallel Pairing.Same y y) (hcalls : Exec.Keeps Machine.SameCalls y) (what : String) :
    Concur (Alike p.callable n n') Eq (loading what y r) (loading what y r') := by
  refine (hm.concur_onMain hy hcalls hcalls).attempt.bind fun result result' r₁ r₁' hresult h => ?_
  cases hresult with
  | ok hloaded => exact .ok hloaded h
  | error e => exact .ok rfl (h.report _ _)

/-! ### Safe points -/

/-- A safe point tidies up, or there is no room for the next threshold. -/
theorem safePoint_tidies (r : Registry) :
    (∃ env, r.vm.env.Tidied r.vm.threads.toList env ∧ safePoint r = .ok () (r.withEnv env)) ∨
      ∃ r₁, safePoint r = .error .overflow r₁ ∧
        Heap.sizeRange ≤ r₁.vm.env.heap.accounted + r₁.vm.env.heap.growth := by
  by_cases hauto : r.config.autoCollect = true
  · have hsafe : safePoint r = (requestCollection >>= fun _ => pure ()) r :=
      (Exec.bind_of_ok rfl).trans (by rw [if_pos hauto])
    have htidies := Environment.tidies_request r.vm.threads.toList r.vm.env
    cases hrun : Environment.request r.vm.threads.toList r.vm.env with
    | ok report env =>
      exact .inl ⟨env, htidies.ok _ _ hrun, hsafe.trans (Exec.bind_of_ok (collecting_of_ok hrun))⟩
    | error e env =>
      refine .inr ⟨_, hsafe.trans (Exec.bind_of_error (collecting_of_error hrun)), ?_⟩
      obtain ⟨⟨log, -, rfl⟩, hover⟩ := htidies.error _ _ hrun
      have hheap :=
        Environment.heap_collect_memory r.vm.env.memory (r.vm.env.roots r.vm.threads.toList)
      show Heap.sizeRange ≤ (r.vm.env.memory.collect _).2.heap.accounted +
        (r.vm.env.memory.collect _).2.heap.growth
      rw [hheap]
      exact Heap.overflow_collect.1 hover
  · exact .inl ⟨r.vm.env, .inl (.refl _), (Exec.bind_of_ok rfl).trans (by rw [if_neg hauto]; rfl)⟩

/-- Where an operation that ends with a safe point has room, the safe point tidies up. -/
theorem tidied_of_spares {g : Unit → Operation α} (hs : Spares ((safePoint >>= g) r)) :
    ∃ env, r.vm.env.Tidied r.vm.threads.toList env ∧ safePoint r = .ok () (r.withEnv env) := by
  rcases safePoint_tidies r with htidied | ⟨r₁, hrun, hover⟩
  · exact htidied
  · rw [Exec.bind_of_error hrun] at hs
    exact absurd hs (Nat.not_lt_of_le hover)

/-- Either side may collect at a safe point. -/
theorem Alike.concur_safePoint (h : Alike callable (n + 1) (n' + 1) r r')
    {g g' : Unit → Operation α}
    (hg : ∀ r r', Alike callable n n' r r' → Concur (Alike callable n n') Eq (g () r) (g' () r'))
    (hs : Spares ((safePoint >>= g) r)) (hs' : Spares ((safePoint >>= g') r')) :
    Concur (Alike callable n n') Eq ((safePoint >>= g) r) ((safePoint >>= g') r') := by
  obtain ⟨env, htidied, hrun⟩ := tidied_of_spares hs
  obtain ⟨env', htidied', hrun'⟩ := tidied_of_spares hs'
  rw [Exec.bind_of_ok hrun, Exec.bind_of_ok hrun']
  exact hg _ _ ((h.tidied htidied).symm.tidied htidied').symm

/-- An operation, a safe point, and what comes of it. -/
theorem Concur.safePoint {γ : Type} {Q : α → β → Prop} {x : Operation α} {x' : Operation β}
    {g : α → Operation γ} {g' : β → Operation γ}
    (h : Concur (Alike callable (n + 1) (n' + 1)) Q (x r) (x' r'))
    (hg : ∀ a b r r', Q a b → Alike callable n n' r r' →
      Concur (Alike callable n n') Eq (g a r) (g' b r'))
    (hs : Spares ((x >>= fun a => safePoint >>= fun _ => g a) r))
    (hs' : Spares ((x' >>= fun b => safePoint >>= fun _ => g' b) r')) :
    Concur (Alike callable n n') Eq ((x >>= fun a => safePoint >>= fun _ => g a) r)
      ((x' >>= fun b => safePoint >>= fun _ => g' b) r') := by
  generalize hrun : x r = result, hrun' : x' r' = result' at h
  cases h with
  | ok hab h =>
    rw [Exec.bind_of_ok hrun] at hs ⊢
    rw [Exec.bind_of_ok hrun'] at hs' ⊢
    exact h.concur_safePoint (fun r r' => hg _ _ r r' hab) hs hs'
  | error e h =>
    rw [Exec.bind_of_error hrun, Exec.bind_of_error hrun']
    exact .error e (h.mono (Nat.le_succ n) (Nat.le_succ n'))

/-! ### Calls -/

theorem concur_release {result result' : Except RegistryError α}
    (hresult : ExceptRel Eq result result') (h : Alike callable n n' r r') :
    Concur (Alike callable n n') Eq (release result r) (release result' r') := by
  cases hresult with
  | ok hab => exact .ok hab h
  | error e => exact .error _ h

theorem isOk_eq {ε : Type} {Q : α → β → Prop} {result : Except ε α} {result' : Except ε β}
    (h : ExceptRel Q result result') : result.isOk = result'.isOk := by
  cases h <;> rfl

theorem Mirrors.isCallable_eq (hm : r.Mirrors n n' p r') {v v' : Value} (hv : v.Mirrors p v') :
    isCallable r'.vm.env.heap v' = isCallable r.vm.env.heap v := by
  unfold isCallable
  rw [show r.vm.env.heap.kind? v = _ from hm.main.env.heap.kind? hv]
  rfl

/-- One call: the answers are the same, and the registries mirror each other again. -/
theorem Alike.call (h : Alike callable (n + 1) (n' + 1) r r') (c : Call)
    (hs : Spares (c.operation r)) (hs' : Spares (c.operation r')) :
    Concur (Alike callable n n') Eq (c.operation r) (c.operation r') := by
  obtain ⟨p, rfl, hm⟩ := h
  have hexecute := fun fuel => Pairing.parallel_execute (p := p) fuel
  cases c with
  | loadScript fuel file =>
    have hload := hm.concur_loading (Pairing.parallel_loadScript (hexecute fuel) file)
      (Exec.calls_loadScript (Exec.above_execute fuel) file) ("script " ++ Text.hexWord file)
    exact hload.safePoint (fun _ _ _ _ hloaded h => .ok hloaded h) hs hs'
  | loadClass fuel name =>
    have hload := hm.concur_loading (Pairing.parallel_loadClass (hexecute fuel) name)
      (Exec.calls_loadClass (Exec.above_execute fuel) name) ("class " ++ name)
    exact hload.safePoint (fun _ _ _ _ hloaded h => .ok hloaded h) hs hs'
  | runBytecode fuel bytes file =>
    have hcalls := Exec.calls_runFile (Exec.above_execute fuel) bytes file
    have hrun :=
      (hm.concur_onMain (Pairing.parallel_runFile (hexecute fuel) bytes file) hcalls hcalls).attempt
    unfold Call.operation Registry.runBytecode at hs hs' ⊢
    simp only [bind_assoc] at hs hs' ⊢
    refine hrun.safePoint (fun _ _ _ _ hresult h => ?_) hs hs'
    exact (concur_release hresult h).bind fun _ _ _ _ _ h => .ok rfl h
  | callFunction fuel name =>
    have hglobal := hm.main.env.globals.get? (hashName name)
    have hoperation : ∀ r : Registry, (Call.callFunction fuel name).operation r = _ :=
      fun r => Exec.bind_of_ok rfl
    rw [hoperation] at hs ⊢
    rw [hoperation] at hs' ⊢
    unfold Environment.global? at hs hs' ⊢
    change Option.Rel _ (r.vm.env.globals.get? _) (r'.vm.env.globals.get? _) at hglobal
    generalize r.vm.env.globals.get? (hashName name) = callee,
      r'.vm.env.globals.get? (hashName name) = callee' at hglobal hs hs' ⊢
    cases hglobal with
    | none => exact .ok rfl (Alike.mono ⟨p, rfl, hm⟩ (Nat.le_succ n) (Nat.le_succ n'))
    | @some v v' hv =>
      dsimp only at hs hs' ⊢
      rw [hm.isCallable_eq hv] at hs' ⊢
      split
      · rename_i hcallable
        rw [if_pos hcallable] at hs hs'
        have hcalls := fun v => Exec.calls_runValue (Exec.above_execute fuel) v []
        -- the values are the same up to handles, and nobody looks at them
        have hvalue : p.Parallel (fun _ _ _ => True) _ _ :=
          (Pairing.parallel_runValue (hexecute fuel) hv .nil).imp fun _ _ _ _ _ => trivial
        have hrun := (hm.concur_onMain (Pairing.parallel_ofExec hvalue)
          (Exec.keeps_adaptExcept (hcalls v) _) (Exec.keeps_adaptExcept (hcalls v') _)).attempt
        exact hrun.safePoint (fun _ _ _ _ hresult h => .ok (isOk_eq hresult) h) hs hs'
      · exact .ok rfl (Alike.mono ⟨p, rfl, hm⟩ (Nat.le_succ n) (Nat.le_succ n'))

theorem Concur.answer {P : Registry → Registry → Prop} {c : Call}
    (h : Concur P Eq (c.operation r) (c.operation r')) :
    c.answer r' = c.answer r ∧ P (c.after r) (c.after r') := by
  unfold Call.answer Call.after
  generalize c.operation r = result, c.operation r' = result' at h
  cases h with
  | ok hab h => exact ⟨congrArg _ hab.symm, h⟩
  | error e h => exact ⟨rfl, h⟩

/-- **Registries that mirror each other serve alike.** -/
theorem Alike.serve (calls : List Call)
    (h : Alike callable (n + calls.length) (n' + calls.length) r r')
    (hs : Spacious calls r) (hs' : Spacious calls r') :
    answers calls r' = answers calls r ∧
    Alike callable n n' (finish calls r) (finish calls r') := by
  induction calls generalizing r r' with
  | nil => exact ⟨rfl, h⟩
  | cons c rest ih =>
    obtain ⟨hanswer, hafter⟩ := (h.call c hs.1 hs'.1).answer
    obtain ⟨hanswers, hfinish⟩ := ih hafter hs.2 hs'.2
    exact ⟨congrArg₂ List.cons hanswer hanswers, hfinish⟩

end Registry
end ScriptVm
