import ScriptVm.Proofs.Environment.FaithfulNatives
import ScriptVm.Proofs.Registry.InvisibleCollection
import ScriptVm.Proofs.Registry.Upkeep

/-!
# Disposal

A registry that was disposed of is as good as new.

* `HasRoom` says when a disposal returns: `dispose_returns_of_room` and
  `dispose_fails_without_room`.
* `Cleared` says that nothing is left of what was loaded. `cleared_of_dispose` says so of every
  disposal that returns.
* `renewed` is a new registry with the same source of scripts, the same members for them, and the
  same natives, cells and native objects of the host. `alike_renewed` relates a registry that was
  disposed of to it.
* `disposal` is the result. `disposal_without_room` is a disposal that does not return.
-/

namespace ScriptVm

/-! ### Collections without roots -/

namespace Heap

variable {heap : Heap}

/-- Where no handle finds anything, the accounts are empty. -/
theorem accounts_of_nothing (ha : heap.Accounted) (hn : ∀ h, heap.get? h = none) :
    heap.live = 0 ∧ heap.accounted = 0 := by
  have hempty : ∀ slot ∈ heap.slots.toList, slot.object = none := by
    intro slot hslot
    obtain ⟨i, hi, hget⟩ := List.mem_iff_getElem.1 hslot
    cases ho : slot.object with
    | none => rfl
    | some o =>
      have hfound : heap.get? ⟨i, slot.generation⟩ = some o := by
        refine get?_eq_some_iff.2 ⟨slot, ?_, rfl, ho⟩
        rw [← Array.getElem?_toList, List.getElem?_eq_getElem hi, hget]
      rw [hn] at hfound
      cases hfound
  have htotal (weight : Slot → Nat) (hw : ∀ slot : Slot, slot.object = none → weight slot = 0) :
      heap.total weight = 0 := by
    refine List.sum_eq_zero fun w hmem => ?_
    obtain ⟨slot, hslot, rfl⟩ := List.mem_map.1 hmem
    exact hw slot (hempty slot hslot)
  refine ⟨ha.live.trans (htotal _ fun slot hslot => ?_),
    ha.accounted.trans (htotal _ fun slot hslot => ?_)⟩
  · rw [Slot.count, hslot]
    rfl
  · rw [Slot.bytes, hslot]
    rfl

theorem get?_collect_nil (hs : heap.Slotted) (h : Handle) :
    (heap.collect []).heap.get? h = none := by
  cases ho : (heap.collect []).heap.get? h with
  | none => rfl
  | some o => exact absurd (get?_collect_cases hs ho).2 (not_reaches_nil h)

/-- A collection that leaves nothing is out of range if the growth is. -/
theorem overflow_collect_nil (hs : heap.Slotted) (ha : heap.Accounted) :
    (heap.collect []).overflow = true ↔ sizeRange ≤ heap.growth := by
  obtain ⟨-, hzero⟩ := accounts_of_nothing (accounted_collect hs ha []) (get?_collect_nil hs)
  rw [overflow_collect_iff hs, hzero, Nat.zero_add]

end Heap

namespace Environment

variable {natives : Natives} {env env' : Environment} {threads : List Thread}

/-- Collections leave the growth as it is. -/
theorem Tidied.growth (ht : env.Tidied threads env') (hs : env.heap.Slotted) :
    env'.heap.growth = env.heap.growth := by
  rcases ht with ⟨log, -, rfl⟩ | ⟨log, -, rfl⟩
  · rfl
  · show (env.memory.collect _).2.heap.growth = _
    rw [heap_collect_memory]
    exact Heap.growth_collect hs _

/-- With several active threads only the second collection of a disposal is made. -/
theorem dispose_of_active (hactive : 1 < env.activeThreads) (threads : List Thread) :
    ∃ env', dispose threads env =
      if (env.heap.collect []).overflow then .error .mk env' else .ok () env' := by
  have hforce : ∀ text, force threads env.keepDefinitions =
      .ok none (env.keepDefinitions.report .debug text) →
      dispose threads env = (collect [] >>= fun _ => pure ())
        ((env.keepDefinitions.report .debug text).report .debug _).forget := fun text hforce =>
    (Exec.bind_of_ok rfl).trans <| (Exec.bind_of_ok hforce).trans <| (Exec.bind_of_ok rfl).trans
      (Exec.bind_of_ok rfl)
  have hdispose := hforce _ (if_pos hactive)
  obtain ⟨env', -, hcollect⟩ :=
    ((env.keepDefinitions.report .debug _).report .debug _).forget.collect_eq []
  refine ⟨env', hdispose.trans ?_⟩
  split
  · rename_i hover
    exact Exec.bind_of_error (hcollect.trans (if_pos hover))
  · rename_i hover
    exact Exec.bind_of_ok (hcollect.trans (if_neg hover))

/-- With one active thread the first collection of a disposal may be out of range. -/
theorem dispose_of_overflow (hactive : ¬ 1 < env.activeThreads)
    (hover : (env.heap.collect (env.keepDefinitions.roots threads)).overflow = true) :
    ∃ env', dispose threads env = .error .mk env' := by
  obtain ⟨env', -, hcollect⟩ := env.keepDefinitions.collect_eq (env.keepDefinitions.roots threads)
  have hforce : force threads env.keepDefinitions =
      EStateM.map some (collect (env.keepDefinitions.roots threads)) env.keepDefinitions :=
    if_neg hactive
  rw [EStateM.map, hcollect.trans (if_pos hover)] at hforce
  exact ⟨env', (Exec.bind_of_ok rfl).trans (Exec.bind_of_error hforce)⟩

end Environment

namespace Registry

variable {natives : Natives} {r r' : Registry} {n n' : Nat}

/-! ### When a disposal returns -/

/-- The accounted size of what the first collection of a disposal keeps: what modules, functions,
extra roots and the definitions among globals and constants reach. -/
def definitionSize (r : Registry) : Nat :=
  (r.vm.env.heap.collect
    (r.vm.env.keepDefinitions.roots r.vm.resetThreads.threads.toList)).heap.accounted

/-- The thresholds after both collections of a disposal are in range. With several active threads
the first collection is refused. -/
def HasRoom (r : Registry) : Prop :=
  r.vm.env.heap.growth < Heap.sizeRange ∧
    (1 < r.vm.env.activeThreads ∨ r.definitionSize + r.vm.env.heap.growth < Heap.sizeRange)

instance (r : Registry) : Decidable r.HasRoom := inferInstanceAs (Decidable (_ ∧ (_ ∨ _)))

theorem dispose_of_ok {env : Environment}
    (hrun : Environment.dispose r.vm.resetThreads.threads.toList r.vm.env = .ok () env) :
    ∃ r', dispose r = .ok () r' :=
  ⟨_, (Exec.bind_of_ok ((collecting_dispose r).trans (collecting_of_ok hrun))).trans
    (Exec.bind_of_ok rfl)⟩

theorem dispose_of_error {e : SizeOverflow} {env : Environment}
    (hrun : Environment.dispose r.vm.resetThreads.threads.toList r.vm.env = .error e env) :
    ∃ r', dispose r = .error .overflow r' :=
  ⟨_, Exec.bind_of_error ((collecting_dispose r).trans (collecting_of_error hrun))⟩

theorem dispose_returns_of_room (h : r.InOrder natives) (hroom : r.HasRoom) :
    ∃ r', dispose r = .ok () r' := by
  obtain ⟨hgrowth, hactive | hkept⟩ := hroom
  · obtain ⟨env', hrun⟩ := Environment.dispose_of_active hactive r.vm.resetThreads.threads.toList
    rw [if_neg fun hover =>
      absurd ((Heap.overflow_collect_nil h.env.slotted h.env.accounted).1 hover)
      (Nat.not_le_of_lt hgrowth)] at hrun
    exact dispose_of_ok hrun
  · obtain ⟨env₁, env₂, env₃, htidied, -, -, hdispose⟩ := dispose_cases r
    have hdefinitions : r.vm.env.keepDefinitions.InOrder natives :=
      ⟨h.env.slotted, h.env.accounted, h.env.natives_eq, h.env.loader⟩
    have hfirst := hdefinitions.tidied htidied
    have hsame : env₁.heap.growth = r.vm.env.heap.growth := htidied.growth h.env.slotted
    rcases hdispose with ⟨-, hover⟩ | hrun
    · exact absurd ((Heap.overflow_collect_iff h.env.slotted _).1 hover) (Nat.not_le_of_lt hkept)
    · rw [if_neg fun hover =>
        absurd ((Heap.overflow_collect_nil hfirst.slotted hfirst.accounted).1 hover)
        (hsame ▸ Nat.not_le_of_lt hgrowth)] at hrun
      exact ⟨_, hrun⟩

theorem dispose_fails_without_room (h : r.InOrder natives) (hroom : ¬ r.HasRoom) :
    ∃ r', dispose r = .error .overflow r' := by
  by_cases hactive : 1 < r.vm.env.activeThreads
  · have hgrowth : Heap.sizeRange ≤ r.vm.env.heap.growth :=
      Nat.le_of_not_lt fun hgrowth => hroom ⟨hgrowth, .inl hactive⟩
    obtain ⟨env', hrun⟩ := Environment.dispose_of_active hactive r.vm.resetThreads.threads.toList
    rw [if_pos ((Heap.overflow_collect_nil h.env.slotted h.env.accounted).2 hgrowth)] at hrun
    exact dispose_of_error hrun
  · have hkept : Heap.sizeRange ≤ r.definitionSize + r.vm.env.heap.growth :=
      Nat.le_of_not_lt fun hkept =>
        hroom ⟨Nat.lt_of_le_of_lt (Nat.le_add_left _ _) hkept, .inr hkept⟩
    obtain ⟨env', hrun⟩ := Environment.dispose_of_overflow hactive
      ((Heap.overflow_collect_iff h.env.slotted _).2 hkept)
    exact dispose_of_error hrun

/-! ### What a disposal leaves -/

/-- Nothing is left of what was loaded. No handle finds anything, tables and lists are empty, the
threads are as if they had never run, and no file counts as loaded and no class as bound. -/
structure Cleared (r : Registry) : Prop where
  live : r.vm.env.heap.live = 0
  accounted : r.vm.env.heap.accounted = 0
  stale : ∀ h, r.vm.env.heap.contains h = false
  globals : r.vm.env.globals = ∅
  constants : r.vm.env.constants = ∅
  tokens : r.vm.env.tokens = ∅
  modules : r.vm.env.modules = #[]
  functions : r.vm.env.functions = #[]
  classes : r.vm.env.classes = #[]
  extraRoots : r.vm.env.extraRoots = #[]
  entityBase : r.vm.env.entityBase = none
  idle : ∀ t ∈ r.vm.threads.toList, t.state = .idle ∧ t.stack = #[] ∧ t.frames = #[] ∧
    t.returnFrame = 0 ∧ t.register = .null
  fetched : ∀ l ∈ r.vm.env.loader, ∀ file, l.isLoaded file = false
  bound : ∀ l ∈ r.vm.env.loader, l.boundClasses = []

theorem cleared_of_dispose (h : r.InOrder natives) (hrun : dispose r = .ok () r') : r'.Cleared := by
  obtain ⟨env₁, env₂, env₃, htidied, hpurged, hchatter, hdispose⟩ := dispose_cases r
  have hkept : r.vm.env.keepDefinitions.InOrder natives :=
    ⟨h.env.slotted, h.env.accounted, h.env.natives_eq, h.env.loader⟩
  have hfirst := hkept.tidied htidied
  have hclasses : env₁.classes = #[] := by
    rcases htidied with ⟨log, -, rfl⟩ | ⟨log, -, rfl⟩ <;> rfl
  rcases hdispose with ⟨herror, -⟩ | hresult
  · rw [herror] at hrun
    cases hrun
  · split at hresult <;> rw [hresult] at hrun <;> cases hrun
    obtain ⟨log₃, -, rfl⟩ := hchatter
    obtain ⟨log₂, -, rfl⟩ := hpurged
    have hheap := Environment.heap_collect_memory env₁.memory []
    obtain ⟨hlive, haccounted⟩ := Heap.accounts_of_nothing
      (Heap.accounted_collect hfirst.slotted hfirst.accounted [])
      (Heap.get?_collect_nil hfirst.slotted)
    refine ⟨(congrArg Heap.live hheap).trans hlive,
      (congrArg Heap.accounted hheap).trans haccounted,
      fun k => ?_, rfl, rfl, rfl, rfl, rfl, hclasses, rfl, rfl, fun t ht => ?_, fun l hl file => ?_,
      fun l hl => ?_⟩
    · show ((env₁.memory.collect []).2.heap.get? k).isSome = false
      rw [hheap, Heap.get?_collect_nil hfirst.slotted]
      rfl
    · change t ∈ (r.vm.threads.map Thread.reset).toList at ht
      rw [Array.toList_map] at ht
      obtain ⟨u, -, rfl⟩ := List.mem_map.1 ht
      exact ⟨rfl, rfl, rfl, rfl, rfl⟩
    · obtain ⟨u, -, rfl⟩ := Option.map_eq_some_iff.1 hl
      rfl
    · obtain ⟨u, -, rfl⟩ := Option.map_eq_some_iff.1 hl
      rfl

/-! ### A new registry -/

/-- A new registry with the configuration, the source of scripts and the members of another, and
with the natives, cells and native objects of its host. -/
def renewed (r : Registry) : Registry :=
  let l := r.vm.env.loader.getD (.ofSource .empty)
  let new := Registry.new r.config l.source r.vm.env.natives r.vm.env.log
  new.withEnv { new.vm.env with
    memory := { r.vm.env.memory with heap := new.vm.env.heap }
    loader := some { Loader.ofSource l.source with binder := l.binder } }

/-- A loader without anything loaded is a new one. -/
theorem Cleared.loader_eq (hc : r.Cleared) (hloader : r.vm.env.loader.isSome = true) :
    r.vm.env.loader = r.renewed.vm.env.loader := by
  obtain ⟨l, hl⟩ := Option.isSome_iff_exists.1 hloader
  have hbound := hc.bound l hl
  have hfetched : l.fetched = [] := by
    refine List.eq_nil_iff_forall_not_mem.2 fun file hfile => ?_
    have hnot := hc.fetched l hl file
    rw [Loader.isLoaded, List.contains_iff_mem.2 hfile] at hnot
    cases hnot
  show r.vm.env.loader = some
    { Loader.ofSource (r.vm.env.loader.getD (.ofSource .empty)).source with
      binder := (r.vm.env.loader.getD (.ofSource .empty)).binder }
  rw [hl]
  obtain ⟨source, fetched, bound, binder⟩ := l
  cases hfetched
  cases hbound
  rfl

theorem Cleared.registers_eq (hc : r.Cleared) (h : r.InOrder natives) :
    r.registers = List.replicate r.config.threads .null := by
  have hlength := congrArg List.length h.threads
  rw [List.length_map, List.length_range] at hlength
  refine List.eq_replicate_iff.2 ⟨(List.length_map ..).trans hlength, fun v hv => ?_⟩
  obtain ⟨t, ht, rfl⟩ := List.mem_map.1 hv
  exact (hc.idle t ht).2.2.2.2

theorem InOrder.main_thread (h : r.InOrder natives) :
    r.vm.threads[0]? = some r.main.thread ∧ r.main.thread.id = 0 := by
  have hsome : 0 < r.config.threads := Nat.le_max_left 1 _
  have hfirst : (r.vm.threads.toList.map Thread.id)[0]? = some 0 := by
    rw [h.threads, List.getElem?_range hsome]
  rw [List.getElem?_map, Array.getElem?_toList] at hfirst
  obtain ⟨t, ht, hid⟩ := Option.map_eq_some_iff.1 hfirst
  have hmain : r.main.thread = t := by simp [Registry.main, ht]
  exact ⟨hmain ▸ ht, hmain ▸ hid⟩

theorem Cleared.blank (hc : r.Cleared) (h : r.InOrder natives) : r.Blank := by
  obtain ⟨hthread, hid⟩ := h.main_thread
  obtain ⟨hstate, hstack, hframes, hreturn, hregister⟩ :=
    hc.idle _ (Array.mem_toList_iff.2 (Array.mem_of_getElem? hthread))
  refine ⟨h.env.slotted, hc.globals, hc.constants, hc.tokens, hc.modules, hc.functions, hc.classes,
    hc.entityBase, hc.extraRoots, ⟨_, hthread, hstack, hframes⟩, ?_, hc.registers_eq h⟩
  generalize r.main.thread = t at hid hstate hstack hframes hreturn hregister
  cases t
  subst hid hstate hstack hframes hreturn hregister
  rfl

/-- A new registry in place of another is blank. -/
theorem blank_renewed (r : Registry) : r.renewed.Blank :=
  { blank_new r.config _ r.vm.env.natives r.vm.env.log with }

/-- A registry of which nothing is left mirrors a new one. -/
theorem alike_renewed (h : r.InOrder natives) (hc : r.Cleared)
    (hfaithful : ∀ name, NativeFunction.Faithful (fun _ => True) (natives name))
    (hquiet : r.main.thread.debug.QuietFor r.vm.env.heap.generationAt n') :
    Alike (fun _ => True) n n' r.renewed r := by
  have hnatives : r.vm.env.natives = natives := h.env.natives_eq
  have hchatter := Log.Chatter.add r.vm.env.log
    fun _ => s!"Created script registry with {r.config.threads} thread(s)"
  exact (blank_renewed r).alike (hc.blank h) rfl rfl rfl (hc.loader_eq h.env.loader)
    ⟨hchatter.limit.symm, hchatter.lines_eq.symm⟩ (fun name _ => hnatives ▸ hfaithful name)
    (fun _ _ _ _ _ _ _ _ => trivial) (quietFor_new _ _ _ _ _ _) hquiet

/-- **A disposal resets everything.** It returns exactly if its collections have room, and then the
registry answers every list of calls as a new one does. -/
theorem disposal (hn : natives.Steady) (hr : Managed natives r) :
    (r.HasRoom → ∃ r', dispose r = .ok () r') ∧
    (¬ r.HasRoom → ∃ r', dispose r = .error .overflow r') ∧
    ∀ r', dispose r = .ok () r' → r'.Cleared ∧
      ∀ calls : List Call, (∀ name, NativeFunction.Faithful (fun _ => True) (natives name)) →
        r'.main.thread.debug.QuietFor r'.vm.env.heap.generationAt calls.length →
        Spacious calls r'.renewed → Spacious calls r' →
          answers calls r' = answers calls r'.renewed ∧
            (finish calls r').vm.env.log.lines = (finish calls r'.renewed).vm.env.log.lines ∧
            ∃ p, Isomorphism p (finish calls r'.renewed) (finish calls r') := by
  have h := hr.inOrder hn
  refine ⟨dispose_returns_of_room h, dispose_fails_without_room h, fun r' hrun => ?_⟩
  have hcleared := cleared_of_dispose h hrun
  have hafter : r'.InOrder natives := ((orderly_dispose r h).ok hrun).1
  refine ⟨hcleared, fun calls hfaithful hquiet hs hs' => ?_⟩
  have halike := alike_renewed (n := calls.length) hafter hcleared hfaithful hquiet
  rw [← Nat.zero_add calls.length] at halike
  obtain ⟨hanswers, p, -, hm⟩ := halike.serve calls hs hs'
  exact ⟨hanswers, hm.main.env.log.lines, _, hm.isomorphism⟩

/-- A registry with two threads that has loaded a file and is disposed of. The file is loaded again,
into the slots that were used before. -/
theorem disposal_reloaded :
    let r := (Request.loadScript 9 1).after
      (Registry.new { Config.standard with threadCount := 2 } tidySource Native.standard default)
    let calls : List Call := [.loadScript 9 1, .loadScript 9 2]
    r.HasRoom ∧ ∃ r', dispose r = .ok () r' ∧ r'.Cleared ∧
    answers calls r' = answers calls r'.renewed ∧
      (finish calls r').vm.env.global? "Lamp" = some (.object ⟨0, 1⟩) ∧
      (finish calls r'.renewed).vm.env.global? "Lamp" = some (.object ⟨6, 0⟩) ∧
      ∃ p, Isomorphism p (finish calls r'.renewed) (finish calls r') := by
  intro r calls
  have hmanaged : Managed Native.standard r := .request _ (.new _ tidySource default)
  obtain ⟨hreturns, -, hresets⟩ := disposal Native.steady_standard hmanaged
  have hroom : r.HasRoom := by decide +kernel
  obtain ⟨r', hrun⟩ := hreturns hroom
  obtain ⟨hcleared, hserves⟩ := hresets r' hrun
  obtain rfl : Request.dispose.after r = r' := Request.after_of_ok hrun
  have hquiet : (Request.dispose.after r).main.thread.debug.QuietFor
      (Request.dispose.after r).vm.env.heap.generationAt calls.length :=
    .of_no_debugger (Option.isNone_iff_eq_none.1 (by decide +kernel))
  obtain ⟨hanswers, -, hend⟩ := hserves calls Native.faithful_standard hquiet (by decide +kernel)
    (by decide +kernel)
  exact ⟨hroom, _, hrun, hcleared, hanswers, by decide +kernel, by decide +kernel, hend⟩

/-- With the largest growth a disposal is out of range, and what was loaded is still there. -/
theorem disposal_without_room :
    let r := (Request.loadScript 9 1).after
      (Registry.new
        { Config.standard with threshold := Heap.sizeRange - 1, growth := Heap.sizeRange - 1 }
        tidySource Native.standard default)
    Managed Native.standard r ∧ (∀ r', dispose r ≠ .ok () r') ∧
      (Request.dispose.after r).vm.env.global? "Lamp" = some (.object ⟨6, 0⟩) ∧
      (Request.dispose.after r).vm.env.heap.live = 6 := by
  intro r
  have hmanaged : Managed Native.standard r := .request _ (.new _ tidySource default)
  refine ⟨hmanaged, fun r' hrun => ?_, by decide +kernel, by decide +kernel⟩
  obtain ⟨r₁, herror⟩ := dispose_fails_without_room (hmanaged.inOrder Native.steady_standard)
    (show ¬ r.HasRoom by decide +kernel)
  rw [hrun] at herror
  cases herror

end Registry
end ScriptVm
