import ScriptVm.Proofs.Machine.ImportingFiles
import ScriptVm.Proofs.Registry.LoadOnce

/-!
# Import cycles

A file is on record as fetched before it runs, so that a cycle of imports comes to an end. What is
answered inside the cycle depends on whether the class that is asked for is defined by then, since
it is looked up among the globals in any case.

* `Environment.Swept` is what a collection keeps of the classes; `safePoint_cases` says that the
  safe point at the end of a load keeps it, unless the next threshold is out of range.
* `Registry.loading_of_matches` turns the loading of a class on the first thread into the answer
  of a registry.
* `import_cycles` is the result for a fresh registry and the project of its source, with
  `Project.Bound` for the classes that are loaded. `ring` has both outcomes, depending on where the
  imports stand.
-/

namespace ScriptVm

/-! ### Safe points -/

namespace Environment

variable {env env' : Environment}

/-- The globals stay, the classes among them too, and what is loaded. -/
structure Swept (env env' : Environment) : Prop where
  globals : env'.globals = env.globals
  loads : env.SameLoads env'
  classes : env.heap.Slotted → ∀ hash c k, env.globals.get? hash = some (.object c) →
    env.heap.class? c = some k → env'.heap.class? c = some k

theorem swept_of_heap (hglobals : env'.globals = env.globals) (hloads : env.SameLoads env')
    (hheap : env'.heap = env.heap) : env.Swept env' :=
  ⟨hglobals, hloads, fun _ _ _ _ _ hk => hheap ▸ hk⟩

theorem reportAll_eq (lines : List String) (env : Environment) :
    ∃ log, lines.foldl (fun env line => env.report .debug fun _ => line) env =
      { env with log } := by
  induction lines generalizing env with
  | nil => exact ⟨env.log, rfl⟩
  | cons line rest ih => exact ih (env.report .debug fun _ => line)

/-- An action leaves an environment swept, or the next threshold is out of range. -/
def Sweeps {α : Type} (x : Collect α) (env : Environment) : Prop :=
  (∃ a env', x env = .ok a env' ∧ env.Swept env') ∨
    ∃ env', x env = .error .mk env' ∧ Heap.sizeRange ≤ env'.heap.accounted + env'.heap.growth

theorem sweeps_collect (env : Environment) (threads : List Thread) :
    Sweeps (collect (env.roots threads)) env := by
  obtain ⟨log, hlines⟩ := reportAll_eq (env.heap.collect (env.roots threads)).lines
    { env with memory := (env.memory.collect (env.roots threads)).2 }
  have hheap : (env.memory.collect (env.roots threads)).2.heap =
      (env.heap.collect (env.roots threads)).heap := (Memory.foldl_reclaim _ _).1
  have hcollect : collect (env.roots threads) env =
      if (env.heap.collect (env.roots threads)).overflow then
        .error .mk { env with memory := (env.memory.collect (env.roots threads)).2, log }
      else .ok (env.heap.collect (env.roots threads)).report
        { env with memory := (env.memory.collect (env.roots threads)).2, log } := by
    unfold collect
    exact congrArg (fun env' => if (env.heap.collect (env.roots threads)).overflow then
      EStateM.Result.error SizeOverflow.mk env'
      else .ok (env.heap.collect (env.roots threads)).report env') hlines
  by_cases hover : (env.heap.collect (env.roots threads)).overflow = true
  · rw [if_pos hover] at hcollect
    refine .inr ⟨_, hcollect, ?_⟩
    show Heap.sizeRange ≤ (env.memory.collect (env.roots threads)).2.heap.accounted +
      (env.memory.collect (env.roots threads)).2.heap.growth
    rw [hheap]
    exact Heap.overflow_collect.1 hover
  · rw [if_neg hover] at hcollect
    refine .inl ⟨_, _, hcollect, rfl, ⟨rfl, rfl⟩, fun hs hash c k hc hk => ?_⟩
    -- a global is a root, so a class that is one is still found
    have hroot : c ∈ env.roots threads := mem_roots.2 (.inr (.inl
      (List.mem_filterMap.2 ⟨_, Table.mem_values_of_get? hc, rfl⟩)))
    have hget := Heap.class?_eq_some.1 hk
    refine Heap.class?_eq_some.2 ?_
    show (env.memory.collect (env.roots threads)).2.heap.get? c = _
    rw [hheap]
    exact Heap.get?_collect_of_reaches hs hget (.root hroot (Option.isSome_iff_exists.2 ⟨_, hget⟩))

theorem sweeps_force (env : Environment) (threads : List Thread) : Sweeps (force threads) env := by
  by_cases hactive : 1 < env.activeThreads
  · exact .inl ⟨_, _, if_pos hactive, swept_of_heap rfl ⟨rfl, rfl⟩ rfl⟩
  · have hforce : force threads env = (some <$> collect (env.roots threads)) env := if_neg hactive
    rw [map_eq_pure_bind] at hforce
    rcases env.sweeps_collect threads with ⟨report, env', hrun, hswept⟩ | ⟨env', hrun, hover⟩
    · exact .inl ⟨some report, env', hforce.trans (Exec.bind_of_ok hrun), hswept⟩
    · exact .inr ⟨env', hforce.trans (Exec.bind_of_error hrun), hover⟩

theorem sweeps_request (env : Environment) (threads : List Thread) :
    Sweeps (request threads) env := by
  unfold Sweeps request
  split
  · dsimp only
    rcases env.sweeps_force threads with ⟨report, env', hrun, hswept⟩ | ⟨env', hrun, hover⟩
    · rw [hrun]
      cases report with
      | none => exact .inl ⟨none, env', rfl, hswept⟩
      | some report =>
        exact .inl ⟨_, _, rfl, hswept.globals, hswept.loads.trans ⟨rfl, rfl⟩, hswept.classes⟩
    · rw [hrun]
      exact .inr ⟨env', rfl, hover⟩
  · exact .inl ⟨none, env, rfl, swept_of_heap rfl (.refl env) rfl⟩

end Environment

namespace Registry

/-- The safe point of a registry, if it collects at all, sweeps its environment. -/
theorem safePoint_cases (r : Registry) :
    (∃ r', safePoint r = .ok () r' ∧ r.vm.env.Swept r'.vm.env) ∨
    ∃ r', safePoint r = .error .overflow r' ∧ r.config.autoCollect = true ∧
      Heap.sizeRange ≤ r'.vm.env.heap.accounted + r'.vm.env.heap.growth := by
  obtain ⟨⟨env, threads⟩, config⟩ := r
  cases hauto : config.autoCollect with
  | false =>
    refine .inl ⟨⟨⟨env, threads⟩, config⟩, ?_, Environment.swept_of_heap rfl (.refl env) rfl⟩
    refine (Exec.bind_of_ok rfl).trans ?_
    rw [hauto]
    rfl
  | true =>
    have hsafe : safePoint ⟨⟨env, threads⟩, config⟩ =
        (do let _ ← requestCollection : Operation Unit) ⟨⟨env, threads⟩, config⟩ := by
      refine (Exec.bind_of_ok rfl).trans ?_
      rw [hauto]
      rfl
    have hrequest : requestCollection ⟨⟨env, threads⟩, config⟩ =
        match Environment.request threads.toList env with
        | .ok a env => .ok a ⟨⟨env, threads⟩, config⟩
        | .error _ env => .error .overflow ⟨⟨env, threads⟩, config⟩ := by
      unfold requestCollection collecting Vm.requestCollection Vm.collecting
      dsimp only
      cases Environment.request threads.toList env <;> rfl
    rw [hsafe]
    rcases env.sweeps_request threads.toList with ⟨report, env', hrun, hswept⟩ | ⟨env', hrun, hover⟩
    · rw [hrun] at hrequest
      exact .inl ⟨_, Exec.bind_of_ok hrequest, hswept⟩
    · rw [hrun] at hrequest
      exact .inr ⟨_, Exec.bind_of_error hrequest, rfl, hover⟩

/-! ### Loading a class first -/

variable {r : Registry} {x : Load Bool} {m : Machine}

theorem loading_of_ok {loaded : Bool} (hx : x r.main = .ok loaded m) (what : String) :
    loading what x r = .ok loaded (r.ran m) := by
  have hmain := Traced.onMain_eq x r
  rw [hx] at hmain
  have hattempt := Traced.attempt_eq (onMain x) r
  rw [hmain] at hattempt
  exact Exec.bind_of_ok hattempt

theorem loading_of_error {e : RegistryError} (hx : x r.main = .error (.error e) m) (what : String) :
    loading what x r = .ok false (r.ran { m with
      env := m.env.report .error fun _ => s!"Failed to load {what}: {e.message}" }) := by
  have hmain := Traced.onMain_eq x r
  rw [hx] at hmain
  have hattempt := Traced.attempt_eq (onMain x) r
  rw [hmain] at hattempt
  exact (Exec.bind_of_ok hattempt).trans (Exec.bind_of_ok rfl)

/-- A registry reports whether what its load matches has a result. -/
theorem loading_of_matches {σ : Type} {x : Nat → Load Bool} {o : Option σ}
    {Q : σ → Environment → Prop} (h : Load.Matches x r.main o Q) (what : String) :
    ∃ r', EndsIn (fun fuel => loading what (x fuel)) r (.ok o.isSome r') ∧ r'.config = r.config ∧
      ∀ s, o = some s → Q s r'.vm.env := by
  cases o with
  | some s =>
    obtain ⟨env, state, ⟨n, hend⟩, hq⟩ := h
    refine ⟨r.ran ⟨env, { r.main.thread with state }⟩, ⟨n, fun fuel hfuel => ?_⟩,
      rfl, fun s' hs => ?_⟩
    · exact loading_of_ok (hend fuel hfuel) what
    · cases hs
      exact hq
  | none =>
    obtain ⟨result, ⟨n, hend⟩, hrefused⟩ := h
    cases hrefused with
    | denied m =>
      exact ⟨r.ran m, ⟨n, fun fuel hfuel => loading_of_ok (hend fuel hfuel) what⟩, rfl, nofun⟩
    | failed e m =>
      exact ⟨_, ⟨n, fun fuel hfuel => loading_of_error (hend fuel hfuel) what⟩, rfl, nofun⟩

/-- A registry with nothing loaded, with the members of a host if there is one. -/
def fresh (config : Config) (source : Source) (natives : Natives) (log : Log)
    (members : Option (List Member)) : Registry :=
  let r := Registry.new config source natives log
  let loader := r.vm.env.loader.map fun l => members.elim l l.setBinder
  { r with vm := { r.vm with env := { r.vm.env with loader } } }

end Registry

namespace Project

open Registry

variable {P : Project} {source : Source} {s : Progress UInt32} {env env' : Environment} {x : UInt32}

/-- A class is a global and has been bound: it is listed and on record, and the binder, if there is
one, was asked to bind it unless it is an extension. -/
structure Bound (P : Project) (env : Environment) (x : UInt32) : Prop where
  global : ∃ c ∈ env.classes, env.classByHash? x = some c
  recorded : x ∈ env.boundClasses
  asked : ∀ b, env.loader.bind (·.binder) = some b → P.kind x ≠ .extended →
    ∃ name ∈ b.bound.toList, hashName name = x

/-- What is done is bound, and a collection does not change that. -/
theorem Tracks.bound_of_done (ht : P.Tracks source s env) (hx : s.Done x)
    (hswept : env.Swept env') : P.Bound env' x := by
  obtain ⟨l, hl, hrecorded⟩ := ht.records
  have hloader : env'.loader = some l := hswept.loads.loader.trans hl
  refine ⟨?_, ?_, fun b hb => hrecorded.asked b ?_ x hx.bound⟩
  · obtain ⟨c, k, -, hk, -, hc⟩ := ht.classByHash? hx.defined
    obtain ⟨d, hd, hglobal⟩ := ht.bound x hx.bound
    cases hc.symm.trans hglobal
    refine ⟨c, hswept.loads.classes ▸ hd, ?_⟩
    unfold Environment.classByHash?
    rw [hswept.globals, hc]
    exact Option.filter_eq_some_iff.2
      ⟨rfl, Option.isSome_iff_exists.2 ⟨k, hswept.classes ht.slotted x c k hc hk⟩⟩
  · unfold Environment.boundClasses
    rw [hloader]
    exact (hrecorded.bound x).2 hx.bound
  · rw [hloader] at hb
    exact hb

variable (P) (config : Config) (source : Source) (natives : Natives) (log : Log)
  (members : Option (List Member))

/-- A fresh registry shows that nothing has happened. -/
theorem tracks_fresh :
    P.Tracks source .start (fresh config source natives log members).main.env where
  order := List.Subset.refl _
  slotted := Heap.slotted_withThreshold _ _
  constants := rfl
  records := by
    have hnone : ∀ {x y : UInt32}, x ∈ ([] : List UInt32) ↔ y ∈ ([] : List UInt32) :=
      iff_of_false List.not_mem_nil List.not_mem_nil
    cases members <;> exact ⟨_, rfl, rfl, fun _ _ => id, fun _ _ => hnone, fun _ => hnone,
      fun _ _ x hx => absurd hx List.not_mem_nil⟩
  undefined _ _ := rfl
  defined _ hx := absurd hx List.not_mem_nil
  bound _ hx := absurd hx List.not_mem_nil

theorem roomy_fresh (hcard : P.classes.card ≤ Thread.maxFrames) :
    P.Roomy .start (fresh config source natives log members).main.thread 0 0 := by
  have hle : (P.graph.unfetched .start).card ≤ P.classes.card := Finset.card_filter_le _ _
  have hmain : (fresh config source natives log members).main.thread.frames.size = 0 ∧
      (fresh config source natives log members).main.thread.stack.size = 0 ∧
      (fresh config source natives log members).main.thread.debug.debugger = none := by
    unfold Registry.main
    cases ht : (fresh config source natives log members).vm.threads[0]? with
    | none => exact ⟨rfl, rfl, rfl⟩
    | some t =>
      obtain ⟨u, hu, rfl⟩ := Option.map_eq_some_iff.1 (Array.getElem?_map.symm.trans ht)
      obtain ⟨i, -, rfl⟩ := Option.map_eq_some_iff.1 (Array.getElem?_map.symm.trans hu)
      exact ⟨rfl, rfl, rfl⟩
  obtain ⟨hframes, hstack, hdebug⟩ := hmain
  unfold Thread.maxFrames at hcard
  exact ⟨by unfold Thread.maxFrames; omega, by unfold Thread.maxStack; omega, hdebug⟩

end Project

/-- **Import cycles.** With enough steps a load answers whether the visit of its class in the graph
of imports succeeds, and if it does, binds all that the class leads to. -/
theorem import_cycles {P : Project} {source : Source} (hP : P.LiesIn source)
    (hcard : P.classes.card ≤ 64) {name : String} (hname : name ≠ "")
    (hclass : hashName name ∈ P.classes) (config : Config) (natives : Natives) (log : Log)
    (members : Option (List Member)) :
    (∃ bound, ∀ fuel, bound ≤ fuel →
      (∃ r', Registry.loadClass fuel name (Registry.fresh config source natives log members) =
          .ok (P.graph.loads (hashName name)) r' ∧
        (P.graph.loads (hashName name) = true →
          ∀ y, P.graph.Leads (hashName name) y → P.Bound r'.vm.env y)) ∨
      ∃ r', Registry.loadClass fuel name (Registry.fresh config source natives log members) =
          .error .overflow r' ∧
        config.autoCollect = true ∧
        Heap.sizeRange ≤ r'.vm.env.heap.accounted + r'.vm.env.heap.growth) ∧
    (P.graph.NoEarlyCycle (hashName name) → P.graph.loads (hashName name) = true) ∧
    (P.graph.EarlyCycle (hashName name) → P.graph.loads (hashName name) = false) := by
  refine ⟨?_, ImportGraph.loads_of_noEarlyCycle hP.closed hclass,
    ImportGraph.not_loads_of_earlyCycle⟩
  have hload := hP.simulates (P.classes.card + 1) .start name _ _ hname hclass
    (P.tracks_fresh config source natives log members)
    (P.roomy_fresh config source natives log members hcard)
    (Nat.lt_succ_of_le (Finset.card_filter_le _ _))
  obtain ⟨r₁, ⟨bound, hend⟩, hconfig, hloaded⟩ :=
    Registry.loading_of_matches hload ("class " ++ name)
  refine ⟨bound, fun fuel hfuel => ?_⟩
  have hrun : Registry.loadClass fuel name (Registry.fresh config source natives log members) =
      (do Registry.safePoint; return P.graph.loads (hashName name) : Registry.Operation Bool) r₁ :=
    Exec.bind_of_ok (hend fuel hfuel)
  rw [hrun]
  rcases Registry.safePoint_cases r₁ with ⟨r₂, hsafe, hswept⟩ | ⟨r₂, hsafe, hauto, hover⟩
  · refine .inl ⟨r₂, Exec.bind_of_ok hsafe, fun hloads y hy => ?_⟩
    obtain ⟨s, hs⟩ := Option.isSome_iff_exists.1 hloads
    exact (hloaded s hs).1.bound_of_done (ImportGraph.done_of_visit hs hy) hswept
  · rw [hconfig] at hauto
    exact .inr ⟨r₂, Exec.bind_of_error hsafe, hauto, hover⟩

/-! ### A ring of two -/

/-- The first function of a file that defines a class and imports another, before or after that. -/
def ringEntry (early : Bool) (name other : String) : Prototype :=
  let hash := Bytes.bytes32 (hashName name)
  let define := [Opcode.newClass.toByte] ++ hash ++ [0, Opcode.defineGlobal.toByte] ++ hash
  let load := [Opcode.importClass.toByte, 0, 0, 0, 0]
  let code := (if early then load ++ define else define ++ load) ++
    [Opcode.null.toByte, Opcode.ret.toByte]
  ⟨0, 0, ⟨code.toArray, none, #[.string other], 0⟩⟩

/-- Two such files, each of which imports the class of the other. -/
def ringSource (early : Bool) : Source :=
  let file (name other : String) := (Container.ofFunctions [ringEntry early name other]).encode
  .ofLists [(1, file "Lock" "Key"), (2, file "Key" "Lock")] [("Lock", 1), ("Key", 2)]

/-- What such a file does. -/
def ringScript (early : Bool) (other : String) : ClassScript :=
  if early then ⟨[other], [], [], 0⟩ else ⟨[], [], [other], 0⟩

/-- The two classes. -/
def ring (early : Bool) : Project where
  classes := {hashName "Lock", hashName "Key"}
  file x := if x = hashName "Lock" then 1 else 2
  script x := ringScript early (if x = hashName "Lock" then "Key" else "Lock")

theorem mem_ring {early : Bool} {x : UInt32} :
    x ∈ (ring early).classes ↔ x = hashName "Lock" ∨ x = hashName "Key" := by
  unfold ring
  rw [Finset.mem_insert, Finset.mem_singleton]

theorem hashName_key_ne : hashName "Key" ≠ hashName "Lock" := by decide +kernel

theorem ringEntry_scripts (early : Bool) :
    (ringEntry early "Lock" "Key").Scripts (hashName "Lock") (ringScript early "Key") ∧
      (ringEntry early "Key" "Lock").Scripts (hashName "Key") (ringScript early "Lock") := by
  cases early with
  | true =>
    exact ⟨⟨rfl, [.importClass 0], [], [], [.push .null, .ret], .cons ⟨0, rfl, rfl⟩ .nil,
      .nil, .nil, .value .null, by decide +kernel⟩,
      ⟨rfl, [.importClass 0], [], [], [.push .null, .ret],
      .cons ⟨0, rfl, rfl⟩ .nil, .nil, .nil, .value .null, by decide +kernel⟩⟩
  | false =>
    exact ⟨⟨rfl, [], [], [.importClass 0], [.push .null, .ret], .nil, .nil,
      .cons ⟨0, rfl, rfl⟩ .nil, .value .null, by decide +kernel⟩,
      ⟨rfl, [], [], [.importClass 0], [.push .null, .ret],
      .nil, .nil, .cons ⟨0, rfl, rfl⟩ .nil, .value .null, by decide +kernel⟩⟩

theorem ring_liesIn (early : Bool) : (ring early).LiesIn (ringSource early) := by
  obtain ⟨hlock, hkey⟩ := ringEntry_scripts early
  refine ⟨fun x hx => ?_, fun x hx => ?_, fun x hx name hname => ?_⟩
  · rcases mem_ring.1 hx with rfl | rfl <;> cases early <;> decide +kernel
  · rcases mem_ring.1 hx with rfl | rfl
    · have hscript : (ring early).script (hashName "Lock") = ringScript early "Key" :=
        congrArg (ringScript early) (if_pos rfl)
      refine ⟨(Container.ofFunctions [ringEntry early "Lock" "Key"]).encode, _, _, [],
        Source.gives_ofLists ?_, decode_of_toOption
          (c := .ofFunctions [ringEntry early "Lock" "Key"]) ?_, rfl, hscript ▸ hlock⟩
      all_goals cases early <;> decide +kernel
    · have hscript : (ring early).script (hashName "Key") = ringScript early "Lock" :=
        congrArg (ringScript early) (if_neg hashName_key_ne)
      refine ⟨(Container.ofFunctions [ringEntry early "Key" "Lock"]).encode, _, _, [],
        Source.gives_ofLists ?_, decode_of_toOption
          (c := .ofFunctions [ringEntry early "Key" "Lock"]) ?_, rfl, hscript ▸ hkey⟩
      all_goals cases early <;> decide +kernel
  · have himports : ∀ other, (ringScript early other).imports = [other] := by
      intro other
      cases early <;> rfl
    have hname := List.mem_singleton.1 ((himports _) ▸ hname)
    rw [hname, mem_ring]
    split
    · exact ⟨by decide, .inr rfl⟩
    · exact ⟨by decide, .inl rfl⟩

/-- Two classes that define themselves before they import each other are loaded and bound. -/
theorem import_cycles_ring :
    ∃ bound, ∀ fuel, bound ≤ fuel → ∃ r', Registry.loadClass fuel "Lock"
        (Registry.fresh { Config.standard with autoCollect := false } (ringSource false)
          Native.standard default (some [])) = .ok true r' ∧
      (ring false).Bound r'.vm.env (hashName "Lock") ∧
      (ring false).Bound r'.vm.env (hashName "Key") := by
  obtain ⟨⟨bound, hload⟩, hloads, -⟩ := import_cycles (ring_liesIn false) (by decide +kernel)
    (show "Lock" ≠ "" by decide) (mem_ring.2 (.inl rfl))
    { Config.standard with autoCollect := false } Native.standard default (some [])
  have hlate : ∀ x, (ring false).graph.early x = [] := fun _ => rfl
  have hloads := hloads fun y _ z hz => by
    rw [hlate] at hz
    exact absurd hz List.not_mem_nil
  refine ⟨bound, fun fuel hfuel => ?_⟩
  rcases hload fuel hfuel with ⟨r', hrun, hbound⟩ | ⟨_, _, hauto, _⟩
  · rw [hloads] at hrun
    have hkey : (ring false).graph.Imports (hashName "Lock") (hashName "Key") := by
      have hscript : (ring false).script (hashName "Lock") = ringScript false "Key" :=
        congrArg (ringScript false) (if_pos rfl)
      refine .inr ?_
      show hashName "Key" ∈ ((ring false).script (hashName "Lock")).after.map hashName
      rw [hscript]
      exact List.mem_singleton.2 rfl
    exact ⟨r', hrun, hbound hloads _ .refl, hbound hloads _ (.single hkey)⟩
  · cases hauto

/-- Two classes that import each other before they define themselves are not loaded: the second file
asks for the first class while the first file has not defined it. -/
theorem import_cycle_refused :
    let r := Registry.fresh .standard (ringSource true) Native.standard default none
    (ring true).LiesIn (ringSource true) ∧ (ring true).classes.card < 64 ∧
      Registry.result? (Registry.loadClass 9 "Lock") r = some false ∧
      (Registry.after (Registry.loadClass 9 "Lock") r).vm.env.classByName? "Lock" = none ∧
      (Registry.after (Registry.loadClass 9 "Lock") r).vm.env.classByName? "Key" = none := by
  refine ⟨ring_liesIn true, by decide +kernel, by decide +kernel, by decide +kernel,
    by decide +kernel⟩

end ScriptVm
