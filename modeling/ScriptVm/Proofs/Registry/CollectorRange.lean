import ScriptVm.Proofs.Heap.SizeRange
import ScriptVm.Proofs.Machine.Operating
import ScriptVm.Proofs.Registry.InvisibleCollection
import ScriptVm.Proofs.Registry.Upkeep

/-!
# Where collections leave the range of sizes

The growth that a registry is configured with is added to the size of what survives a
collection. Nothing keeps the sum in the range of sizes, and everything else that a collector
computes stays there.

* `Config.Sized` says that the numbers of a configuration are sizes; `Config.sized_of_ofJson?` says
  so of those that are read.
* `Arises` says that operations lead from some heap to the heap of a registry, `Grown` that they do
  from a new one. `Managed.grown` says so of all registries that a host comes to.
* `Collects` is the outcome of a collection, `collects_force` and `collects_request` are the two
  that a registry makes.
* `collector_range` is the result. `collection_without_room` is a collection that does not return.
-/

namespace ScriptVm

/-! ### Configurations -/

/-- A number that is read is below the bound. -/
theorem Json.natural?_lt {bound n : Nat} {cs rest : List Char}
    (h : Json.natural? bound cs = some (n, rest)) : n < bound := by
  unfold natural? at h
  obtain ⟨⟨ds, tail⟩, -, h⟩ := Option.bind_eq_some_iff.1 h
  dsimp only at h
  split at h
  · cases h
  · cases h
  · cases h
  · split at h
    · cases h
      assumption
    · cases h

namespace Config

variable {c c' : Config} {cs rest : List Char} {s : Setting} {seen seen' : List Setting}

/-- The numbers of a configuration are in range. -/
structure Sized (c : Config) : Prop where
  threadCount : c.threadCount < numberRange
  threshold : c.threshold < numberRange
  growth : c.growth < numberRange

theorem sized_standard : standard.Sized := ⟨by decide, by decide, by decide⟩

theorem Sized.readSetting? (hc : c.Sized) (h : readSetting? c cs s = some (c', rest)) :
    c'.Sized := by
  cases s
  all_goals
    obtain ⟨⟨n, tail⟩, hread, h⟩ := Option.map_eq_some_iff.1 h
    cases h
  case threadCount => exact { hc with threadCount := Json.natural?_lt hread }
  case threshold => exact { hc with threshold := Json.natural?_lt hread }
  case growth => exact { hc with growth := Json.natural?_lt hread }
  all_goals exact { hc with }

theorem Sized.readMember? {key : String} (hc : c.Sized)
    (h : readMember? c seen key cs = some (c', seen', rest)) : c'.Sized := by
  unfold Config.readMember? at h
  split at h
  · obtain ⟨tail, -, h⟩ := Option.map_eq_some_iff.1 h
    cases h
    exact hc
  · split at h
    · cases h
    · obtain ⟨⟨c₁, tail⟩, hread, h⟩ := Option.map_eq_some_iff.1 h
      cases h
      exact hc.readSetting? hread

theorem Sized.readMembers? {fuel : Nat} (hc : c.Sized)
    (h : readMembers? fuel c seen cs = some (c', rest)) : c'.Sized := by
  induction fuel generalizing c seen cs with
  | zero => cases h
  | succ fuel ih =>
    obtain ⟨⟨key, tail₁⟩, -, h⟩ := Option.bind_eq_some_iff.1 h
    obtain ⟨tail₂, -, h⟩ := Option.bind_eq_some_iff.1 h
    obtain ⟨⟨c₁, seen₁, tail₃⟩, hmember, h⟩ := Option.bind_eq_some_iff.1 h
    have hc₁ := hc.readMember? hmember
    dsimp only at h
    split at h
    · exact ih hc₁ h
    · cases h
      exact hc₁
    · cases h

theorem Sized.readElements? {settings : List Setting} (hc : c.Sized)
    (h : readElements? settings c cs = some (c', rest)) : c'.Sized := by
  induction settings generalizing c cs with
  | nil => cases h
  | cons s others ih =>
    obtain ⟨⟨c₁, tail⟩, hsetting, h⟩ := Option.bind_eq_some_iff.1 h
    have hc₁ := hc.readSetting? hsetting
    dsimp only at h
    split at h
    · exact ih hc₁ h
    · cases h
      exact hc₁
    · cases h

/-- The numbers of a configuration that is read are in range. -/
theorem sized_of_ofJson? {text : String} (h : ofJson? text = some c) : c.Sized := by
  obtain ⟨⟨c₁, tail⟩, hread, h⟩ := Option.bind_eq_some_iff.1 h
  dsimp only at h
  split at h <;> cases h
  unfold read? at hread
  split at hread
  · split at hread
    · cases hread
      exact sized_standard
    · exact sized_standard.readMembers? hread
  · split at hread
    · cases hread
      exact sized_standard
    · exact sized_standard.readElements? hread
  · cases hread

end Config

namespace Registry

variable {natives : Natives} {config : Config} {start : Heap} {r r' : Registry}

/-! ### The heap of a registry -/

/-- Operations lead from a heap to that of a registry; its configuration and natives are given. -/
structure Arises (start : Heap) (config : Config) (natives : Natives) (r : Registry) : Prop where
  config_eq : r.config = config
  natives_eq : r.vm.env.natives = natives
  heap : start.Leads r.vm.env.heap

/-- Operations lead from a new heap to that of a registry. -/
abbrev Grown (natives : Natives) (r : Registry) : Prop :=
  r.Arises (.withThreshold r.config.threshold r.config.growth) r.config natives

theorem Arises.of_operates (h : r.Arises start config natives) (hconfig : r'.config = r.config)
    (henv : r.vm.env.Operates r'.vm.env) : r'.Arises start config natives :=
  ⟨hconfig.trans h.config_eq, henv.natives.trans h.natives_eq, h.heap.trans henv.heap⟩

theorem upheld_arises (hn : natives.Operate) :
    Upheld Machine.Operates (Arises start config natives) where
  environment {r env} h hmemory hnatives _ := by
    have hheap : env.heap = r.vm.env.heap := congrArg Memory.heap hmemory
    exact h.of_operates rfl ⟨hnatives, hheap ▸ .refl _⟩
  collected {r} roots h := h.of_operates rfl
    ⟨rfl, [.collect roots], Environment.heap_collect_memory r.vm.env.memory roots⟩
  unlinked {r} k h := h.of_operates rfl (r.vm.env.operates_unlink k)
  reset h := h.of_operates rfl (.refl _)
  run h hm := h.of_operates rfl (hm (h.natives_eq ▸ hn))

theorem Arises.after (hn : natives.Operate) (h : r.Arises start config natives) (q : Request) :
    (q.after r).Arises start config natives := by
  refine ((upheld_arises hn).operation Exec.keeps_operates_execute Exec.keeps_operates_newEntity
    (fun h fields => ?_) q).after h
  exact Exec.keeps_operates_mapEnvironment (Environment.operates_addMissingFields h fields)

/-- The configuration stays. -/
theorem Arises.grown (h : r.Arises (.withThreshold config.threshold config.growth) config natives) :
    r.Grown natives := by
  unfold Grown
  rwa [h.config_eq]

/-- **All registries that a host comes to have heaps that operations lead to.** -/
theorem Managed.grown (hn : natives.Operate) (hr : Managed natives r) : r.Grown natives := by
  induction hr with
  | new config source log => exact ⟨rfl, rfl, .refl _⟩
  | request q _ ih => exact (ih.after hn q).grown
  | host _ hminds ih => exact (ih.of_operates hminds.config ⟨hminds.natives, hminds.heap⟩).grown

theorem Grown.reached (h : r.Grown natives) : r.vm.env.heap.Reached := by
  obtain ⟨history, hheap⟩ := h.heap
  rw [hheap]
  exact (Heap.Reached.empty _ _).run history

theorem Grown.growth (h : r.Grown natives) : r.vm.env.heap.growth = r.config.growth := by
  obtain ⟨history, hheap⟩ := h.heap
  rw [hheap]
  exact (Heap.Reached.empty _ _).growth_run history

end Registry

/-! ### Outcomes of collections -/

namespace Environment

variable {env env' : Environment} {threads : List Thread} {roots : List Handle}

theorem heap_purged (hp : env.Purged roots env') : env'.heap = (env.heap.collect roots).heap := by
  obtain ⟨log, -, rfl⟩ := hp
  exact heap_collect_memory env.memory roots

/-- An action does nothing to the heap if several threads are active. Otherwise it collects, and
fails if the next threshold is out of range. -/
structure Collects (threads : List Thread) (env : Environment)
    (x : Collect (Option CollectionReport)) : Prop where
  skips : 1 < env.activeThreads → ∃ env', x env = .ok none env' ∧ env'.heap = env.heap
  reports : ¬ 1 < env.activeThreads → (env.heap.collect (env.roots threads)).overflow = false →
    ∃ env', x env = .ok (some (env.heap.collect (env.roots threads)).report) env' ∧
      env'.heap = (env.heap.collect (env.roots threads)).heap
  fails : ¬ 1 < env.activeThreads → (env.heap.collect (env.roots threads)).overflow = true →
    ∃ env', x env = .error .mk env' ∧ env'.heap = (env.heap.collect (env.roots threads)).heap

theorem collects_force (threads : List Thread) (env : Environment) :
    Collects threads env (force threads) := by
  obtain ⟨env', hpurged, hcollect⟩ := env.collect_eq (env.roots threads)
  have hforce (h : ¬ 1 < env.activeThreads) :
      force threads env = EStateM.map some (collect (env.roots threads)) env := if_neg h
  rw [EStateM.map, hcollect] at hforce
  refine ⟨fun h => ⟨_, if_pos h, rfl⟩, fun h hover => ?_, fun h hover => ?_⟩
  · rw [hover, if_neg Bool.false_ne_true] at hforce
    exact ⟨env', hforce h, heap_purged hpurged⟩
  · rw [if_pos hover] at hforce
    exact ⟨env', hforce h, heap_purged hpurged⟩

/-- A request where one is due is a collection; what it did is noted in the log. -/
theorem collects_request (hfull : env.heap.shouldCollect = true) :
    Collects threads env (request threads) := by
  have hforce := collects_force threads env
  have hrequest : request threads env = _ := if_pos hfull
  dsimp only at hrequest
  refine ⟨fun h => ?_, fun h hover => ?_, fun h hover => ?_⟩
  · obtain ⟨env', hrun, hheap⟩ := hforce.skips h
    rw [hrun] at hrequest
    exact ⟨env', hrequest, hheap⟩
  · obtain ⟨env', hrun, hheap⟩ := hforce.reports h hover
    rw [hrun] at hrequest
    exact ⟨_, hrequest, hheap⟩
  · obtain ⟨env', hrun, hheap⟩ := hforce.fails h hover
    rw [hrun] at hrequest
    exact ⟨env', hrequest, hheap⟩

end Environment

namespace Registry

variable {natives : Natives} {r r' : Registry}

/-- What the roots of a registry leave. -/
def collection (r : Registry) : Collection :=
  r.vm.env.heap.collect (r.vm.env.roots r.vm.threads.toList)

/-- An operation collects: it does nothing to the heap if several threads are active, else it
returns the report of the collection if the next threshold is a size, and is out of range
otherwise. -/
def Collects (r : Registry) (x : Operation (Option CollectionReport)) : Prop :=
  if 1 < r.vm.env.activeThreads then ∃ r', x r = .ok none r' ∧ r'.vm.env.heap = r.vm.env.heap
  else if r.collection.heap.accounted + r.config.growth < Heap.sizeRange then
    ∃ r', x r = .ok (some r.collection.report) r' ∧ r'.vm.env.heap = r.collection.heap
  else ∃ r', x r = .error .overflow r' ∧ r'.vm.env.heap = r.collection.heap

theorem Grown.collects (h : r.Grown natives)
    {x : List Thread → Environment.Collect (Option CollectionReport)}
    (hx : Environment.Collects r.vm.threads.toList r.vm.env (x r.vm.threads.toList)) :
    r.Collects (collecting (Vm.collecting x)) := by
  have hover : r.collection.overflow = true ↔ _ :=
    Heap.overflow_collect_iff h.reached.invariants.1 _
  rw [h.growth] at hover
  unfold Collects
  split
  · rename_i hactive
    obtain ⟨env', hrun, hheap⟩ := hx.skips hactive
    exact ⟨_, collecting_of_ok hrun, hheap⟩
  · rename_i hactive
    split
    · rename_i hroom
      obtain ⟨env', hrun, hheap⟩ := hx.reports hactive
        (Bool.eq_false_iff.2 fun ho => Nat.not_le_of_lt hroom (hover.1 ho))
      exact ⟨_, collecting_of_ok hrun, hheap⟩
    · rename_i hroom
      obtain ⟨env', hrun, hheap⟩ := hx.fails hactive (hover.2 (Nat.le_of_not_lt hroom))
      exact ⟨_, collecting_of_error hrun, hheap⟩

theorem requestCollection_of_small (hsmall : r.vm.env.heap.shouldCollect = false) :
    requestCollection r = .ok none r := by
  have hrequest : Environment.request r.vm.threads.toList r.vm.env = .ok none r.vm.env :=
    if_neg (Bool.eq_false_iff.1 hsmall)
  exact collecting_of_ok hrequest

/-! ### The result -/

/-- With a growth of at most 2^64 - 2^40 there is room for every threshold. -/
theorem Grown.room (h : r.Grown natives) (hlive : r.vm.env.heap.live < 2 ^ 32)
    (hgrowth : r.config.growth + 2 ^ 40 ≤ Heap.sizeRange) :
    r.collection.heap.accounted + r.config.growth < Heap.sizeRange := by
  obtain ⟨hs, ha⟩ := h.reached.invariants
  have hleft : r.collection.heap.accounted ≤ r.vm.env.heap.accounted :=
    Heap.accounted_collect_le hs ha _
  have hbytes := ha.accounted_le
  omega

/-- Without that room a collection takes a sum that is no size. -/
theorem Grown.not_inRange (h : r.Grown natives) (hlive : r.vm.env.heap.live < 2 ^ 32)
    (hroom : ¬ r.collection.heap.accounted + r.config.growth < Heap.sizeRange) :
    ¬ r.vm.env.heap.InRange (.collect (r.vm.env.roots r.vm.threads.toList)) := by
  obtain ⟨hs, ha⟩ := h.reached.invariants
  intro hrange
  obtain ⟨hneeded, -⟩ := (Heap.inRange_iff hs ha hlive _).1 hrange
  rw [h.growth] at hneeded
  exact hroom hneeded

/-- **The next threshold of a collection may leave the range of sizes, and no other arithmetic of
the heap does,** in any registry with fewer than 2^32 live objects. -/
theorem collector_range (hn : natives.Operate) (hr : Managed natives r)
    (hacts : Acts Machine.Operates r r') :
    let start := Heap.withThreshold r'.config.threshold r'.config.growth
    (∀ text, Config.ofJson? text = some r'.config → r'.config.Sized) ∧
    (∃ history, r'.vm.env.heap = start.run history ∧ ∀ past, past <+: history →
      (start.run past).stats.collections ≤ past.length ∧
      (start.run past).stats.totalFreed + (start.run past).live ≤ past.length ∧
      ((start.run past).live < 2 ^ 32 → ∀ op, (start.run past).InRange op ↔
        (start.run past).RoomFor op)) ∧
    (∀ q : Request, r'.vm.env.heap.Leads (q.after r').vm.env.heap) ∧
    r'.Collects forceCollection ∧
    (r'.vm.env.heap.shouldCollect = true → r'.Collects requestCollection) ∧
    (r'.vm.env.heap.shouldCollect = false → requestCollection r' = .ok none r') ∧
    (r'.vm.env.heap.live < 2 ^ 32 → r'.config.growth + 2 ^ 40 ≤ Heap.sizeRange →
      r'.collection.heap.accounted + r'.config.growth < Heap.sizeRange) := by
  intro start
  have h : r'.Grown natives := ((upheld_arises hn).acts (hr.grown hn) hacts).grown
  have hnow : r'.Arises r'.vm.env.heap r'.config natives := ⟨rfl, h.natives_eq, .refl _⟩
  refine ⟨fun _ => Config.sized_of_ofJson?, ?_, fun q => (hnow.after hn q).heap,
    h.collects (Environment.collects_force _ _), fun hfull => ?_,
    requestCollection_of_small, h.room⟩
  · obtain ⟨history, hheap⟩ := h.heap
    refine ⟨history, hheap, fun past _ => ?_⟩
    have hstart : start.Reached := .empty _ _
    obtain ⟨hcollections, hfreed⟩ := hstart.stats_run_le past
    obtain ⟨hs, ha⟩ := (hstart.run past).invariants
    refine ⟨?_, ?_, fun hlive op => Heap.inRange_iff hs ha hlive op⟩
    · simpa [start, Heap.withThreshold] using hcollections
    · simpa [start, Heap.withThreshold] using hfreed
  · exact h.collects (Environment.collects_request hfull)

/-- A registry with a small growth has loaded a file, which left an array behind. A collection
returns its report and leaves the other objects. -/
theorem collector_range_array :
    let config := { Config.standard with growth := 64 }
    let r := (Request.loadScript 9 1).after (Registry.new config tidySource Native.standard default)
    Config.ofJson? "\x7b\"gc_growth\":64\x7d" = some config ∧ config.Sized ∧
      ∃ r', forceCollection r = .ok (some ⟨1, 24, 6⟩) r' ∧ r'.vm.env.heap.live = 6 := by
  intro config r
  have hread : Config.ofJson? "\x7b\"gc_growth\":64\x7d" = some config := by decide +kernel
  have hmanaged : Managed Native.standard r := .request _ (.new _ tidySource default)
  obtain ⟨hsized, -, -, hcollects, -⟩ := collector_range Native.operate_standard hmanaged .refl
  have hconfig : r.config = config := by decide +kernel
  have hreport : r.collection.report = ⟨1, 24, 6⟩ := by decide +kernel
  have hleft : r.collection.heap.live = 6 := by decide +kernel
  rw [Collects, if_neg (by decide +kernel), if_pos (by decide +kernel), hreport] at hcollects
  obtain ⟨r', hrun, hheap⟩ := hcollects
  rw [hconfig] at hsized
  exact ⟨hread, hsized _ hread, r', hrun, (congrArg Heap.live hheap).trans hleft⟩

/-- With the largest growth that is read, the collection of a registry that has loaded a file leaves
the range of sizes. It removes the array that the file left behind, and does not return. -/
theorem collection_without_room :
    let config := { Config.standard with growth := Heap.sizeRange - 1 }
    let r := (Request.loadScript 9 1).after (Registry.new config tidySource Native.standard default)
    Config.ofJson? "\x7b\"gc_growth\":18446744073709551615\x7d" = some config ∧
      Managed Native.standard r ∧ r.vm.env.heap.live < 2 ^ 32 ∧
      ¬ r.vm.env.heap.InRange (.collect (r.vm.env.roots r.vm.threads.toList)) ∧
      ∃ r', forceCollection r = .error .overflow r' ∧ r'.vm.env.heap.live = 6 := by
  intro config r
  have hmanaged : Managed Native.standard r := .request _ (.new _ tidySource default)
  have hgrown := hmanaged.grown Native.operate_standard
  have hlive : r.vm.env.heap.live < 2 ^ 32 := by decide +kernel
  have hroom : ¬ r.collection.heap.accounted + r.config.growth < Heap.sizeRange := by decide +kernel
  have hleft : r.collection.heap.live = 6 := by decide +kernel
  have hcollects := hgrown.collects (Environment.collects_force _ _)
  rw [Collects, if_neg (by decide +kernel), if_neg hroom] at hcollects
  obtain ⟨r', hrun, hheap⟩ := hcollects
  exact ⟨by decide +kernel, hmanaged, hlive, hgrown.not_inRange hlive hroom, r', hrun,
    (congrArg Heap.live hheap).trans hleft⟩

end Registry
end ScriptVm
