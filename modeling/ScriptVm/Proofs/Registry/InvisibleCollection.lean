import ScriptVm.Proofs.Registry.Mirroring

/-!
# Collections are invisible to scripts

Two registries that are set up alike, except for when they collect, answer the same calls in
the same way.

* `Registry.Reachable` is what scripts can get at from globals, constants, modules and registers.
* `Isomorphism` says that a pairing is a bijection between what two registries reach, and that what
  it pairs is the same. `Mirrors.isomorphism` finds it in registries that mirror each other.
* `Blank` says that nothing is loaded. `Blank.alike` relates registries of which nothing is loaded.
* `invisible_collection` is the result.
-/

namespace ScriptVm

namespace Registry

variable {callable : String → Prop} {n n' : Nat} {p : Pairing} {r r' : Registry} {h : Handle}

/-! ### What scripts can get at -/

/-- The handles that globals, constants, modules and registers hold. -/
def held (r : Registry) : List Handle :=
  Obj.handlesOf r.vm.env.globals.values ++ Obj.handlesOf r.vm.env.constants.values ++
    r.vm.env.modules.toList ++ Obj.handlesOf r.registers

/-- A handle is reached from globals, constants, modules and registers. -/
def Reachable (r : Registry) (h : Handle) : Prop := r.vm.env.heap.Reaches r.held h

/-- A pairing is a bijection between the handles that two registries reach, under which they have
the same objects, globals, constants, modules and registers. -/
structure Isomorphism (p : Pairing) (r r' : Registry) : Prop where
  left : ∀ h, r.Reachable h ↔ ∃ h', p.pairs h h'
  right : ∀ h', r'.Reachable h' ↔ ∃ h, p.pairs h h'
  unique : ∀ {h h' k k'}, p.pairs h h' → p.pairs k k' → (h = k ↔ h' = k')
  object : ∀ {h h'}, p.pairs h h' →
    ∃ o o', r.vm.env.heap.get? h = some o ∧ r'.vm.env.heap.get? h' = some o' ∧ o.Mirrors p o'
  globals : Table.Mirrors (Value.Mirrors p) r.vm.env.globals r'.vm.env.globals
  constants : Table.Mirrors (Value.Mirrors p) r.vm.env.constants r'.vm.env.constants
  modules : List.Forall₂ p.pairs r.vm.env.modules.toList r'.vm.env.modules.toList
  registers : List.Forall₂ (Value.Mirrors p) r.registers r'.registers

theorem Mirrors.held (hm : r.Mirrors n n' p r') : List.Forall₂ p.pairs r.held r'.held := by
  have henv := hm.main.env
  refine List.rel_append (List.rel_append (List.rel_append ?_ ?_) henv.modules) ?_
  · exact forall₂_handlesOf henv.globals.values
  · exact forall₂_handlesOf henv.constants.values
  · exact forall₂_handlesOf hm.registers

/-- The pairs of what is reached. -/
def reachedPairs (p : Pairing) (r : Registry) : Pairing :=
  { p with pairs := fun h h' => p.pairs h h' ∧ r.Reachable h }

/-- In registries that mirror each other, the pairs within reach are a bijection. -/
theorem Mirrors.isomorphism (hm : r.Mirrors n n' p r') : Isomorphism (reachedPairs p r) r r' := by
  have henv : r.vm.env.Mirrors p r'.vm.env := hm.main.env
  have hheap := henv.heap
  have hright : ∀ h', r'.Reachable h' ↔ ∃ h, p.pairs h h' ∧ r.Reachable h := by
    intro h'
    constructor
    · exact hheap.swap.reaches (forall₂_swap hm.held)
    · rintro ⟨h, hp, hr⟩
      obtain ⟨k', hpk, hr'⟩ := hheap.reaches hm.held hr
      exact (hheap.unique hp hpk).1 rfl ▸ hr'
  have hroot : ∀ h ∈ r.held, ∀ h', p.pairs h h' → (reachedPairs p r).pairs h h' :=
    fun h hh h' hp => ⟨hp, .root hh (hheap.contains hp).1⟩
  refine ⟨fun h => ⟨fun hr => ?_, ?_⟩, hright, fun hp hk => hheap.unique hp.1 hk.1, ?_, ?_,
    ?_, ?_, ?_⟩
  · obtain ⟨h', hp, -⟩ := hheap.reaches hm.held hr
    exact ⟨h', hp, hr⟩
  · rintro ⟨h', -, hr⟩
    exact hr
  · rintro h h' ⟨hp, hr⟩
    obtain ⟨o, o', ho, ho', hmirrors⟩ := hheap.object hp
    refine ⟨o, o', ho, ho', hmirrors.imp rfl fun k hk k' _ hpk => ⟨hpk, ?_⟩⟩
    exact hr.child ho hk (hheap.contains hpk).1
  · exact henv.globals.imp_of_handlesOf fun h hh h' _ => hroot h (by simp [Registry.held, hh]) h'
  · exact henv.constants.imp_of_handlesOf fun h hh h' _ => hroot h (by simp [Registry.held, hh]) h'
  · exact forall₂_imp_of_mem henv.modules fun h hh h' _ =>
      hroot h (by simp only [Registry.held, List.mem_append, hh, true_or, or_true]) h'
  · exact mirrors_imp_of_handlesOf hm.registers fun h hh h' _ =>
      hroot h (by simp [Registry.held, hh]) h'

/-! ### Registries with nothing loaded -/

/-- Nothing is loaded, and nothing has run on the first thread. -/
structure Blank (r : Registry) : Prop where
  slotted : r.vm.env.heap.Slotted
  globals : r.vm.env.globals = ∅
  constants : r.vm.env.constants = ∅
  tokens : r.vm.env.tokens = ∅
  modules : r.vm.env.modules = #[]
  functions : r.vm.env.functions = #[]
  classes : r.vm.env.classes = #[]
  entityBase : r.vm.env.entityBase = none
  extraRoots : r.vm.env.extraRoots = #[]
  rest : r.AtRest
  thread : r.main.thread = { Thread.new 0 with debug := r.main.thread.debug }
  registers : r.registers = List.replicate r.config.threads .null

theorem forall₂_empty {α β : Type} {R : α → β → Prop} {a : Array α} {b : Array β} (ha : a = #[])
    (hb : b = #[]) : List.Forall₂ R a.toList b.toList := by
  subst ha hb
  exact .nil

/-- Registries with nothing loaded mirror each other if their hosts have set up the same. -/
theorem Blank.alike (h : r.Blank) (h' : r'.Blank) (hthreads : r'.config.threads = r.config.threads)
    (hcells : r'.vm.env.memory.cells = r.vm.env.memory.cells)
    (hnatives : r'.vm.env.natives = r.vm.env.natives) (hloader : r'.vm.env.loader = r.vm.env.loader)
    (hlog : r.vm.env.log.Echoes r'.vm.env.log)
    (hfaithful : ∀ name, callable name → NativeFunction.Faithful callable (r.vm.env.natives name))
    (hbindable : ∀ l ∈ r.vm.env.loader, ∀ b ∈ l.binder, ∀ member ∈ b.members, ∀ name,
      member.value = .native name → callable name)
    (hquiet : r.main.thread.debug.QuietFor r.vm.env.heap.generationAt n)
    (hquiet' : r'.main.thread.debug.QuietFor r'.vm.env.heap.generationAt n') :
    Alike callable n n' r r' := by
  let backdrop : Backdrop :=
    { callable, generation := r.vm.env.heap.generationAt, generation' := r'.vm.env.heap.generationAt
      debug := r.main.thread.debug, debug' := r'.main.thread.debug }
  have henv : r.vm.env.Mirrors (.nothing backdrop) r'.vm.env :=
    { memory := ⟨Heap.mirrors_nothing h.slotted h'.slotted rfl rfl, hcells⟩
      globals := by
        rw [h.globals, h'.globals]
        exact Table.mirrors_empty
      constants := by
        rw [h.constants, h'.constants]
        exact Table.mirrors_empty
      tokens := h'.tokens.trans h.tokens.symm
      modules := forall₂_empty h.modules h'.modules
      functions := forall₂_empty h.functions h'.functions
      classes := forall₂_empty h.classes h'.classes
      entityBase := by
        rw [h.entityBase, h'.entityBase]
        exact .none
      extraRoots := forall₂_empty h.extraRoots h'.extraRoots
      natives := hnatives
      loader := hloader
      log := hlog
      faithful := hfaithful
      bindable := hbindable }
  refine ⟨.nothing backdrop, rfl, ⟨henv, ?_⟩, ?_, h.rest, h'.rest, hquiet, hquiet'⟩
  · rw [h.thread, h'.thread]
    exact ⟨rfl, .nil, .nil, rfl, .null, rfl, rfl, rfl, hquiet.quiet, hquiet'.quiet⟩
  · rw [h.registers, h'.registers, hthreads]
    exact List.forall₂_same.2 fun _ hv => List.eq_of_mem_replicate hv ▸ .null

theorem main_thread_new (config : Config) (source : Source) (natives : Natives) (log : Log) :
    (Registry.new config source natives log).main.thread =
      { Thread.new 0 with debug := { DebugState.off with enabled := config.debug } } := by
  have hsome : 0 < config.threads := Nat.le_max_left 1 _
  show ((((Array.range config.threads).map Thread.new).map _)[0]?).getD _ = _
  rw [Array.getElem?_map, Array.getElem?_map, Array.getElem?_range, if_pos hsome]
  rfl

theorem registers_new (config : Config) (source : Source) (natives : Natives) (log : Log) :
    (Registry.new config source natives log).registers = List.replicate config.threads .null := by
  show ((((Array.range config.threads).map Thread.new).map _).toList.map _) = _
  rw [Array.toList_map, Array.toList_map, List.map_map, List.map_map, Array.toList_range]
  refine List.eq_replicate_iff.2 ⟨by rw [List.length_map, List.length_range], fun v hv => ?_⟩
  obtain ⟨id, -, rfl⟩ := List.mem_map.1 hv
  rfl

theorem blank_new (config : Config) (source : Source) (natives : Natives) (log : Log) :
    (Registry.new config source natives log).Blank where
  slotted := Heap.slotted_withThreshold _ _
  globals := rfl
  constants := rfl
  tokens := rfl
  modules := rfl
  functions := rfl
  classes := rfl
  entityBase := rfl
  extraRoots := rfl
  rest := atRest_new _ _ _ _
  thread := by rw [main_thread_new]
  registers := registers_new _ _ _ _

/-- A registry that has just been made has no debugger. -/
theorem quietFor_new (config : Config) (source : Source) (natives : Natives) (log : Log)
    (generation : Nat → UInt32) (n : Nat) :
    (Registry.new config source natives log).main.thread.debug.QuietFor generation n := by
  rw [main_thread_new]
  exact .of_no_debugger rfl

/-- New registries without members of a host. -/
theorem alike_new (config config' : Config) (hthreads : config'.threads = config.threads)
    (source : Source) (natives : Natives) (log : Log) (n n' : Nat) :
    Alike (fun _ => False) n n' (Registry.new config source natives log)
      (Registry.new config' source natives log) := by
  have hsame : log.Echoes log := ⟨rfl, rfl⟩
  have hlog : (Registry.new config source natives log).vm.env.log.Echoes
      (Registry.new config' source natives log).vm.env.log := by
    show (log.add .debug fun _ => _).Echoes (log.add .debug fun _ => _)
    refine hsame.add .debug ?_
    rw [hthreads]
  refine (blank_new config source natives log).alike (blank_new config' source natives log)
    hthreads rfl rfl rfl hlog (fun _ h => h.elim) (fun l hl b hb => ?_) (quietFor_new _ _ _ _ _ _)
    (quietFor_new _ _ _ _ _ _)
  cases hl
  cases hb

/-- **Collections are invisible to scripts.** When they happen makes no difference to answers and
logs, nor to what can be reached, up to a bijection between handles. -/
theorem invisible_collection (config : Config) (threshold growth : Nat) (autoCollect : Bool)
    (source : Source) (natives : Natives) (log : Log) (calls : List Call) :
    let r := Registry.new config source natives log
    let r' := Registry.new { config with threshold, growth, autoCollect } source natives log
    Spacious calls r → Spacious calls r' →
      answers calls r' = answers calls r ∧
        (finish calls r').vm.env.log.lines = (finish calls r).vm.env.log.lines ∧
        ∃ p, Isomorphism p (finish calls r) (finish calls r') := by
  intro r r' hs hs'
  have halike := alike_new config { config with threshold, growth, autoCollect } rfl source
    natives log calls.length calls.length
  rw [← Nat.zero_add calls.length] at halike
  obtain ⟨hanswers, p, -, hm⟩ := halike.serve calls hs hs'
  exact ⟨hanswers, hm.main.env.log.lines, _, hm.isomorphism⟩

/-- The first function of a file that makes an array, drops it, and defines a class. -/
def tidyEntry (name : String) : Prototype :=
  let hash := Bytes.bytes32 (hashName name)
  let code :=
    [Opcode.newArray.toByte, 0, 0, 0, 0, Opcode.pop.toByte, Opcode.newClass.toByte] ++ hash ++
    [0, Opcode.defineGlobal.toByte] ++ hash ++ [Opcode.null.toByte, Opcode.ret.toByte]
  ⟨0, 0, ⟨code.toArray, none, #[], 0⟩⟩

/-- Two such files. -/
def tidySource : Source :=
  let file (name : String) := (Container.ofFunctions [tidyEntry name]).encode
  .ofLists [(1, file "Lamp"), (2, file "Door")] []

/-- Of two registries that load two files one never collects, and the other does so after each of
them. The slot of the array that the first file dropped is used again, so that the second class has
another handle. -/
theorem invisible_collection_lamp :
    let calls : List Call := [.loadScript 9 1, .loadScript 9 2]
    let r :=
      Registry.new { Config.standard with autoCollect := false } tidySource Native.standard default
    let r' := Registry.new { Config.standard with threshold := 0, growth := 0 } tidySource
      Native.standard default
    Spacious calls r ∧ Spacious calls r' ∧ answers calls r' = answers calls r ∧
      (finish calls r).vm.env.global? "Door" = some (.object ⟨13, 0⟩) ∧
      (finish calls r').vm.env.global? "Door" = some (.object ⟨12, 0⟩) ∧
      ∃ p, Isomorphism p (finish calls r) (finish calls r') := by
  intro calls r r'
  have hs : Spacious calls r := by decide +kernel
  have hs' : Spacious calls r' := by decide +kernel
  obtain ⟨hanswers, -, hend⟩ := invisible_collection
    { Config.standard with autoCollect := false } 0 0 true tidySource Native.standard
    default calls hs hs'
  exact ⟨hs, hs', hanswers, by decide +kernel, by decide +kernel, hend⟩

end Registry
end ScriptVm
