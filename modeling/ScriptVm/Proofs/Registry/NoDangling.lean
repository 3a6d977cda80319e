import ScriptVm.Native.Catalog
import ScriptVm.Proofs.Registry.Soundness

/-!
# No dangling handles

Whatever a host asks of a registry, no root and no object that roots reach holds a handle that finds
nothing.

* `Request` is one of the operations with its arguments, `Request.after` the registry that it leaves
  whether it succeeds or not.
* `Reached` are the registries that requests lead to, in any order and with anything that a host
  does between them.
* `no_dangling_handle` is the result. The natives of the catalogue meet its condition.
-/

namespace ScriptVm

open Contract

namespace Registry

/-- An operation of a registry with its arguments. -/
inductive Request where
  | loadScript (fuel : Nat) (file : UInt32)
  | loadClass (fuel : Nat) (name : String)
  | loadClasses (fuel : Nat)
  | runBytecode (fuel : Nat) (bytes : List UInt8) (file : UInt32)
  | callFunction (fuel : Nat) (name : String)
  | spawnEntity (fuel : Nat) (className : String) (e : EntityId)
  | cloneEntity (source : Handle) (e : EntityId)
  | unlinkEntity (h : Handle)
  | runEvent (fuel : Nat) (h : Handle) (event : String) (args : List Value)
  | invokeWithDefault (fuel : Nat) (h : Handle) (event native : String) (args : List Value)
  | requestCollection
  | forceCollection
  | dispose

namespace Request

/-- A request as an operation without a result. -/
def operation : Request → Operation Unit
  | .loadScript fuel file => do let _ ← Registry.loadScript fuel file
  | .loadClass fuel name => do let _ ← Registry.loadClass fuel name
  | .loadClasses fuel => do let _ ← Registry.loadClasses fuel
  | .runBytecode fuel bytes file => Registry.runBytecode fuel bytes file
  | .callFunction fuel name => do let _ ← Registry.callFunction fuel name
  | .spawnEntity fuel className e => do let _ ← Registry.spawnEntity fuel className e
  | .cloneEntity source e => do let _ ← Registry.cloneEntity source e
  | .unlinkEntity h => Registry.unlinkEntity h
  | .runEvent fuel h event args => do let _ ← Registry.runEvent fuel h event args
  | .invokeWithDefault fuel h event native args => do
    let _ ← Registry.invokeWithDefault fuel h event native args
  | .requestCollection => do let _ ← Registry.requestCollection
  | .forceCollection => do let _ ← Registry.forceCollection
  | .dispose => Registry.dispose

/-- The handles that scripts and natives get to see as they are. The other handles of a request are
looked up first and may be stale. -/
def handles : Request → List Handle
  | .runEvent _ _ _ args => Obj.handlesOf args
  | .invokeWithDefault _ h _ _ args => h :: Obj.handlesOf args
  | _ => []

/-- The registry that a request leaves. -/
def after (q : Request) (r : Registry) : Registry :=
  match q.operation r with
  | .ok _ r' => r'
  | .error _ r' => r'

end Request

/-- What a host does between requests: the handles that it leaves in the heap and in what holds
handles find objects, but for what a debugger evaluates. -/
structure Hosts (r r' : Registry) : Prop where
  heap : r.vm.env.heap.Hosted r'.vm.env.heap
  held : ∀ h ∈ r'.vm.env.roots r'.vm.threads.toList, r'.vm.env.heap.contains h = true
  natives : r'.vm.env.natives = r.vm.env.natives

/-- The registries that a host comes to. -/
inductive Reached (natives : Natives) : Registry → Prop
  | new (config : Config) (source : Source) (log : Log) :
    Reached natives (Registry.new config source natives log)
  | request {r : Registry} (q : Request) :
    Reached natives r → (∀ h ∈ q.handles, r.vm.env.heap.contains h = true) →
      Reached natives (q.after r)
  | host {r r' : Registry} : Reached natives r → r.Hosts r' → Reached natives r'

variable {natives : Natives} {r r' : Registry}

/-! ### Soundness of all registries reached -/

theorem sound_new (hn : natives.Tame) (config : Config) (source : Source) (log : Log) :
    (Registry.new config source natives log).Sound := by
  refine Environment.sound_of_good ⟨goodHeap_withThreshold _ _, ?_, ?_, ?_, ?_, ?_, ?_, ?_,
    hn.respects⟩ fun t ht => ?_
  any_goals exact fun _ hv => absurd hv List.not_mem_nil
  change t ∈ (((Array.range config.threads).map Thread.new).map _).toList at ht
  rw [Array.toList_map, List.mem_map] at ht
  obtain ⟨u, hu, rfl⟩ := ht
  rw [Array.toList_map, List.mem_map] at hu
  obtain ⟨id, -, rfl⟩ := hu
  exact { goodThread_new _ id with }

theorem leaves_operation (q : Request) (hs : r.Sound)
    (hh : ∀ h ∈ q.handles, r.vm.env.heap.contains h = true) :
    Leaves r q.operation Sound fun _ _ => True := by
  have hdiscard : ∀ {α : Type} {x : Operation α}, Leaves r x Sound (fun _ _ => True) →
      Leaves r (do let _ ← x) Sound fun _ _ => True := fun hx =>
    hx.bind fun _ _ hs' _ => leaves_pure hs' trivial
  cases q with
  | loadScript fuel file => exact hdiscard (leaves_loadScript hs fuel file)
  | loadClass fuel name => exact hdiscard (leaves_loadClass hs fuel name)
  | loadClasses fuel => exact hdiscard (leaves_loadClasses hs fuel)
  | runBytecode fuel bytes file => exact leaves_runBytecode hs fuel bytes file
  | callFunction fuel name => exact hdiscard (leaves_callFunction hs fuel name)
  | spawnEntity fuel className e => exact hdiscard (leaves_spawnEntity hs fuel className e)
  | cloneEntity source e => exact hdiscard (leaves_cloneEntity hs source e)
  | unlinkEntity h => exact leaves_unlinkEntity hs h
  | runEvent fuel h event args => exact hdiscard (leaves_runEvent hs fuel h event hh)
  | invokeWithDefault fuel h event native args =>
    obtain ⟨hh, hargs⟩ := List.forall_mem_cons.1 hh
    exact hdiscard (leaves_invokeWithDefault hs fuel event native hh hargs)
  | requestCollection => exact hdiscard (leaves_requestCollection hs)
  | forceCollection => exact hdiscard (leaves_forceCollection hs)
  | dispose => exact leaves_dispose hs

theorem Sound.after (hs : r.Sound) (q : Request)
    (hh : ∀ h ∈ q.handles, r.vm.env.heap.contains h = true) : (q.after r).Sound := by
  have hleaves := leaves_operation q hs hh
  unfold Leaves at hleaves
  unfold Request.after
  split at hleaves <;> rename_i heq <;> rw [heq]
  · exact hleaves.1
  · exact hleaves

theorem Sound.hosted (hs : r.Sound) (hh : r.Hosts r') : r'.Sound := by
  obtain ⟨hgood, -⟩ := hh.heap.good (goodHeap_alive.2 ⟨hs.slotted, hs.closed⟩)
  obtain ⟨hslotted, hclosed⟩ := goodHeap_alive.1 hgood
  exact ⟨hslotted, hclosed, hh.held, hh.natives ▸ hs.natives⟩

theorem Reached.sound (hn : natives.Tame) (hr : Reached natives r) : r.Sound := by
  induction hr with
  | new config source log => exact sound_new hn config source log
  | request q _ hh ih => exact ih.after q hh
  | host _ hh ih => exact ih.hosted hh

end Registry

/-! ### Natives of the catalogue -/

namespace Native

variable {f : Memory → Array Value → Except Cause Value} {α : Type}

/-- A native that changes nothing is tame if its result is an object of the heap. -/
theorem tame_pureNative
    (hf : ∀ (mem : Memory) args v h, mem.heap.Closed →
      (∀ h ∈ Obj.handlesOf args.toList, mem.heap.contains h = true) →
        f mem args = .ok v → v.object? = some h → mem.heap.contains h = true) :
    NativeFunction.Tame (pureNative f) :=
  fun mem args _ hc hargs => ⟨.refl, fun v h hv hh => hf mem args v h hc hargs hv hh⟩

/-- A native that changes nothing is tame if its result is never an object. -/
theorem tame_of_plain (hf : ∀ mem args v, f mem args = .ok v → v.object? = none) :
    NativeFunction.Tame (pureNative f) := by
  refine tame_pureNative fun mem args v h _ _ hv hh => ?_
  rw [hf mem args v hv] at hh
  cases hh

/-- A result of two parts needs a result of the first. -/
theorem ok_of_bind {β : Type} {x : Except Cause α} {g : α → Except Cause β} {b : β}
    (hb : (x >>= g) = .ok b) : ∃ a, x = .ok a ∧ g a = .ok b := by
  cases x with
  | error e => cases hb
  | ok a => exact ⟨a, rfl, hb⟩

theorem tame_argc : NativeFunction.Tame argc := by
  refine tame_of_plain fun mem args v hv => ?_
  cases hv
  rfl

theorem tame_add2 : NativeFunction.Tame add2 := by
  refine tame_of_plain fun mem args v hv => ?_
  obtain ⟨-, -, hv⟩ := ok_of_bind hv
  obtain ⟨a, -, hv⟩ := ok_of_bind hv
  obtain ⟨b, -, hv⟩ := ok_of_bind hv
  cases hv
  rfl

theorem tame_scale : NativeFunction.Tame scale := by
  refine tame_of_plain fun mem args v hv => ?_
  obtain ⟨-, -, hv⟩ := ok_of_bind hv
  dsimp only at hv
  split at hv
  all_goals
    obtain ⟨factor, -, hv⟩ := ok_of_bind hv
    obtain ⟨d, -, hv⟩ := ok_of_bind hv
    cases hv
    rfl

theorem tame_len : NativeFunction.Tame len := by
  refine tame_of_plain fun mem args v hv => ?_
  obtain ⟨s, -, hv⟩ := ok_of_bind hv
  cases hv
  rfl

theorem tame_fourth : NativeFunction.Tame fourth := by
  refine tame_of_plain fun mem args v hv => ?_
  obtain ⟨n, -, hv⟩ := ok_of_bind hv
  cases hv
  rfl

theorem tame_failing (severity : Severity) (text : String) :
    NativeFunction.Tame (failing severity text) :=
  tame_of_plain fun _ _ _ hv => by cases hv

theorem tame_first : NativeFunction.Tame first := by
  refine tame_pureNative fun mem args v h _ hargs hv hh => ?_
  cases hv
  cases ha : args[0]? with
  | none =>
    rw [ha] at hh
    cases hh
  | some w =>
    rw [ha] at hh
    refine hargs h (List.mem_filterMap.2 ⟨w, ?_, hh⟩)
    exact Array.mem_toList_iff.2 (Array.mem_of_getElem? ha)

/-- The class of an instance is held by it. -/
theorem tame_klass : NativeFunction.Tame klass := by
  refine tame_pureNative fun mem args v h hc _ hv hh => ?_
  obtain ⟨i, hi, hv⟩ := ok_of_bind hv
  cases hv
  cases hh
  obtain ⟨w, -, hi⟩ := ok_of_bind hi
  dsimp only at hi
  split at hi
  · rename_i found hfound
    cases hi
    obtain ⟨k, -, hget⟩ := Option.bind_eq_some_iff.1 hfound
    exact hc k _ (Heap.instance?_eq_some.1 hget) _ List.mem_cons_self
  · cases hi

/-- A native that places an object and gives it. -/
theorem tame_place {g : Memory → Array Value → Obj}
    (hg : ∀ mem args, (g mem args).children ⊆ Obj.handlesOf args.toList) :
    NativeFunction.Tame fun mem args =>
      (.ok (.object (mem.alloc (g mem args)).1), (mem.alloc (g mem args)).2) := by
  intro mem args hs _ hargs
  refine ⟨.single (.place fun k hk => hargs k (hg mem args hk)), fun v h hv hh => ?_⟩
  cases hv
  cases hh
  exact Heap.contains_of_get? (Heap.get?_alloc_self hs _)

/-- The natives of the catalogue hand over handles that find objects only. -/
theorem tame_standard : Natives.Tame standard := by
  have hcatalog : ∀ p ∈ catalog, NativeFunction.Tame p.2 := by
    simp only [catalog, List.forall_mem_cons]
    exact ⟨tame_argc, tame_add2, tame_scale, tame_len, tame_klass, tame_fourth, tame_first,
      tame_place fun _ _ => .refl _, tame_place fun _ _ => List.nil_subset _, tame_failing _ _,
      tame_failing _ _, tame_failing _ _, fun _ hp => absurd hp List.not_mem_nil⟩
  intro name
  unfold standard
  split
  · rename_i f hf
    obtain ⟨before, rest, hsplit, -⟩ := List.lookup_eq_some_iff.1 hf
    exact hcatalog (name, f) (by rw [hsplit]; simp)
  · exact tame_of_plain fun _ _ _ hv => by cases hv

end Native

namespace Registry

variable {natives : Natives} {r : Registry}

/-- **No handle dangles.** In every registry that requests lead to, each handle that a root holds
and each handle that an object reached from the roots holds finds an object. -/
theorem no_dangling_handle (hn : natives.Tame) (hr : Reached natives r) :
    (∀ h ∈ r.vm.env.roots r.vm.threads.toList, r.vm.env.heap.contains h = true) ∧
      ∀ k o, r.vm.env.heap.Reaches (r.vm.env.roots r.vm.threads.toList) k →
        r.vm.env.heap.get? k = some o → ∀ h ∈ o.children, r.vm.env.heap.contains h = true := by
  have hs := hr.sound hn
  exact ⟨hs.held, fun k o _ ho => hs.closed k o ho⟩

/-- A registry to which the host has given a class of lamps. -/
def lampRegistry : Registry :=
  let r := Registry.new .standard .empty Native.standard default
  let env :=
    { r.vm.env with
      memory := (r.vm.env.memory.alloc (.scriptClass (.ofHash (hashName "Lamp")))).2
      globals := r.vm.env.globals.insert (hashName "Lamp") (.object ⟨0, 0⟩) }
  { r with vm := { r.vm with env } }

theorem reached_lampRegistry : Reached Native.standard lampRegistry := by
  refine .host (.new .standard .empty default) ⟨?_, ?_, rfl⟩
  · exact .single (.place fun _ hk => absurd hk List.not_mem_nil)
  · decide +kernel

/-- A lamp that was spawned is a root and outlives a collection. -/
theorem no_dangling_handle_lamp :
    let r := Request.forceCollection.after ((Request.spawnEntity 9 "Lamp" ⟨0⟩).after lampRegistry)
    Reached Native.standard r ∧ r.vm.env.heap.contains ⟨1, 0⟩ = true := by
  intro r
  have hspawned : Reached Native.standard ((Request.spawnEntity 9 "Lamp" ⟨0⟩).after lampRegistry) :=
    .request _ reached_lampRegistry (by simp [Request.handles])
  have hr : Reached Native.standard r :=
    .request .forceCollection hspawned (by simp [Request.handles])
  exact ⟨hr, (no_dangling_handle Native.tame_standard hr).1 ⟨1, 0⟩ (by decide +kernel)⟩

end Registry
end ScriptVm
