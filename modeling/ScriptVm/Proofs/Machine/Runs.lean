import ScriptVm.Machine.Entity
import ScriptVm.Machine.Step
import ScriptVm.Proofs.Environment.Loading
import ScriptVm.Proofs.Machine.Calls

/-!
# Safe runs

A protected run is safe where the calls it makes are carried out safely. Inside it the calls that
are active when it begins stay active, so it runs under a contract that keeps them.

* `keeping` is the contract inside a run, `SafeExecutor` says that calls are carried out safely.
* `safe_runProtected` is a run; `safe_runValue`, `safe_invokeForObject`, `safe_callInitializer` are
  what a host calls.
* `safe_loadScript`, `safe_loadClass` load scripts, which runs them; `safe_spawn` to
  `safe_invokeWithDefault` are about entities.
-/

namespace ScriptVm
namespace Contract

variable {c : Contract} {heap : Heap} {m m' : Machine} {n : Nat}

/-- The same contract with another number of calls that stay active. -/
def keeping (c : Contract) (n : Nat) (hn : c.base ≤ n) : Contract :=
  { c with calls := n, base_le_calls := hn }

/-! ### Other calls, the same contract -/

section Keeping

variable {hn : c.base ≤ n}

theorem goodObject_keeping {o : Obj} : (c.keeping n hn).GoodObject heap o ↔ c.GoodObject heap o :=
  ⟨fun ho => ⟨ho.children, ho.code⟩, fun ho => ⟨ho.children, ho.code⟩⟩

theorem goodHeap_keeping : (c.keeping n hn).GoodHeap heap ↔ c.GoodHeap heap :=
  ⟨fun hh => ⟨hh.slotted, fun h o ho => goodObject_keeping.1 (hh.objects h o ho)⟩,
    fun hh => ⟨hh.slotted, fun h o ho => goodObject_keeping.2 (hh.objects h o ho)⟩⟩

theorem respects_keeping {natives : Natives} :
    (c.keeping n hn).Respects natives ↔ c.Respects natives := by
  constructor
  · intro hr name mem args hh hargs
    obtain ⟨hheap, hrest⟩ := hr name mem args (goodHeap_keeping.2 hh) hargs
    exact ⟨goodHeap_keeping.1 hheap, hrest⟩
  · intro hr name mem args hh hargs
    obtain ⟨hheap, hrest⟩ := hr name mem args (goodHeap_keeping.1 hh) hargs
    exact ⟨goodHeap_keeping.2 hheap, hrest⟩

theorem goodEnvironment_keeping {env : Environment} :
    (c.keeping n hn).GoodEnvironment env ↔ c.GoodEnvironment env := by
  constructor
  · intro hg
    exact ⟨goodHeap_keeping.1 hg.heap, hg.globals, hg.constants, hg.modules, hg.functions,
      hg.classes, hg.entityBase, hg.extraRoots, respects_keeping.1 hg.natives⟩
  · intro hg
    exact ⟨goodHeap_keeping.2 hg.heap, hg.globals, hg.constants, hg.modules, hg.functions,
      hg.classes, hg.entityBase, hg.extraRoots, respects_keeping.2 hg.natives⟩

theorem goodFrame_keeping {f : Frame} :
    (c.keeping n hn).GoodFrame heap f ↔ c.GoodFrame heap f :=
  ⟨fun hf => ⟨hf.function, hf.ip_le, hf.slots_le, hf.code_le⟩,
    fun hf => ⟨hf.function, hf.ip_le, hf.slots_le, hf.code_le⟩⟩

/-- Calls that are active may be kept. -/
theorem GoodMachine.keep (hm : c.GoodMachine m) (hn : c.base ≤ n)
    (hle : n ≤ m.thread.frames.size) : (c.keeping n hn).GoodMachine m :=
  ⟨goodEnvironment_keeping.2 hm.env,
    { stack := hm.thread.stack, stack_le := hm.thread.stack_le, floor_le := hm.thread.floor_le
      frames := fun f hf => goodFrame_keeping.2 (hm.thread.frames f hf)
      frames_le := hm.thread.frames_le, calls_le := hle, above := hm.thread.above
      register := hm.thread.register }⟩

/-- What keeps more calls keeps fewer. -/
theorem GoodMachine.release (hm : (c.keeping n hn).GoodMachine m) (hle : c.calls ≤ n) :
    c.GoodMachine m :=
  ⟨goodEnvironment_keeping.1 hm.env,
    { stack := hm.thread.stack, stack_le := hm.thread.stack_le, floor_le := hm.thread.floor_le
      frames := fun f hf => goodFrame_keeping.1 (hm.thread.frames f hf)
      frames_le := hm.thread.frames_le, calls_le := Nat.le_trans hle hm.thread.calls_le
      above := hm.thread.above, register := hm.thread.register }⟩

theorem Continues.release (hc : (c.keeping n hn).Continues m m') : c.Continues m m' :=
  ⟨hc.grows, hc.below, hc.returnFrame⟩

theorem Safe.release {ε α : Type} {x : EStateM (Halt ε) Machine α} {Q : α → Machine → Prop}
    (hx : (c.keeping n hn).Safe m x Q) (hle : c.calls ≤ n) :
    c.Safe m x fun a m' => n ≤ m'.thread.frames.size ∧ Q a m' := by
  unfold Safe at hx ⊢
  split at hx
  · exact ⟨hx.1.release hle, hx.2.1.release, hx.1.thread.calls_le, hx.2.2⟩
  · exact ⟨hx.1.release hle, hx.2.1.release, hx.2.2⟩

end Keeping

/-- Carrying out the calls of a run is safe and leaves a result. -/
def SafeExecutor (c : Contract) (executor : Exec Unit) : Prop :=
  ∀ n (hn : c.base ≤ n) m, (c.keeping n hn).GoodMachine m → m.thread.returnFrame = n →
    (c.keeping n hn).Answered m.thread →
      (c.keeping n hn).Safe m executor fun _ m' => c.Room 1 m'.thread

/-! ### Protected runs -/

section Runs

open Exec

variable {executor body : Exec Unit} {v : Value} {args : List Value}

theorem safe_seqRight {α β : Type} {x : Exec α} {y : Exec β} {Q : β → Machine → Prop} :
    c.Safe m (x *> y) Q ↔ c.Safe m (x >>= fun _ => y) Q := Iff.rfl

theorem GoodMachine.beginRun (hm : c.GoodMachine m) : c.GoodMachine m.beginRun :=
  ⟨hm.env, { hm.thread with }⟩

theorem GoodMachine.report (hm : c.GoodMachine m) (level : Level) (text : Unit → String) :
    c.GoodMachine { m with env := m.env.report level text } :=
  ⟨(hm.env.evolves_report level text).good, hm.thread⟩

/-- Giving a fault its trace only writes to the log. -/
theorem GoodMachine.attachTrace (hm : c.GoodMachine m) (f : Fault) :
    c.GoodMachine (m.attachTrace f).2 := by
  unfold Machine.attachTrace
  split
  · exact hm.report _ _
  · exact hm

theorem continues_attachTrace (m : Machine) (f : Fault) : c.Continues m (m.attachTrace f).2 := by
  unfold Machine.attachTrace
  split
  · exact ⟨.refl c _, fun _ _ => rfl, rfl⟩
  · exact .refl c m

/-- A machine at the end of a run is good if it was so inside. -/
theorem GoodMachine.endRun {hn : c.base ≤ n} (hm : (c.keeping n hn).GoodMachine m)
    (hcalls : c.calls ≤ n) {height : Nat} (hheight : c.floor ≤ height) (returnFrame : Nat)
    (outcome : ThreadState) : c.GoodMachine (m.endRun height n returnFrame outcome) := by
  have hkept : n ≤ m.thread.frames.size := hm.thread.calls_le
  have hm := hm.release hcalls
  have hfloor := hm.thread.floor_le
  have hssize : (m.thread.stack.shrink height).size = min height m.thread.stack.size :=
    Array.size_shrink
  have hfsize : (m.thread.frames.shrink n).size = min n m.thread.frames.size := Array.size_shrink
  refine ⟨hm.env,
    { stack := ?_, stack_le := ?_, floor_le := ?_, frames := ?_, frames_le := ?_, calls_le := ?_
      above := ?_, register := hm.thread.register }⟩
  · intro v hv
    change v ∈ (m.thread.stack.shrink height).toList at hv
    rw [Array.toList_shrink] at hv
    exact hm.thread.stack v (List.mem_of_mem_take hv)
  · intro hs
    have hstack := hm.thread.stack_le hs
    show (m.thread.stack.shrink height).size ≤ _
    omega
  · show _ ≤ (m.thread.stack.shrink height).size
    omega
  · intro f hf
    change f ∈ (m.thread.frames.shrink n).toList at hf
    rw [Array.toList_shrink] at hf
    exact hm.thread.frames f (List.mem_of_mem_take hf)
  · intro hs
    have hframes := hm.thread.frames_le hs
    show (m.thread.frames.shrink n).size ≤ _
    omega
  · show _ ≤ (m.thread.frames.shrink n).size
    omega
  · intro i f hi hf
    change (m.thread.frames.shrink n)[i]? = some f at hf
    rw [← Array.getElem?_toList, Array.toList_shrink, List.getElem?_take] at hf
    split at hf
    · exact hm.thread.above i f hi (by rwa [← Array.getElem?_toList])
    · cases hf

/-- A whole run continues the machine before it. -/
theorem Continues.endRun (hc : c.Continues m.beginRun m') (hfloor : c.floor ≤ m.thread.stack.size)
    (calls : Nat) (outcome : ThreadState) :
    c.Continues m (m'.endRun m.thread.stack.size calls m.thread.returnFrame outcome) := by
  refine ⟨hc.grows, fun i hi => ?_, rfl⟩
  show (m'.thread.stack.shrink m.thread.stack.size)[i]? = _
  rw [← Array.getElem?_toList, Array.toList_shrink, List.getElem?_take_of_lt (by omega),
    Array.getElem?_toList]
  exact hc.below i hi

theorem safe_runProtected (hm : c.GoodMachine m)
    (hbody : ∀ hn : c.base ≤ m.thread.frames.size,
      (c.keeping m.thread.frames.size hn).GoodMachine m.beginRun →
        (c.keeping m.thread.frames.size hn).Safe m.beginRun body fun _ m' => c.Room 1 m'.thread) :
    c.Safe m (runProtected body) fun v m' => c.Good m'.env.heap v := by
  have hcalls := hm.thread.calls_le
  have hfloor := hm.thread.floor_le
  have hn : c.base ≤ m.thread.frames.size := Nat.le_trans c.base_le_calls hcalls
  -- inside the run all calls that are active now stay active
  have hrun : (c.keeping m.thread.frames.size hn).Safe m.beginRun (body *> pop)
      fun v m' => c.Good m'.env.heap v := by
    rw [safe_seqRight]
    refine (hbody hn (hm.beginRun.keep hn (Nat.le_refl _))).bind fun _ m₁ hm₁ _ hr => ?_
    exact (safe_pop (k := 0) hm₁ hr).mono fun _ _ _ hq => hq.1
  unfold Safe at hrun ⊢
  unfold runProtected
  split at hrun
  · rename_i v m' heq
    obtain ⟨hm', hc', hv⟩ := hrun
    simp only [heq]
    exact ⟨hm'.endRun hcalls hfloor _ _, hc'.release.endRun hfloor _ _, hv⟩
  · rename_i e m' heq
    obtain ⟨hm', hc', he⟩ := hrun
    cases e with
    | error f =>
      simp only [heq]
      exact ⟨(hm'.attachTrace f).endRun hcalls hfloor _ _,
        (hc'.release.trans (continues_attachTrace m' f)).endRun hfloor _ _,
        fun _ he => by cases he⟩
    | outOfFuel =>
      simp only [heq]
      exact ⟨hm'.endRun hcalls hfloor _ _, hc'.release.endRun hfloor _ _, he⟩
    | overflow =>
      simp only [heq]
      exact ⟨hm'.endRun hcalls hfloor _ _, hc'.release.endRun hfloor _ _, he⟩

/-- Once a call is made, a safe executor carries it out. -/
theorem SafeExecutor.run (he : c.SafeExecutor executor) {hn : c.base ≤ m.thread.frames.size}
    (hm' : (c.keeping m.thread.frames.size hn).GoodMachine m')
    (hc : (c.keeping m.thread.frames.size hn).Continues m.beginRun m')
    (ha : (c.keeping m.thread.frames.size hn).Answered m'.thread) :
    (c.keeping m.thread.frames.size hn).Safe m' executor fun _ m'' => c.Room 1 m''.thread :=
  he _ hn m' hm' hc.returnFrame ha

/-- A run that pushes a value and arguments, makes a call with them and carries it out. -/
theorem safe_runCall (hm : c.GoodMachine m) (he : c.SafeExecutor executor) {make : Exec Unit}
    (hv : c.Good m.env.heap v) (hargs : ∀ w ∈ args, c.Good m.env.heap w)
    (hmake : ∀ n (hn : c.base ≤ n) m', (c.keeping n hn).GoodMachine m' →
      c.Grows m.env.heap m'.env.heap → (c.sized → args.length ≤ Thread.maxStack) →
        c.Room (args.length + 1) m'.thread →
          (c.keeping n hn).Safe m' make fun _ m'' => (c.keeping n hn).Answered m''.thread) :
    c.Safe m (runProtected do
      push v
      pushAll args
      make
      executor) fun v m' => c.Good m'.env.heap v := by
  refine safe_runProtected hm fun hn hb => ?_
  refine (safe_push hb hb.room_zero hv).bind fun _ m₁ hm₁ hc₁ hq₁ => ?_
  refine (safe_pushAll args hm₁ hq₁.1 fun w hw => (hargs w hw).mono hc₁.grows).bind
    fun _ m₂ hm₂ hc₂ hq₂ => ?_
  have hargc : c.sized → args.length ≤ Thread.maxStack := by
    intro hs
    have := hm₂.thread.stack_le hs
    omega
  have hroom : c.Room (args.length + 1) m₂.thread := Room.mono hq₂.1 (by omega)
  refine (hmake _ hn m₂ hm₂ (hc₁.trans hc₂).grows hargc hroom).bind fun _ m₃ hm₃ hc₃ ha => ?_
  exact he.run hm₃ (hc₁.trans (hc₂.trans hc₃)) ha

theorem safe_runValue (hm : c.GoodMachine m) (he : c.SafeExecutor executor)
    (hv : c.Good m.env.heap v) (hargs : ∀ w ∈ args, c.Good m.env.heap w) :
    c.Safe m (runValue executor v args) fun v m' => c.Good m'.env.heap v :=
  safe_runCall hm he hv hargs fun _ _ _ hm' _ hargc hroom => safe_callValue hm' hargc hroom

theorem safe_invokeForObject (hm : c.GoodMachine m) (he : c.SafeExecutor executor)
    {receiver : Value} (hv : c.Good m.env.heap v) (hr : c.Good m.env.heap receiver)
    (hargs : ∀ w ∈ args, c.Good m.env.heap w) :
    c.Safe m (invokeForObject executor v receiver args) fun v m' => c.Good m'.env.heap v :=
  safe_runCall hm he hr hargs fun _ _ _ hm' hgrows hargc hroom =>
    safe_callForObject hm' hargc hroom (Good.mono hv hgrows)

theorem safe_callInitializer (hm : c.GoodMachine m) (he : c.SafeExecutor executor) (h : Handle) :
    c.Safe m (callInitializer executor h) fun _ _ => True := by
  unfold callInitializer
  rw [safe_environment_bind]
  dsimp only
  refine safe_ofOption_bind hm _ fun i hi => ?_
  have hfinds : c.Finds m.env.heap h := finds_of_get? (Heap.instance?_eq_some.1 hi)
  split
  · exact safe_pure hm trivial
  · rename_i init hinit
    obtain ⟨k, hk, hinit⟩ := Option.bind_eq_some_iff.1 hinit
    obtain ⟨-, -, -, hgood, -⟩ := goodObject_class.1 (hm.env.goodClass hk)
    have hinvoke : c.Safe m (do
        let _ ← invokeForObject executor init (.object h) []) fun _ _ => True :=
      (safe_invokeForObject hm he (hgood init (by simp [hinit])) (good_object.2 hfinds)
        (by simp)).bind fun _ m₁ hm₁ _ _ => safe_pure hm₁ trivial
    split
    · split
      · exact hinvoke
      · exact safe_fault hm _
    · exact hinvoke

end Runs

/-! ### Loading -/

section Loading

open Load

variable {executor : Exec Unit} {α β : Type}

theorem safe_ofExec {x : Exec α} {Q : α → Machine → Prop} (hx : c.Safe m x Q) :
    c.Safe m (ofExec x) Q := hx.adaptExcept

theorem safe_toExec {x : Load α} {Q : α → Machine → Prop} (hx : c.Safe m x Q) :
    c.Safe m x.toExec Q := hx.adaptExcept

theorem safe_loadReport (hm : c.GoodMachine m) (level : Level) (text : Unit → String) :
    c.Safe m (Load.report level text) fun _ _ => True :=
  (safe_ofExec (safe_report hm level text)).forget

/-- Changing the environment alone. -/
theorem safe_modify_env (hm : c.GoodMachine m) {g : Environment → Environment}
    (he : c.Evolves m.env (g m.env)) :
    c.Safe m (modify fun m => { m with env := g m.env } : Load Unit) fun _ m' =>
      m'.env = g m.env :=
  safe_modify ⟨he.good, hm.thread.mono he.grows⟩ ⟨he.grows, fun _ _ => rfl, rfl⟩ rfl

theorem safe_mapLoader (hm : c.GoodMachine m) (g : Loader → Loader) :
    c.Safe m (mapLoader g) fun _ _ => True := by
  have hev : c.Evolves m.env { m.env with loader := m.env.loader.map g } :=
    hm.env.evolves_of_eq rfl
  exact safe_modify ⟨hev.good, hm.thread⟩ ⟨hev.grows, fun _ _ => rfl, rfl⟩ trivial

theorem safe_readModule (hm : c.GoodMachine m) (bytes : List UInt8) (file : UInt32) :
    c.Safe m (Load.readModule bytes file) fun h m' => c.Finds m'.env.heap h := by
  unfold Safe Load.readModule
  cases hr : m.env.readModule bytes file with
  | error e => exact ⟨hm, .refl c m, fun _ he => by cases he⟩
  | ok p =>
    obtain ⟨h, env⟩ := p
    obtain ⟨hev, hfinds⟩ := hm.env.evolves_readModule hr
    exact ⟨⟨hev.good, hm.thread.mono hev.grows⟩, ⟨hev.grows, fun _ _ => rfl, rfl⟩, hfinds⟩

theorem safe_runFile (hm : c.GoodMachine m) (he : c.SafeExecutor executor) (bytes : List UInt8)
    (file : UInt32) : c.Safe m (runFile executor bytes file) fun _ _ => True := by
  refine (safe_readModule hm bytes file).bind fun module m₁ hm₁ _ _ => ?_
  rw [safe_get_bind]
  split
  · rename_i entry hentry
    have hfinds := hm₁.env.finds_entryFunction hentry
    refine (safe_ofExec (safe_runValue hm₁ he (good_object.2 hfinds) (by simp))).bind
      fun _ m₂ hm₂ _ _ => ?_
    exact safe_pure hm₂ trivial
  · exact safe_pure hm₁ trivial

theorem safe_fetch (hm : c.GoodMachine m) (file : UInt32) :
    c.Safe m (fetch file) fun _ _ => True := by
  unfold Safe fetch
  cases m.env.loader with
  | none => exact ⟨hm, .refl c m, trivial⟩
  | some l =>
    have hev : c.Evolves m.env { m.env with loader := some (l.fetch file).2 } :=
      hm.env.evolves_of_eq rfl
    have hasked : c.GoodMachine { m with env := { m.env with loader := some (l.fetch file).2 } } :=
      ⟨hev.good, hm.thread⟩
    have hgone : c.Continues m { m with env := { m.env with loader := some (l.fetch file).2 } } :=
      ⟨hev.grows, fun _ _ => rfl, rfl⟩
    cases hfound : (l.fetch file).1 with
    | ok found => simpa only [hfound] using ⟨hasked, hgone, trivial⟩
    | error e => simpa only [hfound] using ⟨hasked, hgone, fun _ => nofun⟩

theorem safe_loadScript (hm : c.GoodMachine m) (he : c.SafeExecutor executor) (file : UInt32) :
    c.Safe m (loadScript executor file) fun _ _ => True := by
  refine (safe_fetch hm file).bind fun found m₁ hm₁ _ _ => ?_
  cases found with
  | cached => exact safe_pure hm₁ trivial
  | absent =>
    exact (safe_loadReport hm₁ _ _).bind fun _ m₂ hm₂ _ _ => safe_pure hm₂ trivial
  | fresh bytes =>
    exact (safe_runFile hm₁ he bytes file).bind fun _ m₂ hm₂ _ _ => safe_pure hm₂ trivial

theorem safe_loadFiles (he : c.SafeExecutor executor) (name : String) (count : Nat)
    (files : List UInt32) (first : Bool) (hm : c.GoodMachine m) :
    c.Safe m (loadFiles executor name count first files) fun _ _ => True := by
  induction files generalizing first m with
  | nil => exact safe_pure hm trivial
  | cons file rest ih =>
    refine (safe_fetch hm file).bind fun found m₁ hm₁ _ _ => ?_
    cases found with
    | cached => exact ih false hm₁
    | absent =>
      exact (safe_loadReport hm₁ _ _).bind fun _ m₂ hm₂ _ _ => safe_pure hm₂ trivial
    | fresh bytes =>
      have hrest : ∀ m₂, c.GoodMachine m₂ → c.Safe m₂ (do
          runFile executor bytes file
          loadFiles executor name count false rest) fun _ _ => True := fun m₂ hm₂ =>
        (safe_runFile hm₂ he bytes file).bind fun _ m₃ hm₃ _ _ => ih false hm₃
      dsimp only
      split
      · exact (safe_loadReport hm₁ _ _).bind fun _ m₂ hm₂ _ _ => hrest m₂ hm₂
      · exact hrest m₁ hm₁

/-- A class that was found is registered. -/
theorem evolves_classes {env : Environment} (hg : c.GoodEnvironment env) {h : Handle}
    (hh : c.Finds env.heap h) : c.Evolves env { env with classes := env.classes.push h } :=
  ⟨⟨hg.heap, hg.globals, hg.constants, hg.modules, hg.functions, forall_mem_push hg.classes hh,
    hg.entityBase, hg.extraRoots, hg.natives⟩, .refl c _⟩

theorem safe_bindClass (hm : c.GoodMachine m) (name : String) (hash : UInt32) :
    c.Safe m (bindClass name hash) fun _ _ => True := by
  unfold bindClass
  rw [safe_get_bind]
  dsimp only
  split
  · split
    · exact safe_pure hm trivial
    · split
      · exact (safe_loadReport hm _ _).bind fun _ m₁ hm₁ _ _ => safe_pure hm₁ trivial
      · rename_i k hk
        have hfinds : c.Finds m.env.heap k := GoodEnvironment.finds_of_classByHash? hk
        refine (safe_mapLoader hm _).bind fun _ m₁ hm₁ hc₁ _ => ?_
        refine (safe_modify_env (g := fun env => { env with classes := env.classes.push k }) hm₁
          (evolves_classes hm₁.env (hfinds.mono hc₁.grows))).bind fun _ m₂ hm₂ _ _ => ?_
        split
        · exact safe_pure hm₂ trivial
        · rename_i b _
          split
          · refine (safe_loadReport hm₂ _ _).bind fun _ m₃ hm₃ _ _ => ?_
            refine (safe_modify_env (g := fun env => bindMembers env b k name) hm₃
              (hm₃.env.evolves_bindMembers b k name)).bind fun _ m₄ hm₄ _ _ => ?_
            exact safe_pure hm₄ trivial
          · exact safe_pure hm₂ trivial
  · exact safe_pure hm trivial

theorem safe_loadClass (hm : c.GoodMachine m) (he : c.SafeExecutor executor) (name : String) :
    c.Safe m (loadClass executor name) fun _ _ => True := by
  unfold loadClass
  split
  · exact safe_pure hm trivial
  · dsimp only
    rw [safe_get_bind]
    split
    · split
      · exact (safe_loadReport hm _ _).bind fun _ m₁ hm₁ _ _ => safe_pure hm₁ trivial
      · refine (safe_loadFiles he name _ _ true hm).bind fun loaded m₁ hm₁ _ _ => ?_
        split
        · exact safe_bindClass hm₁ name _
        · exact safe_pure hm₁ trivial
    · exact safe_pure hm trivial

end Loading

/-! ### Entities -/

section Entities

open Exec

variable {executor : Exec Unit} {h : Handle} {args : List Value}

theorem safe_newEntity (hm : c.GoodMachine m) {k : Handle} (hk : c.Finds m.env.heap k)
    (e : EntityId) :
    c.Safe m (onEnvironment (·.newEntity k e)) fun h m' => c.Finds m'.env.heap h := by
  obtain ⟨h, env', hnew, hev, hfinds⟩ := hm.env.evolves_newEntity e hk
  refine (safe_onEnvironment hm (by rwa [hnew])).mono fun h' m' _ hq => ?_
  obtain ⟨rfl, henv, -⟩ := hq
  rw [henv, hnew]
  exact hfinds

theorem safe_spawn (hm : c.GoodMachine m) (he : c.SafeExecutor executor) (k : Handle)
    (e : EntityId) : c.Safe m (spawn executor k e) fun h m' => c.Finds m'.env.heap h := by
  unfold spawn
  rw [safe_environment_bind]
  split
  · rename_i hclass
    refine (safe_newEntity hm (GoodEnvironment.finds_of_isClass hclass) e).bind
      fun h m₁ hm₁ _ hfinds => ?_
    rw [safe_environment_bind]
    refine (safe_report hm₁ _ _).bind fun _ m₂ hm₂ hc₂ _ => ?_
    refine (safe_callInitializer hm₂ he h).bind fun _ m₃ hm₃ hc₃ _ => ?_
    exact safe_pure hm₃ (hfinds.mono (hc₂.trans hc₃).grows)
  · exact safe_fault hm _

theorem safe_cloneEntity (hm : c.GoodMachine m) (source : Handle) (e : EntityId) :
    c.Safe m (cloneEntity source e) fun h m' => c.Finds m'.env.heap h := by
  unfold cloneEntity
  rw [safe_environment_bind]
  refine safe_ofOption_bind hm _ fun i hi => ?_
  obtain ⟨hclass, hfields⟩ :=
    goodObject_inst.1 (hm.env.heap.objects source _ (Heap.instance?_eq_some.1 hi))
  dsimp only
  refine (safe_newEntity hm hclass e).bind fun h m₁ hm₁ hc₁ hfinds => ?_
  have hplain : ∀ f ∈ i.fields.entries.filter (fun f => !f.2.isLinked), c.Good m₁.env.heap f.2 :=
    fun f hf => (hfields f.2 (List.mem_map_of_mem (List.mem_filter.1 hf).1)).mono hc₁.grows
  refine (safe_mapEnvironment hm₁ (hm₁.env.evolves_addMissingFields h hplain)).bind
    fun _ m₂ hm₂ hc₂ _ => ?_
  exact safe_pure hm₂ (hfinds.mono hc₂.grows)

theorem safe_callable (hm : c.GoodMachine m) (h : Handle) (hash : UInt32) :
    c.Safe m (onEnvironment (·.callable h hash)) fun r m' =>
      ∀ v, r = some v → c.Good m'.env.heap v ∧ c.Finds m'.env.heap h := by
  obtain ⟨hev, hfound⟩ := hm.env.evolves_callable h hash
  refine (safe_onEnvironment hm hev).mono fun r m' _ hq => ?_
  obtain ⟨rfl, henv, -⟩ := hq
  rw [henv]
  exact hfound

theorem safe_runEvent (hm : c.GoodMachine m) (he : c.SafeExecutor executor) (h : Handle)
    (hash : UInt32) (hargs : ∀ w ∈ args, c.Good m.env.heap w) :
    c.Safe m (runEvent executor h hash args) fun _ _ => True := by
  refine (safe_callable hm h hash).bind fun r m₁ hm₁ hc₁ hq => ?_
  cases r with
  | none => exact safe_pure hm₁ trivial
  | some f =>
    obtain ⟨hf, hh⟩ := hq f rfl
    refine (safe_invokeForObject hm₁ he hf (good_object.2 hh)
      fun w hw => (hargs w hw).mono hc₁.grows).bind fun _ m₂ hm₂ _ _ => ?_
    exact safe_pure hm₂ trivial

theorem safe_runNative (hm : c.GoodMachine m) (name : String) {args : Array Value}
    (hargs : ∀ w ∈ args, c.Good m.env.heap w) :
    c.Safe m (runNative name args) fun v m' => c.Good m'.env.heap v := by
  obtain ⟨hheap, hgrows, hresult⟩ := hm.env.natives name m.env.memory args hm.env.heap hargs
  unfold runNative
  rw [safe_environment_bind]
  refine (safe_onMemory hm hheap hgrows).bind fun r m₁ hm₁ _ hq => ?_
  obtain ⟨rfl, hmem, -⟩ := hq
  cases hr : (m.env.natives name m.env.memory args).1 with
  | error cause => exact safe_fault hm₁ cause
  | ok v =>
    refine safe_pure hm₁ ?_
    show c.Good m₁.env.memory.heap v
    rw [hmem]
    exact hresult v hr

theorem safe_invokeWithDefault (hm : c.GoodMachine m) (he : c.SafeExecutor executor)
    (hash : UInt32) (native : String) (hh : c.Finds m.env.heap h)
    (hargs : ∀ w ∈ args, c.Good m.env.heap w) :
    c.Safe m (invokeWithDefault executor h hash native args) fun v m' =>
      c.Good m'.env.heap v := by
  have hdirect : ∀ m₁, c.GoodMachine m₁ → c.Continues m m₁ →
      c.Safe m₁ (runNative native (.object h :: args).toArray) fun v m' =>
        c.Good m'.env.heap v := by
    intro m₁ hm₁ hc₁
    refine safe_runNative hm₁ native fun w hw => ?_
    rw [List.mem_toArray, List.mem_cons] at hw
    rcases hw with rfl | hw
    · exact (good_object.2 hh).mono hc₁.grows
    · exact (hargs w hw).mono hc₁.grows
  unfold invokeWithDefault
  refine (safe_callable hm h hash).bind fun r m₁ hm₁ hc₁ hq => ?_
  cases r with
  | none => exact hdirect m₁ hm₁ hc₁
  | some f =>
    obtain ⟨hf, hh⟩ := hq f rfl
    dsimp only
    rw [safe_environment_bind]
    split
    · exact hdirect m₁ hm₁ hc₁
    · exact safe_invokeForObject hm₁ he hf (good_object.2 hh)
        fun w hw => (hargs w hw).mono hc₁.grows

end Entities

end Contract
end ScriptVm
