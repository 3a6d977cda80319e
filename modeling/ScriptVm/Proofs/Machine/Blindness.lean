import ScriptVm.Machine.Property
import ScriptVm.Proofs.Environment.Stripping

/-!
# Actions that do not look at line tables

`Machine.Twins` relates machines that are the same but for line tables, with debugging disabled. An
action is `Blind` if it has the same result on twins, or halts alike, and leaves twins.

* `Blind.bind` and `Blind.map` put actions together. `blind_get`, `blind_environment` and
  `blind_memory` are for what comes after a look at the machine: it must not use a line table.
* A change of the environment is blind if it may come before the tables are taken away or after it.
* The operand stack and the current call are the same on twins.
-/

namespace ScriptVm

/-- The fault with no line of the source in its trace. -/
def Fault.stripped (f : Fault) : Fault := { f with stack := f.stack.map StackFrame.stripped }

/-- The error with no line of the source in the trace of its fault. -/
def RegistryError.stripped : RegistryError → RegistryError
  | .vm f => .vm f.stripped
  | e => e

/-- Errors that may carry a trace. -/
class HasTrace (ε : Type) where
  stripped : ε → ε

instance : HasTrace Fault := ⟨Fault.stripped⟩

instance : HasTrace RegistryError := ⟨RegistryError.stripped⟩

/-- Two halts are the same but for lines of the source. -/
inductive Halt.Alike {ε : Type} [HasTrace ε] : Halt ε → Halt ε → Prop
  | error {e e' : ε} : HasTrace.stripped e = HasTrace.stripped e' → Alike (.error e) (.error e')
  | outOfFuel : Alike .outOfFuel .outOfFuel
  | overflow : Alike .overflow .overflow

theorem Halt.Alike.refl {ε : Type} [HasTrace ε] (e : Halt ε) : e.Alike e := by
  cases e with
  | error e => exact .error rfl
  | outOfFuel => exact .outOfFuel
  | overflow => exact .overflow

/-- Two machines are the same but for line tables. They do not debug, and their natives do not look
at line tables. -/
structure Machine.Twins (m m' : Machine) : Prop where
  env : m.env.Alike m'.env
  thread : m'.thread = m.thread
  quiet : m.thread.debug.enabled = false
  blind : ∀ name, (m.env.natives name).LineBlind

namespace Machine.Twins

variable {m m' : Machine}

/-- A change of the threads that leaves their debugging state alone. -/
theorem mapThread (hm : m.Twins m') {u : Thread → Thread} (hu : ∀ t, (u t).debug = t.debug) :
    (m.mapThread u).Twins (m'.mapThread u) := by
  refine ⟨hm.env, congrArg u hm.thread, ?_, hm.blind⟩
  show (u m.thread).debug.enabled = false
  rw [hu]
  exact hm.quiet

theorem mapStack (hm : m.Twins m') (g : Array Value → Array Value) :
    (m.mapStack g).Twins (m'.mapStack g) :=
  hm.mapThread (u := fun t => { t with stack := g t.stack }) fun _ => rfl

theorem mapFrames (hm : m.Twins m') (g : Array Frame → Array Frame) :
    (m.mapFrames g).Twins (m'.mapFrames g) :=
  hm.mapThread (u := fun t => { t with frames := g t.frames }) fun _ => rfl

theorem mapFrame (hm : m.Twins m') (g : Frame → Frame) : (m.mapFrame g).Twins (m'.mapFrame g) :=
  hm.mapThread (u := fun t => { t with frames := t.frames.modify (t.frames.size - 1) g })
    fun _ => rfl

/-- What does not look at line tables is the same. -/
theorem reads {β : Type} (hm : m.Twins m') {k : Machine → β}
    (hk : ∀ earlier env t, k ⟨env.stripped earlier, t⟩ = k ⟨env, t⟩) : k m' = k m := by
  show k ⟨m'.env, m'.thread⟩ = k ⟨m.env, m.thread⟩
  rw [hm.thread]
  exact hm.env.reads (k := fun env => k ⟨env, m.thread⟩) fun earlier env => hk earlier env m.thread

end Machine.Twins

namespace Exec

/-- Two outcomes are the same but for line tables and lines of the source. -/
inductive SameOutcome {ε α : Type} [HasTrace ε] :
    EStateM.Result (Halt ε) Machine α → EStateM.Result (Halt ε) Machine α → Prop
  | ok (a : α) {m m' : Machine} : m.Twins m' → SameOutcome (.ok a m) (.ok a m')
  | error {e e' : Halt ε} {m m' : Machine} : e.Alike e' → m.Twins m' →
    SameOutcome (.error e m) (.error e' m')

/-- The action does the same on machines that are the same but for line tables. -/
def Blind {ε α : Type} [HasTrace ε] (x : EStateM (Halt ε) Machine α) : Prop :=
  ∀ m m', m.Twins m' → SameOutcome (x m) (x m')

section Composition

variable {ε α β : Type} [HasTrace ε] {x x' : EStateM (Halt ε) Machine α}
  {f : α → EStateM (Halt ε) Machine β} {m m' : Machine}

theorem SameOutcome.same_error (e : Halt ε) (hm : m.Twins m') :
    SameOutcome (.error e m : EStateM.Result (Halt ε) Machine α) (.error e m') :=
  .error (.refl e) hm

theorem SameOutcome.bind (hx : SameOutcome (x m) (x' m')) (hf : ∀ a, Blind (f a)) :
    SameOutcome ((x >>= f) m) ((x' >>= f) m') := by
  show SameOutcome (EStateM.bind x f m) (EStateM.bind x' f m')
  unfold EStateM.bind
  generalize x m = r, x' m' = r' at hx
  cases hx with
  | ok a hm => exact hf a _ _ hm
  | error he hm => exact .error he hm

theorem Blind.bind (hx : Blind x) (hf : ∀ a, Blind (f a)) : Blind (x >>= f) :=
  fun m m' hm => (hx m m' hm).bind hf

theorem blind_pure (a : α) : Blind (pure a : EStateM (Halt ε) Machine α) :=
  fun _ _ hm => .ok a hm

theorem Blind.map (g : α → β) (hx : Blind x) : Blind (g <$> x) := by
  intro m m' hm
  have hout := hx m m' hm
  show SameOutcome (EStateM.map g x m) (EStateM.map g x m')
  unfold EStateM.map
  generalize x m = r, x m' = r' at hout
  cases hout with
  | ok a hm => exact .ok (g a) hm
  | error he hm => exact .error he hm

theorem blind_modify {u : Machine → Machine} (hu : ∀ m m', m.Twins m' → (u m).Twins (u m')) :
    Blind (modify u : EStateM (Halt ε) Machine PUnit) :=
  fun m m' hm => .ok _ (hu m m' hm)

theorem blind_mapThread {u : Thread → Thread} (hu : ∀ t, (u t).debug = t.debug) :
    Blind (modify (·.mapThread u) : EStateM (Halt ε) Machine PUnit) :=
  blind_modify fun _ _ hm => hm.mapThread hu

theorem blind_mapFrame (u : Frame → Frame) :
    Blind (modify (·.mapFrame u) : EStateM (Halt ε) Machine PUnit) :=
  blind_modify fun _ _ hm => hm.mapFrame u

/-- What comes after the machine was looked at must not look at line tables. -/
theorem blind_get {k : Machine → EStateM (Halt ε) Machine β}
    (hk : ∀ earlier env t, k ⟨env.stripped earlier, t⟩ = k ⟨env, t⟩) (h : ∀ m, Blind (k m)) :
    Blind (get >>= k) := by
  intro m m' hm
  show SameOutcome (k m m) (k m' m')
  rw [hm.reads hk]
  exact h m m m' hm

end Composition

/-! ### Reading and failing -/

section Reading

variable {α β : Type}

theorem blind_fault (c : Cause) : Blind (fault c : Exec α) := fun _ _ hm => .same_error _ hm

theorem blind_ofOption (c : Cause) (o : Option α) : Blind (ofOption c o) := by
  cases o with
  | some a => exact blind_pure a
  | none => exact blind_fault c

theorem blind_ofExcept (r : Except Cause α) : Blind (ofExcept r) := by
  cases r with
  | ok a => exact blind_pure a
  | error c => exact blind_fault c

theorem blind_environment {k : Environment → Exec β}
    (hk : ∀ earlier env, k (env.stripped earlier) = k env)
    (h : ∀ env, Blind (k env)) : Blind (environment >>= k) := by
  intro m m' hm
  show SameOutcome (k m.env m) (k m'.env m')
  rw [hm.env.reads hk]
  exact h m.env m m' hm

theorem blind_memory {k : Memory → Exec β} (hk : ∀ mem, k mem.stripped = k mem)
    (h : ∀ mem, Blind (k mem)) : Blind (memory >>= k) :=
  blind_environment (k := fun env => k env.memory) (fun _ env => hk env.memory) fun env =>
    h env.memory

theorem blind_cells : Blind cells := by
  intro m m' hm
  have hcells : m'.env.memory.cells = m.env.memory.cells :=
    hm.env.reads (k := fun env => env.memory.cells) fun _ _ => rfl
  show SameOutcome (.ok m.env.memory.cells m) (.ok m'.env.memory.cells m')
  rw [hcells]
  exact .ok _ hm

theorem blind_outOfRange : Blind (outOfRange : Exec α) := fun _ _ hm => .same_error _ hm

theorem blind_size (n : Nat) : Blind (size n) := by
  unfold size
  split
  · exact blind_pure n
  · exact blind_outOfRange

theorem blind_difference (n k : Nat) : Blind (difference n k) := by
  unfold difference
  split
  · exact blind_pure _
  · exact blind_outOfRange

theorem blind_offset (n : Int) : Blind (offset n) := by
  unfold offset
  split
  · exact blind_pure n
  · exact blind_outOfRange

end Reading

/-! ### The environment -/

section Environment

variable {α : Type}

theorem blind_onEnvironment {f : Environment → α × Environment} (hf : Environment.Strips f f) :
    Blind (onEnvironment f) := by
  intro m m' hm
  obtain ⟨hresult, henv⟩ := hm.env.apply hf hf
  show SameOutcome (.ok (f m.env).1 ⟨(f m.env).2, m.thread⟩)
    (.ok (f m'.env).1 ⟨(f m'.env).2, m'.thread⟩)
  rw [hresult, hm.thread]
  refine .ok _ ⟨henv, rfl, hm.quiet, ?_⟩
  show ∀ name, ((f m.env).2.natives name).LineBlind
  rw [hf.natives]
  exact hm.blind

theorem blind_mapEnvironment {u : Environment → Environment}
    (hu : ∀ earlier env, u (env.stripped earlier) = (u env).stripped earlier)
    (hn : ∀ env, (u env).natives = env.natives) : Blind (mapEnvironment u) :=
  blind_onEnvironment ⟨fun earlier env => congrArg (Prod.mk ()) (hu earlier env), hn⟩

theorem blind_mapHeap {u : Heap → Heap} (hu : ∀ heap : Heap, u heap.stripped = (u heap).stripped) :
    Blind (mapHeap u) :=
  blind_mapEnvironment (u := fun env => env.mapHeap u)
    (fun earlier env => env.mapHeap_stripped earlier hu) fun _ => rfl

theorem blind_modifyClass (c : Handle) (u : ClassObject → ClassObject) :
    Blind (mapHeap (·.modifyClass c u)) :=
  blind_mapHeap fun heap => heap.modifyClass_stripped c u

theorem blind_modifyModule (h : Handle) (u : ModuleObject → ModuleObject) :
    Blind (mapHeap (·.modifyModule h u)) :=
  blind_mapHeap fun heap => heap.modifyModule_stripped h u

theorem blind_mapCells (g : Cells → Cells) : Blind (mapCells g) :=
  blind_mapEnvironment
    (u := fun env => { env with memory := { env.memory with cells := g env.memory.cells } })
    (fun _ _ => rfl) fun _ => rfl

theorem blind_onMemory {α : Type} {f : Memory → α × Memory}
    (hf : ∀ mem : Memory, f mem.stripped = ((f mem).1, (f mem).2.stripped)) :
    Blind (onMemory f) := by
  refine blind_onEnvironment
    (f := fun env => ((f env.memory).1, { env with memory := (f env.memory).2 }))
    ⟨fun earlier env => ?_, fun _ => rfl⟩
  dsimp only [Environment.memory_stripped]
  rw [hf]
  rfl

theorem blind_alloc {o : Obj} (ho : o.stripped = o) : Blind (alloc o) := by
  refine blind_onMemory fun mem => ?_
  have halloc := mem.alloc_stripped o
  rw [ho] at halloc
  exact halloc

theorem blind_concatenate (a b : Value) : Blind (onMemory (·.concatenate a b)) :=
  blind_onMemory fun mem => mem.concatenate_stripped a b

theorem blind_report (level : Level) (text : Unit → String) : Blind (report level text) :=
  blind_mapEnvironment (fun earlier env => env.report_stripped earlier level text) fun _ => rfl

theorem blind_resolveParent (c : Handle) : Blind (onEnvironment (·.resolveParent c)) :=
  blind_onEnvironment ⟨fun earlier env => env.resolveParent_stripped earlier c,
    fun env => env.natives_resolveParent c⟩

theorem blind_findMember (c : Handle) (hash : UInt32) :
    Blind (onEnvironment (·.findMember c hash)) :=
  blind_onEnvironment ⟨fun earlier env => env.findMember_stripped earlier c hash,
    fun env => env.natives_findMember c hash⟩

theorem blind_hasMember (c : Handle) (hash : UInt32) : Blind (onEnvironment (·.hasMember c hash)) :=
  blind_onEnvironment ⟨fun earlier env => env.hasMember_stripped earlier c hash,
    fun env => env.natives_findMember c hash⟩

/-- A native is called with the memory that there is. -/
theorem blind_native (name : String) (args : Array Value) {k : Except Cause Value → Exec α}
    (hk : ∀ r, Blind (k r)) :
    Blind (environment >>= fun env => onMemory (fun mem => env.natives name mem args) >>= k) := by
  intro m m' hm
  have hnatives : m'.env.natives = m.env.natives :=
    hm.env.reads (k := fun env => env.natives) fun _ _ => rfl
  have hmemory : m.env.memory.stripped = m'.env.memory.stripped :=
    congrArg (fun env : Environment => env.memory) hm.env.core
  obtain ⟨hresult, hleft⟩ := hm.blind name m.env.memory m'.env.memory args hmemory
  show SameOutcome ((onMemory (fun mem => m.env.natives name mem args) >>= k) m)
    ((onMemory (fun mem => m'.env.natives name mem args) >>= k) m')
  refine SameOutcome.bind ?_ hk
  show SameOutcome
    (.ok (m.env.natives name m.env.memory args).1
      ⟨{ m.env with memory := (m.env.natives name m.env.memory args).2 }, m.thread⟩)
    (.ok (m'.env.natives name m'.env.memory args).1
      ⟨{ m'.env with memory := (m'.env.natives name m'.env.memory args).2 }, m'.thread⟩)
  rw [hnatives, ← hresult, hm.thread]
  refine .ok _ ⟨⟨?_, hm.env.log⟩, rfl, hm.quiet, hm.blind⟩
  -- nothing of the environment but the memory is new
  show { m.env.core with memory := (m.env.natives name m.env.memory args).2.stripped } =
    { m'.env.core with memory := (m.env.natives name m'.env.memory args).2.stripped }
  rw [hm.env.core, hleft]

end Environment

/-! ### The operand stack -/

section Stack

theorem blind_valueAt (index : Nat) : Blind (valueAt index) := by
  intro m m' hm
  unfold valueAt
  rw [hm.thread]
  split
  · exact .ok _ hm
  · exact .same_error _ hm

theorem blind_setValueAt (index : Nat) (v : Value) : Blind (setValueAt index v) := by
  intro m m' hm
  unfold setValueAt
  rw [hm.thread]
  split
  · exact .ok _ (hm.mapStack _)
  · exact .same_error _ hm

theorem blind_valuesFrom (start : Nat) : Blind (valuesFrom start) := by
  intro m m' hm
  unfold valuesFrom
  rw [hm.thread]
  split
  · exact .ok _ hm
  · exact .same_error _ hm

theorem blind_push (v : Value) : Blind (push v) := by
  intro m m' hm
  unfold push
  rw [hm.thread]
  split
  · exact .ok _ (hm.mapStack _)
  · exact .same_error _ hm

theorem blind_pushAll (vs : List Value) : Blind (pushAll vs) := by
  induction vs with
  | nil => exact blind_pure ()
  | cons v rest ih => exact (blind_push v).bind fun _ => ih

theorem blind_pop : Blind pop := by
  intro m m' hm
  unfold pop
  rw [hm.thread]
  split
  · exact .ok _ (hm.mapStack _)
  · exact .same_error _ hm

theorem blind_popMany (n : Nat) : Blind (popMany n) := by
  induction n with
  | zero => exact blind_pure ()
  | succ n ih => exact blind_pop.bind fun _ => ih

theorem blind_heightBelow (count : Nat) : Blind (heightBelow count) := by
  intro m m' hm
  unfold heightBelow
  rw [hm.thread]
  split
  · exact .ok _ hm
  · exact .same_error _ hm

theorem blind_peek (depth : Nat) : Blind (peek depth) :=
  (blind_size _).bind fun count => (blind_heightBelow count).bind fun height => blind_valueAt height

theorem blind_setPeek (depth : Nat) (v : Value) : Blind (setPeek depth v) :=
  (blind_size _).bind fun count => (blind_heightBelow count).bind fun height =>
    blind_setValueAt height v

theorem blind_truncate (height : Nat) : Blind (truncate height) :=
  fun _ _ hm => .ok () (hm.mapStack _)

/-! ### The current call -/

theorem blind_enter (f : Frame) : Blind (enter f) := by
  intro m m' hm
  unfold enter
  rw [hm.thread]
  split
  · exact .ok _ (hm.mapFrames _)
  · exact .same_error _ hm

theorem blind_frame : Blind frame := by
  intro m m' hm
  unfold frame
  rw [hm.thread]
  split
  · exact .ok _ hm
  · exact .same_error _ hm

theorem blind_moveTo (target : Int) : Blind (moveTo target) :=
  blind_frame.bind fun f => (blind_ofExcept (f.moveTo target)).bind fun _ => blind_mapFrame _

theorem blind_jump (distance : Int) : Blind (jump distance) :=
  blind_frame.bind fun _ => (blind_offset _).bind fun target => blind_moveTo target

end Stack

end Exec
end ScriptVm
