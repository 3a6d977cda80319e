import ScriptVm.Machine.Execute
import ScriptVm.Proofs.Environment.Mirroring

/-!
# Actions in parallel

The same action on two machines that mirror each other has the same outcome, up to a pairing of
handles that pairs at least as much as before.

* `Frame.Mirrors`, `Thread.Mirrors` and `Machine.Mirrors` extend the relation to what executes.
  Debuggers have nothing to break at that is still there.
* `Parallel` says that two actions do so. What they give is related by the pairing that they leave;
  `Parallel.bind` puts actions together.
* The rest are the primitives: ranges, the operand stack, the calls.
-/

namespace ScriptVm

variable {p q : Pairing}

/-! ### Machines -/

/-- Two calls are the same up to handles. -/
structure Frame.Mirrors (p : Pairing) (f f' : Frame) : Prop where
  function : p.pairs f.function f'.function
  module : Option.Rel p.pairs f.module f'.module
  code : f'.code = f.code
  ip : f'.ip = f.ip
  ipLast : f'.ipLast = f.ipLast
  slots : f'.slots = f.slots
  failsafe : f'.failsafe = f.failsafe

/-- Breaks are at most at functions that are gone, as the generations of the slots tell. -/
def DebugState.Quiet (s : DebugState) (generation : Nat → UInt32) : Prop :=
  ∀ function offset, s.shouldBreak function offset = true →
  generation function.index ≠ function.generation

/-- Two threads are the same up to handles. -/
structure Thread.Mirrors (p : Pairing) (t t' : Thread) : Prop where
  id : t'.id = t.id
  stack : List.Forall₂ (Value.Mirrors p) t.stack.toList t'.stack.toList
  frames : List.Forall₂ (Frame.Mirrors p) t.frames.toList t'.frames.toList
  returnFrame : t'.returnFrame = t.returnFrame
  register : t.register.Mirrors p t'.register
  state : t'.state = t.state
  debug : t.debug = p.debug
  debug' : t'.debug = p.debug'
  quiet : p.debug.Quiet p.generation
  quiet' : p.debug'.Quiet p.generation'

/-- Two machines are the same up to handles. -/
structure Machine.Mirrors (p : Pairing) (m m' : Machine) : Prop where
  env : m.env.Mirrors p m'.env
  thread : m.thread.Mirrors p m'.thread

theorem Frame.Mirrors.mono {f f' : Frame} (h : f.Mirrors p f') (hq : p ≤ q) : f.Mirrors q f' :=
  { h with function := hq.1 _ _ h.function, module := rel_mono h.module hq }

theorem Frame.Mirrors.swap {f f' : Frame} (h : f.Mirrors p f') : f'.Mirrors p.swap f :=
  { function := h.function, module := rel_swap h.module, code := h.code.symm, ip := h.ip.symm
    ipLast := h.ipLast.symm, slots := h.slots.symm, failsafe := h.failsafe.symm }

theorem Thread.Mirrors.mono {t t' : Thread} (h : t.Mirrors p t') (hq : p ≤ q) : t.Mirrors q t' :=
  { h with
    stack := mirrors_mono h.stack hq
    frames := h.frames.imp fun _ _ hf => hf.mono hq
    register := h.register.mono hq
    debug := hq.2 ▸ h.debug
    debug' := hq.2 ▸ h.debug'
    quiet := hq.2 ▸ h.quiet
    quiet' := hq.2 ▸ h.quiet' }

theorem Thread.Mirrors.swap {t t' : Thread} (h : t.Mirrors p t') : t'.Mirrors p.swap t where
  id := h.id.symm
  stack := mirrors_swap h.stack
  frames := List.Forall₂.flip (h.frames.imp fun _ _ hf => hf.swap)
  returnFrame := h.returnFrame.symm
  register := h.register.swap
  state := h.state.symm
  debug := h.debug'
  debug' := h.debug
  quiet := h.quiet'
  quiet' := h.quiet

theorem Machine.Mirrors.swap {m m' : Machine} (h : m.Mirrors p m') : m'.Mirrors p.swap m :=
  ⟨h.env.swap, h.thread.swap⟩

theorem Thread.Mirrors.stack_size {t t' : Thread} (h : t.Mirrors p t') :
    t'.stack.size = t.stack.size :=
  h.stack.length_eq.symm

theorem Thread.Mirrors.frames_size {t t' : Thread} (h : t.Mirrors p t') :
    t'.frames.size = t.frames.size :=
  h.frames.length_eq.symm

theorem Thread.Mirrors.isActive_eq {t t' : Thread} (h : t.Mirrors p t') :
    t'.isActive = t.isActive := by
  unfold Thread.isActive
  rw [h.returnFrame, h.frames_size]

/-- Elements at the end of arrays in parallel. -/
theorem rel_back? {α β : Type} {R : α → β → Prop} {a : Array α} {b : Array β}
    (h : List.Forall₂ R a.toList b.toList) : Option.Rel R a.back? b.back? := by
  rw [Array.back?_eq_getElem?, Array.back?_eq_getElem?, ← Array.getElem?_toList,
    ← Array.getElem?_toList, ← Array.length_toList, ← Array.length_toList, h.length_eq]
  exact forall₂_getElem? h _

theorem forall₂_push {α β : Type} {R : α → β → Prop} {a : Array α} {b : Array β}
    (h : List.Forall₂ R a.toList b.toList) {x : α} {y : β} (hxy : R x y) :
    List.Forall₂ R (a.push x).toList (b.push y).toList := by
  rw [Array.toList_push, Array.toList_push]
  exact List.rel_append h (.cons hxy .nil)

theorem forall₂_modify {α β : Type} {R : α → β → Prop} {l : List α} {l' : List β}
    (h : List.Forall₂ R l l') (i : Nat) {f : α → α} {g : β → β}
    (hfg : ∀ a b, R a b → R (f a) (g b)) : List.Forall₂ R (l.modify i f) (l'.modify i g) := by
  induction h generalizing i with
  | nil => cases i <;> exact .nil
  | cons hhead htail ih =>
    cases i with
    | zero => exact .cons (hfg _ _ hhead) htail
    | succ i => exact .cons hhead (ih i)

/-- Other stacks that are the same up to handles. -/
theorem Machine.Mirrors.mapStack {m m' : Machine} (hm : m.Mirrors p m')
    {g g' : Array Value → Array Value}
    (hg : List.Forall₂ (Value.Mirrors p) (g m.thread.stack).toList (g' m'.thread.stack).toList) :
    (m.mapStack g).Mirrors p (m'.mapStack g') :=
  ⟨hm.env, { hm.thread with stack := hg }⟩

/-- Other calls that are the same up to handles. -/
theorem Machine.Mirrors.mapFrames {m m' : Machine} (hm : m.Mirrors p m')
    {g k : Array Frame → Array Frame}
    (hg : List.Forall₂ (Frame.Mirrors p) (g m.thread.frames).toList (k m'.thread.frames).toList) :
    (m.mapFrames g).Mirrors p (m'.mapFrames k) :=
  ⟨hm.env, { hm.thread with frames := hg }⟩

theorem Machine.Mirrors.mapFrame {m m' : Machine} (hm : m.Mirrors p m') {g g' : Frame → Frame}
    (hg : ∀ f f', f.Mirrors p f' → (g f).Mirrors p (g' f')) :
    (m.mapFrame g).Mirrors p (m'.mapFrame g') := by
  refine hm.mapFrames ?_
  rw [Array.toList_modify, Array.toList_modify, hm.thread.frames_size]
  exact forall₂_modify hm.thread.frames _ hg

/-! ### Outcomes -/

namespace Pairing

/-- Outcomes that mirror each other: the same failure, or results that are related. -/
inductive Outcome {ε α β : Type} (p : Pairing) (Q : Pairing → α → β → Prop) :
    EStateM.Result ε Machine α → EStateM.Result ε Machine β → Prop
  | ok {q : Pairing} {a : α} {b : β} {m m' : Machine} : p ≤ q → m.Mirrors q m' → Q q a b →
    Outcome p Q (.ok a m) (.ok b m')
  | error {q : Pairing} {m m' : Machine} (e : ε) : p ≤ q → m.Mirrors q m' →
    Outcome p Q (.error e m) (.error e m')

/-- On machines that mirror each other, two actions have outcomes that do. -/
def Parallel {ε α β : Type} (p : Pairing) (Q : Pairing → α → β → Prop) (x : EStateM ε Machine α)
    (x' : EStateM ε Machine β) : Prop :=
  ∀ q, p ≤ q → ∀ m m', m.Mirrors q m' → q.Outcome Q (x m) (x' m')

/-- The results are the same. -/
abbrev Same {α : Type} (_ : Pairing) (a b : α) : Prop := a = b

section Outcomes

variable {ε δ α β γ κ : Type} {x : EStateM ε Machine α} {x' : EStateM ε Machine β}
  {Q Q' : Pairing → α → β → Prop} {R : Pairing → γ → κ → Prop}

theorem Outcome.mono_left {r : EStateM.Result ε Machine α} {r' : EStateM.Result ε Machine β}
    (h : q.Outcome Q r r') (hq : p ≤ q) : p.Outcome Q r r' := by
  cases h with
  | ok hle hm hr => exact .ok (hq.trans hle) hm hr
  | error e hle hm => exact .error e (hq.trans hle) hm

theorem Parallel.mono (h : p.Parallel Q x x') (hq : p ≤ q) : q.Parallel Q x x' :=
  fun r hr => h r (hq.trans hr)

theorem Parallel.imp (h : p.Parallel Q x x') (hQ : ∀ q, p ≤ q → ∀ a b, Q q a b → Q' q a b) :
    p.Parallel Q' x x' := by
  intro q hq m m' hm
  have hout := h q hq m m' hm
  generalize x m = r, x' m' = r' at hout
  cases hout with
  | ok hle hm₁ hr => exact .ok hle hm₁ (hQ _ (hq.trans hle) _ _ hr)
  | error e hle hm₁ => exact .error e hle hm₁

theorem Parallel.bind {f : α → EStateM ε Machine γ} {f' : β → EStateM ε Machine κ}
    (h : p.Parallel Q x x') (hf : ∀ q, p ≤ q → ∀ a b, Q q a b → q.Parallel R (f a) (f' b)) :
    p.Parallel R (x >>= f) (x' >>= f') := by
  intro q hq m m' hm
  have hout := h q hq m m' hm
  show q.Outcome R (EStateM.bind x f m) (EStateM.bind x' f' m')
  unfold EStateM.bind
  generalize x m = r, x' m' = r' at hout
  cases hout with
  | ok hle hm₁ hr => exact (hf _ (hq.trans hle) _ _ hr _ le_rfl _ _ hm₁).mono_left hle
  | error e hle hm₁ => exact .error e hle hm₁

/-- Where both give the same, what follows may be the same too. -/
theorem Parallel.bind_same {y y' : EStateM ε Machine α} {f : α → EStateM ε Machine γ}
    {f' : α → EStateM ε Machine κ} (h : p.Parallel Same y y')
    (hf : ∀ q, p ≤ q → ∀ a, q.Parallel R (f a) (f' a)) : p.Parallel R (y >>= f) (y' >>= f') :=
  h.bind fun q hq a _ hab => hab ▸ hf q hq a

theorem Parallel.map {g : α → γ} {g' : β → κ}
    (h : p.Parallel (fun q a b => R q (g a) (g' b)) x x') : p.Parallel R (g <$> x) (g' <$> x') := by
  intro q hq m m' hm
  have hout := h q hq m m' hm
  show q.Outcome R (EStateM.map g x m) (EStateM.map g' x' m')
  unfold EStateM.map
  generalize x m = r, x' m' = r' at hout
  cases hout with
  | ok hle hm₁ hr => exact .ok hle hm₁ hr
  | error e hle hm₁ => exact .error e hle hm₁

/-- Another wording of the error makes no difference. -/
theorem Parallel.adaptExcept (h : p.Parallel Q x x') (g : ε → δ) :
    p.Parallel Q (EStateM.adaptExcept g x) (EStateM.adaptExcept g x') := by
  intro q hq m m' hm
  have hout := h q hq m m' hm
  unfold EStateM.adaptExcept
  generalize x m = r, x' m' = r' at hout
  cases hout with
  | ok hle hm₁ hr => exact .ok hle hm₁ hr
  | error e hle hm₁ => exact .error (g e) hle hm₁

theorem parallel_pure {a : α} {b : β} (hab : ∀ q, p ≤ q → Q q a b) :
    p.Parallel Q (pure a : EStateM ε Machine α) (pure b) :=
  fun q hq _ _ hm => .ok le_rfl hm (hab q hq)

theorem parallel_done : p.Parallel Same (pure () : EStateM ε Machine Unit) (pure ()) :=
  parallel_pure fun _ _ => rfl

theorem parallel_get :
    p.Parallel (fun q => Machine.Mirrors q) (get : EStateM ε Machine Machine) get :=
  fun _ _ _ _ hm => .ok le_rfl hm hm

theorem parallel_modify {u u' : Machine → Machine}
    (hu : ∀ q, p ≤ q → ∀ m m', m.Mirrors q m' → (u m).Mirrors q (u' m')) :
    p.Parallel Same (modify u : EStateM ε Machine PUnit) (modify u') :=
  fun q hq m m' hm => .ok le_rfl (hu q hq m m' hm) rfl

end Outcomes

/-! ### Reading and failing -/

open Exec

variable {α β : Type} {Q : Pairing → α → β → Prop} {v v' w w' : Value}

theorem parallel_fault (c : Cause) : p.Parallel Q (fault c : Exec α) (fault c : Exec β) :=
  fun _ _ _ _ hm => .error _ le_rfl hm

theorem parallel_ofOption {o : Option α} {o' : Option β} (c : Cause)
    (h : ∀ q, p ≤ q → Option.Rel (Q q) o o') : p.Parallel Q (ofOption c o) (ofOption c o') := by
  intro q hq m m' hm
  have hout := h q hq
  cases hout with
  | none => exact .error _ le_rfl hm
  | some hab => exact .ok le_rfl hm hab

theorem parallel_ofExcept {r : Except Cause α} {r' : Except Cause β}
    (h : ∀ q, p ≤ q → ExceptRel (Q q) r r') : p.Parallel Q (ofExcept r) (ofExcept r') := by
  intro q hq m m' hm
  have hout := h q hq
  cases hout with
  | error c => exact .error _ le_rfl hm
  | ok hab => exact .ok le_rfl hm hab

theorem parallel_ofExcept_same {α : Type} (r : Except Cause α) :
    p.Parallel Same (ofExcept r) (ofExcept r) := by
  cases r with
  | ok a => exact parallel_pure fun _ _ => rfl
  | error c => exact parallel_fault c

theorem parallel_ofOption_same {α : Type} (c : Cause) (o : Option α) :
    p.Parallel Same (ofOption c o) (ofOption c o) := by
  cases o with
  | some a => exact parallel_pure fun _ _ => rfl
  | none => exact parallel_fault c

theorem parallel_environment :
    p.Parallel (fun q => Environment.Mirrors q) environment environment :=
  fun _ _ _ _ hm => .ok le_rfl hm hm.env

theorem parallel_memory : p.Parallel (fun q => Memory.Mirrors q) memory memory :=
  fun _ _ _ _ hm => .ok le_rfl hm hm.env.memory

theorem parallel_cells : p.Parallel Same cells cells :=
  fun _ _ _ _ hm => .ok le_rfl hm hm.env.memory.cells.symm

/-! ### The environment -/

theorem parallel_onEnvironment {f : Environment → α × Environment}
    {f' : Environment → β × Environment}
    (h : ∀ q, p ≤ q → ∀ env env', env.Mirrors q env' → q.Follows Q (f env) (f' env')) :
    p.Parallel Q (onEnvironment f) (onEnvironment f') := by
  intro q hq m m' hm
  obtain ⟨q₁, hq₁, henv, hab⟩ := h q hq m.env m'.env hm.env
  exact .ok hq₁ ⟨henv, hm.thread.mono hq₁⟩ hab

theorem parallel_mapEnvironment {f f' : Environment → Environment}
    (h : ∀ q, p ≤ q → ∀ env env', env.Mirrors q env' → (f env).Mirrors q (f' env')) :
    p.Parallel Same (mapEnvironment f) (mapEnvironment f') :=
  parallel_onEnvironment fun q hq env env' henv => ⟨q, le_rfl, h q hq env env' henv, rfl⟩

theorem parallel_modifyHeap {h h' : Handle} (hp : p.pairs h h') {f f' : Obj → Obj}
    (hf : ∀ q, p ≤ q → ∀ o o', o.Mirrors q o' → (f o).Mirrors q (f' o')) :
    p.Parallel Same (mapHeap (·.modify h f)) (mapHeap (·.modify h' f')) :=
  parallel_mapEnvironment fun q hq _ _ henv => henv.modify (hq.1 _ _ hp) (hf q hq)

theorem parallel_mapCells (f : Cells → Cells) : p.Parallel Same (mapCells f) (mapCells f) := by
  refine parallel_mapEnvironment fun q hq env env' henv => ?_
  exact henv.withMemory le_rfl ⟨henv.heap, congrArg f henv.memory.cells⟩

theorem parallel_alloc {o o' : Obj} (ho : o.Mirrors p o') :
    p.Parallel (fun q h h' => q.pairs h h') (alloc o) (alloc o') :=
  parallel_onEnvironment fun _ hq _ _ henv => henv.alloc (ho.mono hq)

theorem parallel_report (level : Level) {text text' : Unit → String} (htext : text () = text' ()) :
    p.Parallel Same (Exec.report level text) (Exec.report level text') :=
  parallel_mapEnvironment fun _ _ _ _ henv => henv.report level htext

/-! ### Ranges -/

theorem parallel_size (n : Nat) : p.Parallel Same (Exec.size n) (Exec.size n) := by
  unfold Exec.size
  split
  · exact parallel_pure fun _ _ => rfl
  · exact fun _ _ _ _ hm => .error _ le_rfl hm

theorem parallel_difference (n k : Nat) : p.Parallel Same (difference n k) (difference n k) := by
  unfold difference
  split
  · exact parallel_pure fun _ _ => rfl
  · exact fun _ _ _ _ hm => .error _ le_rfl hm

theorem parallel_offset (n : Int) : p.Parallel Same (offset n) (offset n) := by
  unfold offset
  split
  · exact parallel_pure fun _ _ => rfl
  · exact fun _ _ _ _ hm => .error _ le_rfl hm

/-! ### The operand stack -/

theorem parallel_valueAt (index : Nat) :
    p.Parallel (fun q => Value.Mirrors q) (valueAt index) (valueAt index) := by
  intro q hq m m' hm
  have hvalue := forall₂_getElem? hm.thread.stack index
  unfold valueAt
  simp only [Array.getElem?_toList] at hvalue
  generalize m.thread.stack[index]? = v, m'.thread.stack[index]? = v' at hvalue
  cases hvalue with
  | none => exact .error _ le_rfl hm
  | some hv => exact .ok le_rfl hm hv

theorem parallel_setValueAt (index : Nat) (hv : v.Mirrors p v') :
    p.Parallel Same (setValueAt index v) (setValueAt index v') := by
  intro q hq m m' hm
  unfold setValueAt
  rw [hm.thread.stack_size]
  split
  · refine .ok le_rfl (hm.mapStack ?_) rfl
    rw [Array.toList_setIfInBounds, Array.toList_setIfInBounds]
    exact forall₂_set hm.thread.stack index (hv.mono hq)
  · exact .error _ le_rfl hm

theorem parallel_valuesFrom (start : Nat) :
    p.Parallel (fun q vs vs' => List.Forall₂ (Value.Mirrors q) vs.toList vs'.toList)
      (valuesFrom start) (valuesFrom start) := by
  intro q hq m m' hm
  unfold valuesFrom
  rw [hm.thread.stack_size]
  split
  · refine .ok le_rfl hm ?_
    rw [Array.toList_extract, Array.toList_extract]
    exact List.forall₂_take _ (List.forall₂_drop _ hm.thread.stack)
  · exact .error _ le_rfl hm

theorem parallel_push (hv : v.Mirrors p v') : p.Parallel Same (push v) (push v') := by
  intro q hq m m' hm
  unfold push
  rw [hm.thread.stack_size]
  split
  · exact .ok le_rfl (hm.mapStack (forall₂_push hm.thread.stack (hv.mono hq))) rfl
  · exact .error _ le_rfl hm

theorem parallel_pushAll {vs vs' : List Value} (hvs : List.Forall₂ (Value.Mirrors p) vs vs') :
    p.Parallel Same (pushAll vs) (pushAll vs') := by
  induction hvs with
  | nil => exact parallel_done
  | cons hv _ ih => exact (parallel_push hv).bind_same fun q hq _ => ih.mono hq

theorem parallel_pop : p.Parallel (fun q => Value.Mirrors q) pop pop := by
  intro q hq m m' hm
  have hback := rel_back? hm.thread.stack
  unfold pop
  generalize m.thread.stack.back? = v, m'.thread.stack.back? = v' at hback
  cases hback with
  | none => exact .error _ le_rfl hm
  | some hv =>
    refine .ok le_rfl (hm.mapStack ?_) hv
    rw [Array.toList_pop, Array.toList_pop]
    exact forall₂_dropLast hm.thread.stack

theorem parallel_popMany (n : Nat) : p.Parallel Same (popMany n) (popMany n) := by
  induction n generalizing p with
  | zero => exact parallel_done
  | succ n ih => exact parallel_pop.bind fun q _ _ _ _ => ih

theorem parallel_heightBelow (count : Nat) :
    p.Parallel Same (heightBelow count) (heightBelow count) := by
  intro q hq m m' hm
  unfold heightBelow
  rw [hm.thread.stack_size]
  split
  · exact .ok le_rfl hm rfl
  · exact .error _ le_rfl hm

theorem parallel_peek (depth : Nat) :
    p.Parallel (fun q => Value.Mirrors q) (peek depth) (peek depth) := by
  refine (parallel_size _).bind_same fun _ _ count => ?_
  exact (parallel_heightBelow count).bind_same fun _ _ height => parallel_valueAt height

theorem parallel_setPeek (depth : Nat) (hv : v.Mirrors p v') :
    p.Parallel Same (setPeek depth v) (setPeek depth v') := by
  refine (parallel_size _).bind_same fun q hq count => ?_
  refine (parallel_heightBelow count).bind_same fun q₁ hq₁ height => ?_
  exact parallel_setValueAt height (hv.mono (hq.trans hq₁))

theorem parallel_truncate (height : Nat) : p.Parallel Same (truncate height) (truncate height) := by
  intro q hq m m' hm
  refine .ok le_rfl (hm.mapStack ?_) rfl
  rw [Array.toList_shrink, Array.toList_shrink]
  exact List.forall₂_take _ hm.thread.stack

/-! ### The current call -/

theorem parallel_enter {f f' : Frame} (hf : f.Mirrors p f') :
    p.Parallel Same (enter f) (enter f') := by
  intro q hq m m' hm
  unfold enter
  rw [hm.thread.frames_size]
  split
  · exact .ok le_rfl (hm.mapFrames (forall₂_push hm.thread.frames (hf.mono hq))) rfl
  · exact .error _ le_rfl hm

theorem parallel_frame : p.Parallel (fun q => Frame.Mirrors q) frame frame := by
  intro q hq m m' hm
  have hback := rel_back? hm.thread.frames
  unfold frame
  generalize m.thread.frames.back? = f, m'.thread.frames.back? = f' at hback
  cases hback with
  | none => exact .error _ le_rfl hm
  | some hf => exact .ok le_rfl hm hf

theorem parallel_mapFrame {ε : Type} {g k : Frame → Frame}
    (hg : ∀ q, p ≤ q → ∀ f f', f.Mirrors q f' → (g f).Mirrors q (k f')) :
    p.Parallel Same (modify (·.mapFrame g) : EStateM ε Machine PUnit) (modify (·.mapFrame k)) :=
  parallel_modify fun q hq _ _ hm => hm.mapFrame (hg q hq)

theorem parallel_moveTo (target : Int) : p.Parallel Same (moveTo target) (moveTo target) := by
  refine parallel_frame.bind fun q _ f f' hf => ?_
  have hmoved : ∀ r, q ≤ r → ExceptRel (Frame.Mirrors r) (f.moveTo target) (f'.moveTo target) := by
    intro r hr
    unfold Frame.moveTo
    rw [hf.code]
    split
    · exact .ok { hf.mono hr with code := rfl, ip := rfl }
    · exact .error _
  exact (parallel_ofExcept hmoved).bind fun r _ _ _ hmoved =>
    parallel_mapFrame fun s hs _ _ _ => hmoved.mono hs

theorem parallel_jump (distance : Int) : p.Parallel Same (jump distance) (jump distance) := by
  refine parallel_frame.bind fun q _ f f' hf => ?_
  rw [hf.ip]
  exact (parallel_offset _).bind_same fun _ _ target => parallel_moveTo target

end Pairing
end ScriptVm
