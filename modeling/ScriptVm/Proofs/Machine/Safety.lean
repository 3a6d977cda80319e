import ScriptVm.Machine
import ScriptVm.Proofs.Environment.Evolution

/-!
# Safe actions

What a contract asks of threads and machines, and of an action: whatever its outcome, the machine
it leaves is good and continues the one it started from.

* `GoodFrame`, `GoodThread`, `GoodMachine` are the invariants. What a sized contract asks is what
  keeps instructions in the code and slots on the stack.
* `Continues` relates the machines before and after an action: no handle is lost, and the operand
  stack is as it was below the floor.
* `Room` says how many values may be taken off the stack.
* `Safe` is the outcome of an action; `Safe.bind` puts actions together.
-/

namespace ScriptVm

/-- The machine that an action leaves, whatever its outcome. -/
def Exec.after {ε α : Type} (x : EStateM (Halt ε) Machine α) (m : Machine) : Machine :=
  match x m with
  | .ok _ m' => m'
  | .error _ m' => m'

namespace Contract

/-- A call of a function that is there; in a sized contract its position is in its code. -/
structure GoodFrame (c : Contract) (heap : Heap) (f : Frame) : Prop where
  function : c.Finds heap f.function
  ip_le : c.sized → f.ip ≤ f.code.size
  slots_le : c.sized → f.slots ≤ Thread.maxStack
  code_le : c.sized → f.code.size ≤ Code.maxSize

/-- A thread that a contract asks for. -/
structure GoodThread (c : Contract) (heap : Heap) (t : Thread) : Prop where
  stack : ∀ v ∈ t.stack.toList, c.Good heap v
  stack_le : c.sized → t.stack.size ≤ Thread.maxStack
  floor_le : c.floor ≤ t.stack.size
  frames : ∀ f ∈ t.frames.toList, c.GoodFrame heap f
  frames_le : c.sized → t.frames.size ≤ Thread.maxFrames
  calls_le : c.calls ≤ t.frames.size
  above : ∀ (i : Nat) (f : Frame), c.base ≤ i → t.frames[i]? = some f → c.floor ≤ f.slots
  register : c.Good heap t.register

/-- A good environment with a good thread. -/
structure GoodMachine (c : Contract) (m : Machine) : Prop where
  env : c.GoodEnvironment m.env
  thread : c.GoodThread m.env.heap m.thread

/-- What an action leaves as it was. -/
structure Continues (c : Contract) (m m' : Machine) : Prop where
  grows : c.Grows m.env.heap m'.env.heap
  below : ∀ i < c.floor, m'.thread.stack[i]? = m.thread.stack[i]?
  returnFrame : m'.thread.returnFrame = m.thread.returnFrame

/-- At least `k` values lie above the floor; without a floor nothing is asked. -/
def Room (c : Contract) (k : Nat) (t : Thread) : Prop := c.floor = 0 ∨ c.floor + k ≤ t.stack.size

/-- Whatever the outcome, the machine is good and continues the one before. -/
def Safe {ε α : Type} (c : Contract) (m : Machine) (x : EStateM (Halt ε) Machine α)
    (Q : α → Machine → Prop) : Prop :=
  match x m with
  | .ok a m' => c.GoodMachine m' ∧ c.Continues m m' ∧ Q a m'
  | .error e m' => c.GoodMachine m' ∧ c.Continues m m' ∧ (c.sized → e ≠ .overflow)

variable {c : Contract} {heap heap' : Heap} {m m' m'' : Machine} {f : Frame} {t : Thread}

theorem GoodFrame.mono (hf : c.GoodFrame heap f) (hg : c.Grows heap heap') : c.GoodFrame heap' f :=
  ⟨hf.function.mono hg, hf.ip_le, hf.slots_le, hf.code_le⟩

theorem GoodThread.mono (ht : c.GoodThread heap t) (hg : c.Grows heap heap') :
    c.GoodThread heap' t :=
  { ht with
    stack := fun v hv => (ht.stack v hv).mono hg
    frames := fun f hf => (ht.frames f hf).mono hg
    register := ht.register.mono hg }

/-- A thread without calls and values. -/
theorem goodThread_idle {live sized : Prop} (hstack : t.stack = #[]) (hframes : t.frames = #[])
    (hregister : (unbounded live sized).Good heap t.register) :
    (unbounded live sized).GoodThread heap t where
  stack := fun v hv => by simp [hstack] at hv
  stack_le := fun _ => by simp [hstack]
  floor_le := Nat.zero_le _
  frames := fun f hf => by simp [hframes] at hf
  frames_le := fun _ => by simp [hframes]
  calls_le := Nat.zero_le _
  above := fun _ _ _ _ => Nat.zero_le _
  register := hregister

theorem Continues.refl (c : Contract) (m : Machine) : c.Continues m m :=
  ⟨.refl c _, fun _ _ => rfl, rfl⟩

theorem Continues.trans (hc : c.Continues m m') (hc' : c.Continues m' m'') : c.Continues m m'' :=
  ⟨hc.grows.trans hc'.grows, fun i hi => (hc'.below i hi).trans (hc.below i hi),
    hc'.returnFrame.trans hc.returnFrame⟩

theorem GoodMachine.room_zero (hm : c.GoodMachine m) : c.Room 0 m.thread :=
  .inr hm.thread.floor_le

theorem Room.mono {k l : Nat} (hr : c.Room k t) (hl : l ≤ k) : c.Room l t :=
  hr.imp_right fun h => by omega

/-! ### Outcomes -/

section Outcomes

variable {ε δ α β : Type} {x : EStateM (Halt ε) Machine α} {g : α → EStateM (Halt ε) Machine β}
  {Q Q' : α → Machine → Prop} {R : β → Machine → Prop}

theorem safe_of_ok {a : α} (hrun : x m = .ok a m') (hm : c.GoodMachine m')
    (hc : c.Continues m m') (hq : Q a m') : c.Safe m x Q := by
  unfold Safe
  rw [hrun]
  exact ⟨hm, hc, hq⟩

theorem safe_of_error {e : Halt ε} (hrun : x m = .error e m') (hm : c.GoodMachine m')
    (hc : c.Continues m m') (he : c.sized → e ≠ .overflow) : c.Safe m x Q := by
  unfold Safe
  rw [hrun]
  exact ⟨hm, hc, he⟩

theorem Safe.mono (hx : c.Safe m x Q) (hq : ∀ a m', c.GoodMachine m' → Q a m' → Q' a m') :
    c.Safe m x Q' := by
  unfold Safe at hx ⊢
  split at hx
  · exact ⟨hx.1, hx.2.1, hq _ _ hx.1 hx.2.2⟩
  · exact hx

theorem Safe.good_after (hx : c.Safe m x Q) : c.GoodMachine (Exec.after x m) := by
  unfold Safe at hx
  unfold Exec.after
  split at hx <;> exact hx.1

theorem Safe.continues_after (hx : c.Safe m x Q) : c.Continues m (Exec.after x m) := by
  unfold Safe at hx
  unfold Exec.after
  split at hx <;> exact hx.2.1

/-- What the outcome is need not be kept. -/
theorem Safe.forget (hx : c.Safe m x Q) : c.Safe m x fun _ _ => True :=
  hx.mono fun _ _ _ _ => trivial

theorem Safe.bind (hx : c.Safe m x Q)
    (hg : ∀ a m', c.GoodMachine m' → c.Continues m m' → Q a m' → c.Safe m' (g a) R) :
    c.Safe m (x >>= g) R := by
  unfold Safe at hx
  unfold Safe
  show match EStateM.bind x g m with | .ok a m' => _ | .error e m' => _
  unfold EStateM.bind
  split at hx
  · rename_i a m' hrun
    have hnext := hg a m' hx.1 hx.2.1 hx.2.2
    unfold Safe at hnext
    rw [hrun]
    dsimp only
    split at hnext
    · exact ⟨hnext.1, hx.2.1.trans hnext.2.1, hnext.2.2⟩
    · exact ⟨hnext.1, hx.2.1.trans hnext.2.1, hnext.2.2⟩
  · rename_i e m' hrun
    rw [hrun]
    exact hx

theorem Safe.map {g : α → β} (hx : c.Safe m x fun a m' => R (g a) m') : c.Safe m (g <$> x) R := by
  unfold Safe at hx ⊢
  show match EStateM.map g x m with | .ok a m' => _ | .error e m' => _
  unfold EStateM.map
  split at hx <;> rename_i hrun <;> rw [hrun] <;> exact hx

/-- Another wording of the error makes no difference. -/
theorem Safe.adaptExcept {g : ε → δ} (hx : c.Safe m x Q) :
    c.Safe m (EStateM.adaptExcept (Halt.map g) x) Q := by
  unfold Safe at hx ⊢
  unfold EStateM.adaptExcept
  split at hx <;> rename_i hrun <;> rw [hrun]
  · exact hx
  · refine ⟨hx.1, hx.2.1, fun hs he => hx.2.2 hs ?_⟩
    rename_i e _
    cases e with
    | error e => cases he
    | outOfFuel => cases he
    | overflow => rfl

theorem safe_pure {a : α} (hm : c.GoodMachine m) (hq : Q a m) :
    c.Safe m (pure a : EStateM (Halt ε) Machine α) Q :=
  ⟨hm, .refl c m, hq⟩

/-- Reading the machine. -/
theorem safe_get_bind {g : Machine → EStateM (Halt ε) Machine β} :
    c.Safe m (get >>= g) R ↔ c.Safe m (g m) R := Iff.rfl

theorem safe_modify {u : Machine → Machine} {Q : PUnit → Machine → Prop} (hm : c.GoodMachine (u m))
    (hc : c.Continues m (u m)) (hq : Q ⟨⟩ (u m)) :
    c.Safe m (modify u : EStateM (Halt ε) Machine PUnit) Q :=
  ⟨hm, hc, hq⟩

end Outcomes

/-! ### Reading and failing -/

section Exec

open Exec

variable {α β : Type} {Q : α → Machine → Prop} {R : β → Machine → Prop} {k : Nat} {v : Value}

theorem safe_environment_bind {g : Environment → Exec β} :
    c.Safe m (environment >>= g) R ↔ c.Safe m (g m.env) R := Iff.rfl

theorem safe_memory_bind {g : Memory → Exec β} :
    c.Safe m (memory >>= g) R ↔ c.Safe m (g m.env.memory) R := Iff.rfl

theorem safe_cells_bind {g : Cells → Exec β} :
    c.Safe m (cells >>= g) R ↔ c.Safe m (g m.env.memory.cells) R := Iff.rfl

theorem safe_fault (hm : c.GoodMachine m) (cause : Cause) : c.Safe m (fault cause : Exec α) Q :=
  ⟨hm, .refl c m, fun _ he => by cases he⟩

theorem safe_ofOption (hm : c.GoodMachine m) (cause : Cause) {r : Option α}
    (hq : ∀ a, r = some a → Q a m) : c.Safe m (ofOption cause r) Q := by
  cases r with
  | some a => exact safe_pure hm (hq a rfl)
  | none => exact safe_fault hm cause

theorem safe_ofOption_bind (hm : c.GoodMachine m) (cause : Cause) {r : Option α} {g : α → Exec β}
    (hg : ∀ a, r = some a → c.Safe m (g a) R) : c.Safe m (ofOption cause r >>= g) R := by
  cases r with
  | some a => exact hg a rfl
  | none => exact safe_fault hm cause

theorem safe_ofExcept_bind (hm : c.GoodMachine m) {r : Except Cause α} {g : α → Exec β}
    (hg : ∀ a, r = .ok a → c.Safe m (g a) R) : c.Safe m (ofExcept r >>= g) R := by
  cases r with
  | ok a => exact hg a rfl
  | error cause => exact safe_fault hm cause

/-! ### The environment -/

theorem safe_onEnvironment (hm : c.GoodMachine m) {g : Environment → α × Environment}
    (he : c.Evolves m.env (g m.env).2) :
    c.Safe m (onEnvironment g) fun a m' =>
      a = (g m.env).1 ∧ m'.env = (g m.env).2 ∧ m'.thread = m.thread :=
  ⟨⟨he.good, hm.thread.mono he.grows⟩, ⟨he.grows, fun _ _ => rfl, rfl⟩, rfl, rfl, rfl⟩

theorem safe_mapEnvironment (hm : c.GoodMachine m) {g : Environment → Environment}
    (he : c.Evolves m.env (g m.env)) :
    c.Safe m (mapEnvironment g) fun _ m' => m'.env = g m.env ∧ m'.thread = m.thread :=
  ⟨⟨he.good, hm.thread.mono he.grows⟩, ⟨he.grows, fun _ _ => rfl, rfl⟩, rfl, rfl⟩

theorem safe_report (hm : c.GoodMachine m) (level : Level) (text : Unit → String) :
    c.Safe m (report level text) fun _ m' => m'.thread = m.thread :=
  (safe_mapEnvironment hm (hm.env.evolves_report level text)).mono fun _ _ _ hq => hq.2

theorem safe_mapCells (hm : c.GoodMachine m) (g : Cells → Cells) :
    c.Safe m (mapCells g) fun _ m' => m'.thread = m.thread :=
  (safe_mapEnvironment hm (hm.env.evolves_of_eq rfl)).mono fun _ _ _ hq => hq.2

theorem safe_onMemory (hm : c.GoodMachine m) {g : Memory → α × Memory}
    (hh : c.GoodHeap (g m.env.memory).2.heap)
    (hg : c.Grows m.env.heap (g m.env.memory).2.heap) :
    c.Safe m (onMemory g) fun a m' =>
      a = (g m.env.memory).1 ∧ m'.env.memory = (g m.env.memory).2 ∧ m'.thread = m.thread := by
  have he := hm.env.evolves_memory (g m.env.memory).2 hh hg
  exact ⟨⟨he.good, hm.thread.mono hg⟩, ⟨hg, fun _ _ => rfl, rfl⟩, rfl, rfl, rfl⟩

/-- Placing an object that depends on the memory. -/
theorem safe_place (hm : c.GoodMachine m) {g : Memory → Handle × Memory} {o : Obj}
    (hg : g m.env.memory = m.env.memory.alloc o) (ho : c.GoodObject m.env.heap o) :
    c.Safe m (onMemory g) fun h m' => c.Finds m'.env.heap h ∧ m'.thread = m.thread := by
  obtain ⟨hheap, hgrows, hfinds⟩ := hm.env.heap.alloc ho
  have hplaced : (g m.env.memory).2.heap = (m.env.heap.alloc o).2 := by
    rw [hg]
    rfl
  refine (safe_onMemory hm (hplaced ▸ hheap) (hplaced ▸ hgrows)).mono fun h m' _ hq => ?_
  obtain ⟨rfl, hmem, hthread⟩ := hq
  refine ⟨?_, hthread⟩
  show c.Finds m'.env.memory.heap _
  rw [hmem, hg]
  exact hfinds

theorem safe_alloc (hm : c.GoodMachine m) {o : Obj} (ho : c.GoodObject m.env.heap o) :
    c.Safe m (alloc o) fun h m' => c.Finds m'.env.heap h ∧ m'.thread = m.thread :=
  safe_place hm rfl ho

end Exec
end Contract
end ScriptVm
