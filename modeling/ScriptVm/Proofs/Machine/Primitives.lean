import ScriptVm.Proofs.Machine.Safety

/-!
# Safe primitives

The actions on the operand stack and on the calls from which instructions are made, each with what
it needs and what it gives.

* `safe_size` to `safe_valuesFrom` are the actions that must stay in range; a contract that asks for
  `sized` needs a reason why they do.
* `safe_push`, `safe_pop`, `safe_peek`, `safe_setPeek`, `safe_truncate` are about the operand stack.
  Taking values needs room above the floor.
* `safe_enter`, `safe_frame`, `safe_moveTo`, `safe_jump` are about the calls.
-/

namespace ScriptVm
namespace Contract

open Exec

variable {c : Contract} {m : Machine} {k n : Nat} {v : Value}

/-! ### Changes of the stack -/

theorem GoodMachine.mapStack (hm : c.GoodMachine m) {g : Array Value → Array Value}
    (hgood : ∀ v ∈ (g m.thread.stack).toList, c.Good m.env.heap v)
    (hle : c.sized → (g m.thread.stack).size ≤ Thread.maxStack)
    (hfloor : c.floor ≤ (g m.thread.stack).size) : c.GoodMachine (m.mapStack g) :=
  ⟨hm.env, { hm.thread with stack := hgood, stack_le := hle, floor_le := hfloor }⟩

theorem continues_mapStack {g : Array Value → Array Value}
    (hbelow : ∀ i < c.floor, (g m.thread.stack)[i]? = m.thread.stack[i]?) :
    c.Continues m (m.mapStack g) :=
  ⟨.refl c _, hbelow, rfl⟩

/-! ### Ranges -/

theorem safe_outOfRange {α : Type} {Q : α → Machine → Prop} (hm : c.GoodMachine m)
    (hs : ¬ c.sized) : c.Safe m (outOfRange : Exec α) Q :=
  ⟨hm, .refl c m, fun h => absurd h hs⟩

theorem safe_size (hm : c.GoodMachine m) (hn : c.sized → n < Heap.sizeRange) :
    c.Safe m (size n) fun a m' => a = n ∧ m = m' := by
  unfold size
  split
  · exact safe_pure hm ⟨rfl, rfl⟩
  · exact safe_outOfRange hm fun hs => absurd (hn hs) ‹_›

theorem safe_difference (hm : c.GoodMachine m) (hk : k ≤ n) :
    c.Safe m (difference n k) fun a m' => a + k = n ∧ m = m' := by
  unfold difference
  rw [if_pos hk]
  exact safe_pure hm ⟨Nat.sub_add_cancel hk, rfl⟩

theorem safe_offset (hm : c.GoodMachine m) {i : Int}
    (hi : c.sized → -9223372036854775808 ≤ i ∧ i ≤ 9223372036854775807) :
    c.Safe m (offset i) fun a m' => a = i ∧ m = m' := by
  unfold offset
  split
  · exact safe_pure hm ⟨rfl, rfl⟩
  · exact safe_outOfRange hm fun hs => absurd (hi hs) ‹_›

theorem safe_valueAt (hm : c.GoodMachine m) {i : Nat} (hi : i < m.thread.stack.size) :
    c.Safe m (valueAt i) fun v m' => c.Good m'.env.heap v ∧ m = m' := by
  have hrun : valueAt i m = .ok m.thread.stack[i] m := by
    unfold valueAt
    rw [Array.getElem?_eq_getElem hi]
  exact safe_of_ok hrun hm (.refl c m)
    ⟨hm.thread.stack _ (Array.mem_toList_iff.2 (Array.getElem_mem hi)), rfl⟩

theorem safe_setValueAt (hm : c.GoodMachine m) {i : Nat} (hi : i < m.thread.stack.size)
    (hf : c.floor ≤ i) (hv : c.Good m.env.heap v) :
    c.Safe m (setValueAt i v) fun _ m' => m'.thread.stack.size = m.thread.stack.size := by
  have hsize : (m.thread.stack.setIfInBounds i v).size = m.thread.stack.size :=
    Array.size_setIfInBounds
  refine safe_of_ok (if_pos hi) (hm.mapStack ?_ ?_ ?_) (continues_mapStack ?_) hsize
  · intro w hw
    rw [Array.toList_setIfInBounds] at hw
    rcases List.mem_or_eq_of_mem_set hw with hw | rfl
    · exact hm.thread.stack w hw
    · exact hv
  · rw [hsize]
    exact hm.thread.stack_le
  · rw [hsize]
    exact hm.thread.floor_le
  · intro j hj
    rw [Array.getElem?_setIfInBounds, if_neg (by omega)]

theorem safe_valuesFrom (hm : c.GoodMachine m) {start : Nat} (hs : start ≤ m.thread.stack.size) :
    c.Safe m (valuesFrom start) fun vs m' => (∀ v ∈ vs, c.Good m'.env.heap v) ∧ m = m' := by
  refine safe_of_ok (if_pos hs) hm (.refl c m) ⟨fun v hv => hm.thread.stack v ?_, rfl⟩
  obtain ⟨i, hi, rfl⟩ := Array.mem_iff_getElem.1 hv
  rw [Array.getElem_extract]
  exact Array.mem_toList_iff.2 (Array.getElem_mem _)

/-! ### The operand stack -/

theorem safe_push (hm : c.GoodMachine m) (hr : c.Room k m.thread) (hv : c.Good m.env.heap v) :
    c.Safe m (push v) fun _ m' =>
      c.Room (k + 1) m'.thread ∧ m'.thread.stack.size = m.thread.stack.size + 1 := by
  have hfloor := hm.thread.floor_le
  have hsize : (m.thread.stack.push v).size = m.thread.stack.size + 1 := Array.size_push _
  by_cases hlt : m.thread.stack.size < Thread.maxStack
  · refine safe_of_ok (if_pos hlt) (hm.mapStack ?_ ?_ ?_) (continues_mapStack ?_) ⟨?_, hsize⟩
    · exact forall_mem_push hm.thread.stack hv
    · exact fun _ => hsize ▸ hlt
    · rw [hsize]
      omega
    · intro i hi
      rw [Array.getElem?_push, if_neg (by omega)]
    · refine hr.imp_right fun h => ?_
      show c.floor + (k + 1) ≤ (m.thread.stack.push v).size
      omega
  · exact safe_of_error (if_neg hlt) hm (.refl c m) fun _ he => by cases he

theorem safe_pushAll (vs : List Value) (hm : c.GoodMachine m) (hr : c.Room k m.thread)
    (hvs : ∀ v ∈ vs, c.Good m.env.heap v) :
    c.Safe m (pushAll vs) fun _ m' => c.Room (k + vs.length) m'.thread ∧
      m'.thread.stack.size = m.thread.stack.size + vs.length := by
  induction vs generalizing m k with
  | nil => exact safe_pure hm ⟨hr, rfl⟩
  | cons v rest ih =>
    refine (safe_push hm hr (hvs v List.mem_cons_self)).bind fun _ m₁ hm₁ hc₁ hq₁ => ?_
    refine (ih hm₁ hq₁.1 fun w hw => (hvs w (List.mem_cons_of_mem v hw)).mono hc₁.grows).mono ?_
    rintro _ m₂ - ⟨hroom, hsize⟩
    rw [List.length_cons]
    exact ⟨by rwa [Nat.add_right_comm, Nat.add_assoc] at hroom, by omega⟩

theorem safe_pop (hm : c.GoodMachine m) (hr : c.Room (k + 1) m.thread) :
    c.Safe m pop fun v m' =>
      c.Good m'.env.heap v ∧ c.Room k m'.thread ∧ m'.thread.frames = m.thread.frames := by
  cases hback : m.thread.stack.back? with
  | none =>
    have hrun : pop m = .error (.error (.ofCause .stackUnderflow)) m := by
      unfold pop
      rw [hback]
    exact safe_of_error hrun hm (.refl c m) fun _ he => by cases he
  | some v =>
    have hrun : pop m = .ok v (m.mapStack (·.pop)) := by
      unfold pop
      rw [hback]
    have hv : v ∈ m.thread.stack.toList := Array.mem_toList_iff.2 (Array.mem_of_back? hback)
    have hpos : 0 < m.thread.stack.size := by
      rw [← Array.length_toList]
      exact List.length_pos_of_mem hv
    have hsize : m.thread.stack.pop.size = m.thread.stack.size - 1 := Array.size_pop
    have hfloor : c.floor ≤ m.thread.stack.size - 1 := by
      rcases hr with hz | hr <;> omega
    refine safe_of_ok hrun (hm.mapStack ?_ ?_ ?_) (continues_mapStack ?_)
      ⟨hm.thread.stack v hv, ?_, rfl⟩
    · intro w hw
      rw [Array.toList_pop] at hw
      exact hm.thread.stack w ((List.dropLast_sublist _).subset hw)
    · intro hs
      have := hm.thread.stack_le hs
      omega
    · omega
    · intro i hi
      rw [Array.getElem?_pop, if_pos (by omega)]
    · refine hr.imp_right fun h => ?_
      show c.floor + k ≤ m.thread.stack.pop.size
      omega

theorem safe_popMany (count : Nat) (hm : c.GoodMachine m) (hr : c.Room (k + count) m.thread) :
    c.Safe m (popMany count) fun _ m' => c.Room k m'.thread := by
  induction count generalizing m with
  | zero => exact safe_pure hm hr
  | succ count ih => exact (safe_pop hm hr).bind fun _ m₁ hm₁ _ hq => ih hm₁ hq.2.1

theorem safe_heightBelow (hm : c.GoodMachine m) (count : Nat) :
    c.Safe m (heightBelow count) fun h m' => h + count = m.thread.stack.size ∧ m = m' := by
  by_cases hle : count ≤ m.thread.stack.size
  · exact safe_of_ok (if_pos hle) hm (.refl c m) ⟨Nat.sub_add_cancel hle, rfl⟩
  · exact safe_of_error (if_neg hle) hm (.refl c m) fun _ he => by cases he

/-- A number of values of the stack, or a little more, is a size. -/
theorem lt_sizeRange {n : Nat} (hn : n ≤ Thread.maxStack + 1) : n < Heap.sizeRange := by
  unfold Thread.maxStack at hn
  unfold Heap.sizeRange
  omega

theorem safe_peek (hm : c.GoodMachine m) {depth : Nat} (hd : c.sized → depth ≤ Thread.maxStack) :
    c.Safe m (peek depth) fun v m' => c.Good m'.env.heap v ∧ m = m' := by
  refine (safe_size hm fun hs => lt_sizeRange (Nat.succ_le_succ (hd hs))).bind fun n m₁ _ _ hq => ?_
  obtain ⟨rfl, rfl⟩ := hq
  refine (safe_heightBelow hm _).bind fun h m₂ _ _ hq => ?_
  obtain ⟨hh, rfl⟩ := hq
  exact safe_valueAt hm (by omega)

theorem safe_setPeek (hm : c.GoodMachine m) {depth : Nat} (hd : c.sized → depth ≤ Thread.maxStack)
    (hr : c.Room (depth + 1) m.thread) (hv : c.Good m.env.heap v) :
    c.Safe m (setPeek depth v) fun _ m' => m'.thread.stack.size = m.thread.stack.size := by
  refine (safe_size hm fun hs => lt_sizeRange (Nat.succ_le_succ (hd hs))).bind fun n m₁ _ _ hq => ?_
  obtain ⟨rfl, rfl⟩ := hq
  refine (safe_heightBelow hm _).bind fun h m₂ _ _ hq => ?_
  obtain ⟨hh, rfl⟩ := hq
  refine safe_setValueAt hm (by omega) ?_ hv
  rcases hr with hz | hr <;> omega

theorem safe_truncate (hm : c.GoodMachine m) {height : Nat} (hh : c.floor ≤ height) :
    c.Safe m (truncate height) fun _ m' =>
      m'.thread.stack.size = min height m.thread.stack.size ∧
        m'.thread.frames = m.thread.frames := by
  have hsize : (m.thread.stack.shrink height).size = min height m.thread.stack.size :=
    Array.size_shrink
  have hfloor := hm.thread.floor_le
  refine ⟨hm.mapStack ?_ ?_ ?_, continues_mapStack ?_, hsize, rfl⟩
  · intro w hw
    rw [Array.toList_shrink] at hw
    exact hm.thread.stack w (List.mem_of_mem_take hw)
  · intro hs
    have := hm.thread.stack_le hs
    omega
  · omega
  · intro i hi
    rw [← Array.getElem?_toList, Array.toList_shrink, List.getElem?_take_of_lt (by omega),
      Array.getElem?_toList]

/-! ### The calls -/

theorem safe_enter (hm : c.GoodMachine m) {f : Frame} (hf : c.GoodFrame m.env.heap f)
    (hlt : m.thread.frames.size < Thread.maxFrames) (hslots : c.floor ≤ f.slots) :
    c.Safe m (enter f) fun _ m' => c.calls < m'.thread.frames.size := by
  have hsize : (m.thread.frames.push f).size = m.thread.frames.size + 1 := Array.size_push _
  have hcalls := hm.thread.calls_le
  have hthread : c.GoodThread m.env.heap { m.thread with frames := m.thread.frames.push f } :=
    { hm.thread with
      frames := forall_mem_push hm.thread.frames hf
      frames_le := fun _ => hsize ▸ hlt
      calls_le := by
        rw [hsize]
        omega
      above := by
        intro i g hi hg
        rw [Array.getElem?_push] at hg
        split at hg
        · cases hg
          exact hslots
        · exact hm.thread.above i g hi hg }
  exact safe_of_ok (if_pos hlt) ⟨hm.env, hthread⟩ ⟨.refl c _, fun _ _ => rfl, rfl⟩
    (hsize ▸ Nat.lt_succ_of_le hcalls)

theorem safe_frame (hm : c.GoodMachine m) :
    c.Safe m frame fun f m' =>
      c.GoodFrame m.env.heap f ∧ m.thread.frames.back? = some f ∧ m = m' := by
  cases hback : m.thread.frames.back? with
  | none =>
    have hrun : frame m = .error (.error (.ofCause .noFrame)) m := by
      unfold frame
      rw [hback]
    exact safe_of_error hrun hm (.refl c m) fun _ he => by cases he
  | some f =>
    have hrun : frame m = .ok f m := by
      unfold frame
      rw [hback]
    have hf : f ∈ m.thread.frames.toList := Array.mem_toList_iff.2 (Array.mem_of_back? hback)
    exact safe_of_ok hrun hm (.refl c m) ⟨hm.thread.frames f hf, rfl, rfl⟩

/-- The last frame, by its index. -/
theorem back?_eq_some {fs : Array Frame} {f : Frame} (hf : fs.back? = some f) :
    fs[fs.size - 1]? = some f := by
  rwa [Array.back?_eq_getElem?] at hf

/-- The current call may be changed as long as it keeps its slots. -/
theorem GoodMachine.mapFrame (hm : c.GoodMachine m) {g : Frame → Frame}
    (hg : ∀ f, m.thread.frames.back? = some f →
      c.GoodFrame m.env.heap (g f) ∧ (g f).slots = f.slots) : c.GoodMachine (m.mapFrame g) := by
  have hsize : (m.thread.frames.modify (m.thread.frames.size - 1) g).size = m.thread.frames.size :=
    Array.size_modify
  -- a frame after the change is an old one, or the last one changed
  have hcases : ∀ (i : Nat) (f : Frame),
      (m.thread.frames.modify (m.thread.frames.size - 1) g)[i]? = some f →
        m.thread.frames[i]? = some f ∨
          ∃ f₀, m.thread.frames.back? = some f₀ ∧ m.thread.frames[i]? = some f₀ ∧ g f₀ = f := by
    intro i f hf
    rw [Array.getElem?_modify] at hf
    split at hf
    · rename_i hi
      subst hi
      obtain ⟨f₀, hf₀, rfl⟩ := Option.map_eq_some_iff.1 hf
      exact .inr ⟨f₀, by rwa [Array.back?_eq_getElem?], hf₀, rfl⟩
    · exact .inl hf
  refine ⟨hm.env, { hm.thread with frames := ?_, frames_le := ?_, calls_le := ?_, above := ?_ }⟩
  · intro f hf
    obtain ⟨i, hi⟩ := Array.mem_iff_getElem?.1 (Array.mem_toList_iff.1 hf)
    rcases hcases i f hi with hold | ⟨f₀, hback, -, rfl⟩
    · exact hm.thread.frames f (Array.mem_toList_iff.2 (Array.mem_of_getElem? hold))
    · exact (hg f₀ hback).1
  · exact fun hs => hsize ▸ hm.thread.frames_le hs
  · show _ ≤ (m.thread.frames.modify (m.thread.frames.size - 1) g).size
    rw [hsize]
    exact hm.thread.calls_le
  · intro i f hi hf
    rcases hcases i f hf with hold | ⟨f₀, hback, hold, rfl⟩
    · exact hm.thread.above i f hi hold
    · rw [(hg f₀ hback).2]
      exact hm.thread.above i f₀ hi hold

theorem continues_mapFrame (m : Machine) (g : Frame → Frame) : c.Continues m (m.mapFrame g) :=
  ⟨.refl c _, fun _ _ => rfl, rfl⟩

/-- The current call after a change. -/
theorem back?_mapFrame {m : Machine} {g : Frame → Frame} {f : Frame}
    (hf : (m.mapFrame g).thread.frames.back? = some f) :
    ∃ f₀, m.thread.frames.back? = some f₀ ∧ g f₀ = f := by
  change (m.thread.frames.modify (m.thread.frames.size - 1) g).back? = some f at hf
  rw [Array.back?_eq_getElem?, Array.size_modify, Array.getElem?_modify, if_pos rfl] at hf
  obtain ⟨f₀, hf₀, rfl⟩ := Option.map_eq_some_iff.1 hf
  exact ⟨f₀, by rwa [Array.back?_eq_getElem?], rfl⟩

theorem safe_moveTo (hm : c.GoodMachine m) (target : Int) :
    c.Safe m (moveTo target) fun _ m' =>
      m'.thread.stack = m.thread.stack ∧
        ∀ f, m'.thread.frames.back? = some f → (f.ip : Int) = target := by
  refine (safe_frame hm).bind fun f m₁ _ _ hq => ?_
  obtain ⟨hf, hback, rfl⟩ := hq
  refine safe_ofExcept_bind hm fun moved hmoved => ?_
  unfold Frame.moveTo at hmoved
  split at hmoved
  · rename_i hrange
    cases hmoved
    refine safe_modify (hm.mapFrame fun f₀ hf₀ => ?_) (continues_mapFrame _ _) ⟨rfl, ?_⟩
    · rw [hback] at hf₀
      cases hf₀
      exact ⟨⟨hf.function, fun _ => Int.toNat_le.2 hrange.2, hf.slots_le, hf.code_le⟩, rfl⟩
    · intro g hg
      obtain ⟨f₀, -, rfl⟩ := back?_mapFrame hg
      exact Int.toNat_of_nonneg hrange.1
  · cases hmoved

theorem safe_jump (hm : c.GoodMachine m) {distance : Int}
    (hd : ∀ f, m.thread.frames.back? = some f → c.GoodFrame m.env.heap f → c.sized →
      -9223372036854775808 ≤ f.ip + distance ∧ f.ip + distance ≤ 9223372036854775807) :
    c.Safe m (jump distance) fun _ m' => m'.thread.stack = m.thread.stack := by
  refine (safe_frame hm).bind fun f m₁ _ _ hq => ?_
  obtain ⟨hf, hback, rfl⟩ := hq
  refine (safe_offset hm (hd f hback hf)).bind fun target m₂ _ _ hq => ?_
  obtain ⟨rfl, rfl⟩ := hq
  exact (safe_moveTo hm _).mono fun _ _ _ hq => hq.1

end Contract
end ScriptVm
