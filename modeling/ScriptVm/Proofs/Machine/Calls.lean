import ScriptVm.Machine.Call
import ScriptVm.Proofs.Machine.Primitives

/-!
# Safe calls

Calling a value is safe where there is room for the callee and its arguments.

* `Answered` says that a call above those of the contract is active, or that a value lies above the
  floor. It is what a call leaves: a function has a frame of its own, a native its result.
* `safe_callNative`, `safe_call` are the two ways to call, `safe_callValue`, `safe_invoke` and
  `safe_instantiate` the instructions made from them.
-/

namespace ScriptVm
namespace Contract

open Exec

variable {c : Contract} {m : Machine} {k argc : Nat} {v : Value}

/-- A call above those of the contract is active, or a result lies above the floor. -/
def Answered (c : Contract) (t : Thread) : Prop := c.calls < t.frames.size ∨ c.Room 1 t

/-! ### Calls -/

theorem safe_callNative (hm : c.GoodMachine m) (name : String) (passed : Nat) {consumed : Nat}
    (hr : c.Room (k + consumed) m.thread) :
    c.Safe m (callNative name passed consumed) fun _ m' => c.Room (k + 1) m'.thread := by
  refine (safe_heightBelow hm passed).bind fun start m₁ _ _ hq => ?_
  obtain ⟨hstart, rfl⟩ := hq
  refine (safe_heightBelow hm consumed).bind fun base m₂ _ _ hq => ?_
  obtain ⟨hbase, rfl⟩ := hq
  refine (safe_valuesFrom hm (by omega)).bind fun args m₃ _ _ hq => ?_
  obtain ⟨hargs, rfl⟩ := hq
  rw [safe_environment_bind]
  obtain ⟨hheap, hgrows, hresult⟩ := hm.env.natives name m.env.memory args hm.env.heap hargs
  refine (safe_onMemory hm hheap hgrows).bind fun r m₄ hm₄ _ hq => ?_
  obtain ⟨rfl, hmem, hthread⟩ := hq
  refine safe_ofExcept_bind hm₄ fun result hok => ?_
  have hgood : c.Good m₄.env.heap result := by
    show c.Good m₄.env.memory.heap result
    rw [hmem]
    exact hresult result hok
  -- what is consumed is cut off, and the result takes the place of one value of it
  have hfloor : c.floor ≤ base := by
    rcases hr with hz | hr <;> omega
  refine (safe_truncate hm₄ hfloor).bind fun _ m₅ hm₅ hc₅ hq => ?_
  rw [hthread] at hq
  refine (safe_push hm₅ ?_ (hgood.mono hc₅.grows)).mono fun _ _ _ hq => hq.1
  refine hr.imp_right fun h => ?_
  omega

theorem safe_call (hm : c.GoodMachine m) (function : Handle)
    (hargc : c.sized → argc ≤ Thread.maxStack) (hr : c.Room (argc + 1) m.thread) :
    c.Safe m (call function argc) fun _ m' => c.Answered m'.thread := by
  unfold call
  rw [safe_get_bind]
  refine safe_ofOption_bind hm _ fun f hf => ?_
  have hobject := goodObject_function.1 (hm.env.heap.objects _ _ (Heap.function?_eq_some.1 hf))
  split
  · exact safe_fault hm _
  · split
    · exact safe_fault hm _
    · rename_i hfull
      refine (safe_size hm fun hs => lt_sizeRange (Nat.succ_le_succ (hargc hs))).bind
        fun n m₁ _ _ hq => ?_
      obtain ⟨rfl, rfl⟩ := hq
      refine (safe_heightBelow hm _).bind fun slots m₂ _ _ hq => ?_
      obtain ⟨hslots, rfl⟩ := hq
      have hframe : c.GoodFrame m.env.heap (.enter function f.code slots f.module) :=
        { function := finds_of_get? (Heap.function?_eq_some.1 hf)
          ip_le := fun _ => Nat.zero_le _
          slots_le := by
            intro hs
            have := hm.thread.stack_le hs
            show slots ≤ _
            omega
          code_le := hobject.2.2.2.2.2 }
      have hfloor : c.floor ≤ slots := by
        rcases hr with hz | hr <;> omega
      exact (safe_enter hm hframe (by omega) hfloor).mono fun _ _ _ hq => .inl hq

/-- A value to call lies below the arguments. -/
theorem safe_callCallee (hm : c.GoodMachine m) (hargc : c.sized → argc ≤ Thread.maxStack)
    (hr : c.Room (argc + 1) m.thread) (hv : c.Good m.env.heap v) :
    c.Safe m (callCallee v argc) fun _ m' => c.Answered m'.thread := by
  unfold callCallee
  rw [safe_environment_bind]
  cases v with
  | object h =>
    dsimp only
    split
    · rename_i receiver method hget
      obtain ⟨hreceiver, -⟩ := goodObject_boundMethod.1 (hm.env.heap.objects h _ hget)
      refine (safe_setPeek hm hargc hr hreceiver).bind fun _ m₁ hm₁ _ hsize => ?_
      exact safe_call hm₁ method hargc (hr.imp_right fun h => by omega)
    · exact safe_call hm h hargc hr
    · rename_i name _
      have hroom : c.Room (0 + (argc + 1)) m.thread := hr.mono (by omega)
      exact (safe_callNative hm name argc hroom).mono fun _ _ _ hq => .inr hq
    · exact safe_fault hm _
  | _ => exact safe_fault hm _

theorem safe_callValue (hm : c.GoodMachine m) (hargc : c.sized → argc ≤ Thread.maxStack)
    (hr : c.Room (argc + 1) m.thread) :
    c.Safe m (callValue argc) fun _ m' => c.Answered m'.thread := by
  refine (safe_peek hm hargc).bind fun callee m₁ _ _ hq => ?_
  obtain ⟨hcallee, rfl⟩ := hq
  exact safe_callCallee hm hargc hr hcallee

theorem safe_callForObject (hm : c.GoodMachine m) (hargc : c.sized → argc ≤ Thread.maxStack)
    (hr : c.Room (argc + 1) m.thread) (hv : c.Good m.env.heap v) :
    c.Safe m (callForObject v argc) fun _ m' => c.Answered m'.thread := by
  unfold callForObject
  rw [safe_environment_bind]
  cases v with
  | object h =>
    dsimp only
    split
    · rename_i name _
      exact (safe_callNative hm name (argc + 1) (k := 0) (hr.mono (by omega))).mono
        fun _ _ _ hq => .inr hq
    · exact safe_callCallee hm hargc hr hv
  | _ => exact safe_fault hm _

/-! ### Members -/

theorem safe_findMember (hm : c.GoodMachine m) (h : Handle) (hash : UInt32) :
    c.Safe m (onEnvironment (·.findMember h hash)) fun r m' =>
      (∀ v, r = some v → c.Good m'.env.heap v) ∧ m'.thread = m.thread := by
  obtain ⟨hev, hfound⟩ := hm.env.evolves_findMember h hash
  refine (safe_onEnvironment hm hev).mono fun r m' _ hq => ?_
  obtain ⟨rfl, henv, hthread⟩ := hq
  rw [henv]
  exact ⟨hfound, hthread⟩

theorem safe_resolveParent (hm : c.GoodMachine m) (h : Handle) :
    c.Safe m (onEnvironment (·.resolveParent h)) fun r m' =>
      (∀ p, r = some p → c.Finds m'.env.heap p) ∧ m'.thread = m.thread := by
  obtain ⟨hev, hfound⟩ := hm.env.evolves_resolveParent h
  refine (safe_onEnvironment hm hev).mono fun r m' _ hq => ?_
  obtain ⟨rfl, henv, hthread⟩ := hq
  rw [henv]
  exact ⟨hfound, hthread⟩

theorem safe_invokeFromClass (hm : c.GoodMachine m) (h : Handle) (hash : UInt32)
    (hargc : c.sized → argc ≤ Thread.maxStack) (hr : c.Room (argc + 1) m.thread) :
    c.Safe m (invokeFromClass h hash argc) fun _ m' => c.Answered m'.thread := by
  refine (safe_findMember hm h hash).bind fun r m₁ hm₁ _ hq => ?_
  obtain ⟨hfound, hthread⟩ := hq
  cases r with
  | none =>
    dsimp only
    rw [safe_environment_bind]
    exact safe_fault hm₁ _
  | some method =>
    dsimp only
    rw [safe_cells_bind]
    exact safe_callForObject hm₁ hargc (hthread ▸ hr) ((hfound method rfl).delink _)

theorem safe_invokeOnInstance (hm : c.GoodMachine m) {i : InstanceObject} (hash : UInt32)
    (isSuper : Bool) (hargc : c.sized → argc ≤ Thread.maxStack) (hr : c.Room (argc + 1) m.thread)
    (hi : c.GoodObject m.env.heap (.inst i)) :
    c.Safe m (invokeOnInstance i hash argc isSuper) fun _ m' => c.Answered m'.thread := by
  unfold invokeOnInstance
  split
  · refine (safe_resolveParent hm _).bind fun r m₁ hm₁ _ hq => ?_
    cases r with
    | none => exact safe_fault hm₁ _
    | some parent => exact safe_invokeFromClass hm₁ parent hash hargc (hq.2 ▸ hr)
  · split
    · rename_i field hfield
      rw [safe_cells_bind]
      have hgood := (goodObject_inst.1 hi).2 field (Table.mem_values_of_get? hfield)
      exact safe_callCallee hm hargc hr (hgood.delink _)
    · exact safe_invokeFromClass hm _ hash hargc hr

theorem safe_invokeOnClass (hm : c.GoodMachine m) (h : Handle) (hash : UInt32)
    (hargc : c.sized → argc ≤ Thread.maxStack) (hr : c.Room (argc + 1) m.thread) :
    c.Safe m (invokeOnClass h hash argc) fun _ m' => c.Answered m'.thread := by
  refine (safe_findMember hm h hash).bind fun r m₁ hm₁ _ hq => ?_
  obtain ⟨hfound, hthread⟩ := hq
  cases r with
  | none =>
    dsimp only
    rw [safe_environment_bind]
    exact safe_fault hm₁ _
  | some method =>
    dsimp only
    rw [safe_cells_bind]
    exact safe_callCallee hm₁ hargc (hthread ▸ hr) ((hfound method rfl).delink _)

theorem safe_invoke (hm : c.GoodMachine m) (hash : UInt32) (isSuper : Bool)
    (hargc : c.sized → argc ≤ Thread.maxStack) (hr : c.Room (argc + 1) m.thread) :
    c.Safe m (invoke hash argc isSuper) fun _ m' => c.Answered m'.thread := by
  refine (safe_peek hm hargc).bind fun receiver m₁ _ _ hq => ?_
  obtain ⟨-, rfl⟩ := hq
  cases receiver with
  | object h =>
    dsimp only
    rw [safe_environment_bind]
    split
    · rename_i i hget
      exact safe_invokeOnInstance hm hash isSuper hargc hr (hm.env.heap.objects h _ hget)
    · exact safe_invokeOnClass hm h hash hargc hr
    · exact safe_fault hm _
  | _ => exact safe_fault hm _

theorem finds_of_asClass {heap : Heap} {h : Handle} (hh : asClass? heap v = some h) :
    c.Finds heap h :=
  GoodEnvironment.finds_of_isClass (Option.filter_eq_some_iff.1 hh).2

theorem safe_instantiate (hm : c.GoodMachine m) (hargc : c.sized → argc ≤ Thread.maxStack)
    (hr : c.Room (argc + 1) m.thread) :
    c.Safe m (instantiate argc) fun _ m' => c.Answered m'.thread := by
  refine (safe_peek hm hargc).bind fun callee m₁ _ _ hq => ?_
  obtain ⟨-, rfl⟩ := hq
  rw [safe_environment_bind]
  refine safe_ofOption_bind hm _ fun k hk => ?_
  have hinst : c.GoodObject m.env.heap (.inst (.ofClass k)) :=
    goodObject_inst.2 ⟨finds_of_asClass hk, fun v hv => absurd hv List.not_mem_nil⟩
  refine (safe_alloc hm hinst).bind fun h m₂ hm₂ _ hq => ?_
  obtain ⟨hfinds, hthread⟩ := hq
  -- the instance takes the place of its class, below the arguments
  have hr₂ : c.Room (argc + 1) m₂.thread := hthread ▸ hr
  refine (safe_setPeek hm₂ hargc hr₂ (good_object.2 hfinds)).bind fun _ m₃ hm₃ _ hsize => ?_
  have hr₃ : c.Room (argc + 1) m₃.thread := hr₂.imp_right fun h => by omega
  rw [safe_environment_bind]
  split
  · rename_i init hinit
    obtain ⟨object, hobject, hinit⟩ := Option.bind_eq_some_iff.1 hinit
    obtain ⟨-, -, -, hgood, -⟩ := goodObject_class.1 (hm₃.env.goodClass hobject)
    exact safe_callForObject hm₃ hargc hr₃ (hgood init (by simp [hinit]))
  · split
    · exact safe_pure hm₃ (.inr (hr₃.mono (by omega)))
    · exact safe_fault hm₃ _

end Contract
end ScriptVm
