import ScriptVm.Machine.Step
import ScriptVm.Proofs.Machine.Names

/-!
# Safe instructions

The instructions that work on the thread itself: slots, containers, numbers, jumps, returns and
classes.

* `safe_getLocal` to `safe_copyTop` move values, `safe_add` to `safe_compare` compute.
* `safe_switchTable` jumps by a table; the offsets it computes stay in range because the code does.
* `safe_ret` leaves a call. The call left must be above those that the contract keeps.
-/

namespace ScriptVm

namespace Code

variable {code : Array UInt8} {offset : Nat}

theorem lt_size_of_byte? {b : UInt8} (hb : byte? code offset = some b) : offset < code.size :=
  (Array.getElem?_eq_some_iff.1 hb).1

theorem le_size_of_half? {n : UInt16} (hn : half? code offset = some n) :
    offset + 2 ≤ code.size := by
  unfold half? at hn
  split at hn
  · rename_i hb
    exact (Array.getElem?_eq_some_iff.1 hb).1
  · cases hn

theorem le_size_of_word? {n : UInt32} (hn : word? code offset = some n) :
    offset + 4 ≤ code.size := by
  unfold word? at hn
  split at hn
  · rename_i hd
    exact (Array.getElem?_eq_some_iff.1 hd).1
  · cases hn

end Code

/-! ### Results of operations -/

section Numbers

variable {v : Value}

theorem BinaryOp.object?_onIntegers {op : BinaryOp} {x y : Int32} (hv : op.onIntegers x y = .ok v) :
    v.object? = none := by
  cases op with
  | divide | modulo =>
    simp only [onIntegers] at hv
    split at hv <;> cases hv
    rfl
  | _ =>
    cases hv
    rfl

theorem BinaryOp.object?_onDecimals {op : BinaryOp} {x y : Decimal}
    (hv : op.onDecimals x y = .ok v) : v.object? = none := by
  cases op with
  | divide =>
    simp only [onDecimals] at hv
    split at hv <;> cases hv
    rfl
  | _ =>
    cases hv
    rfl

/-- Operations on two values give numbers. -/
theorem Memory.object?_applyBinary {mem : Memory} {op : BinaryOp} {a b : Value}
    (hv : mem.applyBinary op a b = .ok v) : v.object? = none := by
  unfold applyBinary at hv
  cases ha : mem.requireNumber op.phrase a with
  | error e =>
    rw [ha] at hv
    cases hv
  | ok _ =>
    cases hb : mem.requireNumber op.phrase b with
    | error e =>
      rw [ha, hb] at hv
      cases hv
    | ok _ =>
      simp only [ha, hb, bind, Except.bind] at hv
      split at hv
      · exact BinaryOp.object?_onIntegers hv
      · exact BinaryOp.object?_onDecimals hv

/-- Operations on one value give numbers. -/
theorem Memory.object?_applyUnary {mem : Memory} {op : UnaryOp} {a : Value}
    (hv : mem.applyUnary op a = .ok v) : v.object? = none := by
  unfold applyUnary at hv
  split at hv
  · cases hv
    cases op <;> rfl
  · cases hv
    cases op <;> rfl
  · split at hv <;> cases hv
    rfl

end Numbers

namespace Contract

open Exec

variable {c : Contract} {m : Machine} {k count : Nat} {v : Value}

theorem safe_constantAt (hm : c.GoodMachine m) (index : Nat) :
    c.Safe m (constantAt index) fun v m' => c.Good m.env.heap v ∧ m = m' := by
  refine (safe_frame hm).bind fun f m₁ _ _ hq => ?_
  obtain ⟨-, -, rfl⟩ := hq
  rw [safe_environment_bind]
  refine safe_ofOption hm _ fun v hv => ?_
  obtain ⟨g, hg, hv⟩ := Option.bind_eq_some_iff.1 hv
  have hobject := hm.env.heap.objects _ _ (Heap.function?_eq_some.1 hg)
  obtain ⟨-, -, -, -, hconstants, -⟩ := goodObject_function.1 hobject
  exact ⟨hconstants v (Array.mem_toList_iff.2 (Array.mem_of_getElem? hv)), rfl⟩

theorem safe_currentModule (hm : c.GoodMachine m) :
    c.Safe m currentModule fun p m' =>
      c.GoodObject m.env.heap (.module p.2) ∧ m = m' := by
  refine (safe_frame hm).bind fun f m₁ _ _ hq => ?_
  obtain ⟨-, -, rfl⟩ := hq
  rw [safe_environment_bind]
  refine safe_ofOption hm _ fun p hp => ?_
  obtain ⟨h, -, hp⟩ := Option.bind_eq_some_iff.1 hp
  obtain ⟨module, hmodule, rfl⟩ := Option.map_eq_some_iff.1 hp
  exact ⟨hm.env.heap.objects h _ (Heap.module?_eq_some.1 hmodule), rfl⟩

/-! ### Locals -/

/-- The slots of a call above those that a run leaves alone are above the floor. -/
theorem GoodThread.floor_le_slots {heap : Heap} {t : Thread} {f : Frame} (ht : c.GoodThread heap t)
    (hf : t.frames.back? = some f) (hbase : c.base < t.frames.size) : c.floor ≤ f.slots :=
  ht.above (t.frames.size - 1) f (by omega) (back?_eq_some hf)

theorem safe_localIndex (hm : c.GoodMachine m) (slot : UInt8) :
    c.Safe m (localIndex slot) fun i m' => i < m.thread.stack.size ∧
      (c.base < m.thread.frames.size → c.floor ≤ i) ∧ m = m' := by
  refine (safe_frame hm).bind fun f m₁ _ _ hq => ?_
  obtain ⟨hf, hback, rfl⟩ := hq
  have hslot := slot.toNat_lt
  refine (safe_size hm fun hs => ?_).bind fun i m₂ _ _ hq => ?_
  · have hslots := hf.slots_le hs
    unfold Thread.maxStack at hslots
    unfold Heap.sizeRange
    omega
  obtain ⟨rfl, rfl⟩ := hq
  rw [safe_get_bind]
  split
  · rename_i hlt
    refine safe_pure hm ⟨hlt, fun hbase => ?_, rfl⟩
    have hfloor := hm.thread.floor_le_slots hback hbase
    omega
  · exact safe_fault hm _

theorem safe_getLocal (hm : c.GoodMachine m) (slot : UInt8) :
    c.Safe m (getLocal slot) fun _ _ => True := by
  refine (safe_localIndex hm slot).bind fun i m₁ _ _ hq => ?_
  obtain ⟨hi, -, rfl⟩ := hq
  refine (safe_valueAt hm hi).bind fun v m₂ _ _ hq => ?_
  obtain ⟨hv, rfl⟩ := hq
  exact (safe_push hm hm.room_zero hv).forget

theorem safe_setLocal (hm : c.GoodMachine m) (slot : UInt8)
    (hbase : c.base < m.thread.frames.size) : c.Safe m (setLocal slot) fun _ _ => True := by
  refine (safe_localIndex hm slot).bind fun i m₁ _ _ hq => ?_
  obtain ⟨hi, hfloor, rfl⟩ := hq
  refine (safe_peek hm fun _ => Nat.zero_le _).bind fun v m₂ _ _ hq => ?_
  obtain ⟨hv, rfl⟩ := hq
  exact (safe_setValueAt hm hi (hfloor hbase) hv).forget

theorem safe_modifyModule (hm : c.GoodMachine m) (h : Handle) {g : ModuleObject → ModuleObject}
    (hg : ∀ o, c.GoodObject m.env.heap (.module o) → c.GoodObject m.env.heap (.module (g o))) :
    c.Safe m (mapHeap (·.modifyModule h g)) fun _ m' => m'.thread = m.thread :=
  (safe_mapEnvironment hm (hm.env.evolves_modifyModule h hg)).mono fun _ _ _ hq => hq.2

theorem safe_defineModuleLocal (hm : c.GoodMachine m) (hr : c.Room 1 m.thread) :
    c.Safe m defineModuleLocal fun _ _ => True := by
  refine (safe_pop (k := 0) hm hr).bind fun v m₁ hm₁ _ hq => ?_
  obtain ⟨hv, -, -⟩ := hq
  refine (safe_currentModule hm₁).bind fun p m₂ _ _ hq => ?_
  obtain ⟨-, rfl⟩ := hq
  dsimp only
  rw [safe_cells_bind]
  refine (safe_modifyModule hm₁ _ fun o ho => ?_).forget
  obtain ⟨hfunctions, hlocals, hsource⟩ := goodObject_module.1 ho
  exact goodObject_module.2 ⟨hfunctions, forall_mem_push hlocals (hv.delink _), hsource⟩

theorem safe_getModuleLocal (hm : c.GoodMachine m) (slot : UInt16) :
    c.Safe m (getModuleLocal slot) fun _ _ => True := by
  refine (safe_currentModule hm).bind fun p m₁ _ _ hq => ?_
  obtain ⟨hp, rfl⟩ := hq
  dsimp only
  refine safe_ofOption_bind hm _ fun v hv => ?_
  obtain ⟨-, hlocals, -⟩ := goodObject_module.1 hp
  have hgood := hlocals v (Array.mem_toList_iff.2 (Array.mem_of_getElem? hv))
  exact (safe_push hm hm.room_zero hgood).forget

theorem safe_setModuleLocal (hm : c.GoodMachine m) (slot : UInt16) :
    c.Safe m (setModuleLocal slot) fun _ _ => True := by
  refine (safe_peek hm fun _ => Nat.zero_le _).bind fun v m₁ _ _ hq => ?_
  obtain ⟨hv, rfl⟩ := hq
  rw [safe_cells_bind]
  refine (safe_currentModule hm).bind fun p m₂ _ _ hq => ?_
  obtain ⟨-, rfl⟩ := hq
  dsimp only
  split
  · refine (safe_modifyModule hm _ fun o ho => ?_).forget
    obtain ⟨hfunctions, hlocals, hsource⟩ := goodObject_module.1 ho
    refine goodObject_module.2 ⟨hfunctions, fun w hw => ?_, hsource⟩
    rw [Array.toList_setIfInBounds] at hw
    rcases List.mem_or_eq_of_mem_set hw with hw | rfl
    · exact hlocals w hw
    · exact hv.delink _
  · exact safe_fault hm _

/-! ### Containers -/

/-- Placing an object and pushing it. -/
theorem safe_alloc_push (hm : c.GoodMachine m) (hr : c.Room k m.thread) {o : Obj}
    (ho : c.GoodObject m.env.heap o) :
    c.Safe m (do push (.object (← alloc o))) fun _ m' => c.Room (k + 1) m'.thread := by
  refine (safe_alloc hm ho).bind fun h m₁ hm₁ _ hq => ?_
  obtain ⟨hfinds, hthread⟩ := hq
  exact (safe_push hm₁ (hthread ▸ hr) (good_object.2 hfinds)).mono fun _ _ _ hq => hq.1

theorem safe_newArray (hm : c.GoodMachine m) (hr : c.Room count m.thread) :
    c.Safe m (newArray count) fun _ _ => True := by
  refine (safe_heightBelow hm count).bind fun start m₁ _ _ hq => ?_
  obtain ⟨hstart, rfl⟩ := hq
  rw [safe_cells_bind]
  refine (safe_valuesFrom hm (by omega)).bind fun values m₂ _ _ hq => ?_
  obtain ⟨hvalues, rfl⟩ := hq
  have hfloor : c.floor ≤ start := by
    rcases hr with hz | hr <;> omega
  dsimp only
  refine (safe_truncate hm hfloor).bind fun _ m₃ hm₃ hc₃ _ => ?_
  refine (safe_alloc_push hm₃ hm₃.room_zero (goodObject_array.2 fun v hv => ?_)).forget
  obtain ⟨w, hw, rfl⟩ := Array.mem_map.1 hv
  exact ((hvalues w hw).delink _).mono hc₃.grows

theorem good_fillMap {mem : Memory} {values : List Value} {entries filled : MapObject}
    (hf : fillMap mem values entries = .ok filled) (hvalues : ∀ v ∈ values, c.Good mem.heap v)
    (he : c.GoodObject mem.heap (.map entries)) : c.GoodObject mem.heap (.map filled) := by
  fun_induction fillMap mem values entries with
  | case1 key v rest entries text htext ih =>
    refine ih hf (fun w hw => hvalues w (by simp [hw])) (goodObject_put _ he ?_)
    exact (hvalues v (by simp)).delink _
  | case2 => cases hf
  | case3 =>
    cases hf
    exact he

theorem safe_newMap (hm : c.GoodMachine m) (hcount : count * 2 < Heap.sizeRange)
    (hr : c.Room (count * 2) m.thread) : c.Safe m (newMap count) fun _ _ => True := by
  refine (safe_size hm fun _ => hcount).bind fun n m₁ _ _ hq => ?_
  obtain ⟨rfl, rfl⟩ := hq
  refine (safe_heightBelow hm _).bind fun start m₂ _ _ hq => ?_
  obtain ⟨hstart, rfl⟩ := hq
  refine (safe_valuesFrom hm (by omega)).bind fun values m₃ _ _ hq => ?_
  obtain ⟨hvalues, rfl⟩ := hq
  rw [safe_memory_bind]
  refine safe_ofExcept_bind hm fun map hmap => ?_
  have hgood : c.GoodObject m.env.heap (.map map) :=
    good_fillMap hmap (fun v hv => hvalues v (Array.mem_toList_iff.1 hv))
      (goodObject_map.2 fun e he => absurd he List.not_mem_nil)
  have hfloor : c.floor ≤ start := by
    rcases hr with hz | hr <;> omega
  refine (safe_truncate hm hfloor).bind fun _ m₄ hm₄ hc₄ _ => ?_
  exact (safe_alloc_push hm₄ hm₄.room_zero (hgood.mono hc₄.grows)).forget

theorem safe_copyValues {depth : Nat} (hd : c.sized → depth ≤ Thread.maxStack) (left : Nat)
    (hm : c.GoodMachine m) : c.Safe m (copyValues depth left) fun _ _ => True := by
  induction left generalizing m with
  | zero => exact safe_pure hm trivial
  | succ left ih =>
    refine (safe_peek hm hd).bind fun v m₁ _ _ hq => ?_
    obtain ⟨hv, rfl⟩ := hq
    exact (safe_push hm hm.room_zero hv).bind fun _ m₂ hm₂ _ _ => ih hm₂

theorem safe_copyTop (hm : c.GoodMachine m) (hcount : c.sized → count ≤ Thread.maxStack) :
    c.Safe m (copyTop count) fun _ _ => True := by
  unfold copyTop
  split
  · exact safe_pure hm trivial
  · refine (safe_difference hm (by omega : 1 ≤ count)).bind fun depth m₁ _ _ hq => ?_
    obtain ⟨hdepth, rfl⟩ := hq
    refine safe_copyValues (fun hs => ?_) count hm
    have := hcount hs
    omega

/-! ### Arithmetic -/

theorem safe_add (hm : c.GoodMachine m) (hr : c.Room 2 m.thread) :
    c.Safe m add fun _ _ => True := by
  have hone : 1 ≤ Thread.maxStack := by decide
  refine (safe_peek hm fun _ => Nat.zero_le _).bind fun b m₁ _ _ hq => ?_
  obtain ⟨-, rfl⟩ := hq
  refine (safe_peek hm fun _ => hone).bind fun a m₂ _ _ hq => ?_
  obtain ⟨-, rfl⟩ := hq
  rw [safe_memory_bind]
  -- whichever way the sum is found, it replaces the two values
  have hstore : ∀ (v : Value) {m₁ : Machine}, c.GoodMachine m₁ → c.Good m₁.env.heap v →
      m₁.thread = m.thread → c.Safe m₁ (do
        let _ ← pop
        setPeek 0 v) fun _ _ => True := by
    intro v m₁ hm₁ hv hthread
    refine (safe_pop (k := 1) hm₁ (hthread ▸ hr)).bind fun _ m₂ hm₂ hc₂ hq => ?_
    exact (safe_setPeek hm₂ (fun _ => Nat.zero_le _) hq.2.1 (hv.mono hc₂.grows)).forget
  dsimp only
  split
  · have hjoined : c.Safe m (Value.object <$> onMemory (·.concatenate a b)) fun v m' =>
        c.Good m'.env.heap v ∧ m'.thread = m.thread :=
      Safe.map ((safe_place hm rfl (goodObject_string _)).mono
        fun _ _ _ hq => ⟨good_object.2 hq.1, hq.2⟩)
    exact hjoined.bind fun v m₃ hm₃ _ hq => hstore v hm₃ hq.1 hq.2
  · refine safe_ofExcept_bind hm fun v hv => ?_
    exact hstore v hm (good_of_object?_eq_none (Memory.object?_applyBinary hv)) rfl

theorem safe_binary (hm : c.GoodMachine m) (op : BinaryOp) (hr : c.Room 2 m.thread) :
    c.Safe m (binary op) fun _ _ => True := by
  refine (safe_pop (k := 1) hm hr).bind fun b m₁ hm₁ _ hq => ?_
  refine (safe_pop (k := 0) hm₁ hq.2.1).bind fun a m₂ hm₂ _ hq => ?_
  rw [safe_memory_bind]
  refine safe_ofExcept_bind hm₂ fun v hv => ?_
  have hgood : c.Good m₂.env.heap v := good_of_object?_eq_none (Memory.object?_applyBinary hv)
  exact (safe_push hm₂ hq.2.1 hgood).forget

theorem safe_unary (hm : c.GoodMachine m) (op : UnaryOp) (hr : c.Room 1 m.thread) :
    c.Safe m (unary op) fun _ _ => True := by
  refine (safe_pop (k := 0) hm hr).bind fun a m₁ hm₁ _ hq => ?_
  rw [safe_memory_bind]
  refine safe_ofExcept_bind hm₁ fun v hv => ?_
  have hgood : c.Good m₁.env.heap v := good_of_object?_eq_none (Memory.object?_applyUnary hv)
  exact (safe_push hm₁ hq.2.1 hgood).forget

theorem safe_compare (hm : c.GoodMachine m) (expected : Bool) (hr : c.Room 2 m.thread) :
    c.Safe m (compare expected) fun _ _ => True := by
  refine (safe_pop (k := 1) hm hr).bind fun b m₁ hm₁ _ hq => ?_
  refine (safe_pop (k := 0) hm₁ hq.2.1).bind fun a m₂ hm₂ _ hq => ?_
  rw [safe_memory_bind]
  exact (safe_push hm₂ hq.2.1 (good_ofBool _)).forget

/-! ### Control -/

/-- The search ends in the code, with a distance that is a 16-bit word. -/
theorem searchTable_eq_ok {code : Array UInt8} {matching : Nat → Except Cause Bool}
    {left offset after : Nat} {default chosen : Option Nat}
    (hs : searchTable code matching left offset default = .ok (chosen, after))
    (ho : offset ≤ code.size) (hd : ∀ d ∈ default, d < 65536) :
    after ≤ code.size ∧ ∀ d ∈ chosen, d < 65536 := by
  fun_induction searchTable code matching left offset default with
  | case1 offset default =>
    cases hs
    exact ⟨ho, hd⟩
  | case2 left offset default distance hhalf hbyte ih =>
    refine ih hs (Code.le_size_of_half? hhalf) fun d hd => ?_
    cases hd
    exact distance.toNat_lt
  | case3 => cases hs
  | case4 left offset default index distance hhalf hbyte =>
    cases hs
    refine ⟨Code.le_size_of_half? hhalf, fun d hd => ?_⟩
    cases hd
    exact distance.toNat_lt
  | case5 left offset default index distance hhalf hbyte _ _ ih =>
    exact ih hs (Code.le_size_of_half? hhalf) hd
  | case6 => cases hs

theorem safe_switchTable (hm : c.GoodMachine m) (count : UInt16) (hr : c.Room 1 m.thread) :
    c.Safe m (switchTable count) fun _ _ => True := by
  refine (safe_pop (k := 0) hm hr).bind fun v m₁ hm₁ _ _ => ?_
  refine (safe_frame hm₁).bind fun f m₂ _ _ hq => ?_
  obtain ⟨hf, -, rfl⟩ := hq
  have hcode : c.sized → f.ip ≤ f.code.size ∧ f.code.size ≤ 4611686018427387904 :=
    fun hs => ⟨hf.ip_le hs, hf.code_le hs⟩
  have hcount := count.toNat_lt
  rw [safe_memory_bind]
  dsimp only
  refine (safe_size hm₁ fun hs => ?_).bind fun stop m₃ _ _ hq => ?_
  · obtain ⟨hip, hle⟩ := hcode hs
    unfold Heap.sizeRange
    omega
  obtain ⟨rfl, rfl⟩ := hq
  refine safe_ofExcept_bind hm₁ fun p hp => ?_
  obtain ⟨chosen, after⟩ := p
  have hfound : c.sized → after ≤ f.code.size ∧ ∀ d ∈ chosen, d < 65536 :=
    fun hs => searchTable_eq_ok hp (hcode hs).1 (by simp)
  dsimp only
  refine (safe_moveTo hm₁ after).bind fun _ m₄ hm₄ _ hq => ?_
  obtain ⟨-, hmoved⟩ := hq
  cases chosen with
  | none => exact safe_pure hm₄ trivial
  | some distance =>
    dsimp only
    -- the target lies at most a table and a 16-bit distance behind the current offset
    have hnear : c.sized → after ≤ 4611686018427387904 ∧
        f.ip + 3 * count.toNat + 3 + distance ≤ 4611686018427387904 + 262144 := by
      intro hs
      obtain ⟨hip, hle⟩ := hcode hs
      obtain ⟨hafter, hchosen⟩ := hfound hs
      have hdistance := hchosen distance rfl
      omega
    refine (safe_size hm₄ fun hs => ?_).bind fun target m₅ _ _ hq => ?_
    · have := hnear hs
      unfold Heap.sizeRange
      omega
    obtain ⟨rfl, rfl⟩ := hq
    refine (safe_offset hm₄ fun hs => ?_).bind fun jumped m₆ _ _ hq => ?_
    · have := hnear hs
      omega
    obtain ⟨rfl, rfl⟩ := hq
    refine (safe_jump hm₄ fun g hg _ hs => ?_).forget
    have := hnear hs
    have := hmoved g hg
    omega

/-- Leaving a call that the contract does not keep. -/
theorem GoodMachine.leave (hm : c.GoodMachine m) (hcalls : c.calls < m.thread.frames.size) :
    c.GoodMachine (m.mapFrames (·.pop)) := by
  have hsize : m.thread.frames.pop.size = m.thread.frames.size - 1 := Array.size_pop
  refine ⟨hm.env, { hm.thread with frames := ?_, frames_le := ?_, calls_le := ?_, above := ?_ }⟩
  · intro f hf
    rw [show (m.mapFrames (·.pop)).thread.frames = m.thread.frames.pop from rfl,
      Array.toList_pop] at hf
    exact hm.thread.frames f ((List.dropLast_sublist _).subset hf)
  · intro hs
    have hle := hm.thread.frames_le hs
    show m.thread.frames.pop.size ≤ _
    omega
  · show _ ≤ m.thread.frames.pop.size
    omega
  · intro i f hi hf
    change m.thread.frames.pop[i]? = some f at hf
    rw [Array.getElem?_pop] at hf
    split at hf
    · exact hm.thread.above i f hi hf
    · cases hf

theorem safe_ret (hm : c.GoodMachine m) (hcalls : c.calls < m.thread.frames.size)
    (hr : c.Room 1 m.thread) : c.Safe m ret fun _ m' => c.Room 1 m'.thread := by
  refine (safe_pop (k := 0) hm hr).bind fun result m₁ hm₁ _ hq => ?_
  obtain ⟨hresult, -, hframes⟩ := hq
  refine (safe_frame hm₁).bind fun f m₂ _ _ hq => ?_
  obtain ⟨-, hback, rfl⟩ := hq
  rw [← hframes] at hcalls
  have hslots := hm₁.thread.floor_le_slots hback (Nat.lt_of_le_of_lt c.base_le_calls hcalls)
  refine (safe_modify (Q := fun _ m' => m'.env = m₁.env) (hm₁.leave hcalls)
    ⟨.refl c _, fun _ _ => rfl, rfl⟩ rfl).bind fun _ m₃ hm₃ hc₃ _ => ?_
  refine (safe_truncate hm₃ hslots).bind fun _ m₄ hm₄ hc₄ _ => ?_
  have hgood := (hresult.mono hc₃.grows).mono hc₄.grows
  exact (safe_push hm₄ hm₄.room_zero hgood).mono fun _ _ _ hq => hq.1

/-! ### Classes -/

theorem safe_newClass (hm : c.GoodMachine m) (hash : UInt32) (kind : UInt8) :
    c.Safe m (newClass hash kind) fun _ _ => True := by
  unfold newClass
  rw [safe_environment_bind]
  refine (safe_alloc hm (goodObject_string _)).bind fun text m₁ hm₁ _ hq => ?_
  refine (safe_alloc_push hm₁ hm₁.room_zero (goodObject_class.2 ?_)).forget
  refine ⟨by simpa using hq.1, ?_, ?_, ?_, ?_⟩
  · exact fun v hv => absurd hv List.not_mem_nil
  · exact fun v hv => absurd hv List.not_mem_nil
  · exact fun v hv => absurd hv List.not_mem_nil
  · exact fun v hv => absurd hv List.not_mem_nil

theorem safe_inherit (hm : c.GoodMachine m) (hash : UInt32) :
    c.Safe m (inherit hash) fun _ _ => True := by
  refine (safe_peek hm fun _ => Nat.zero_le _).bind fun v m₁ _ _ hq => ?_
  obtain ⟨-, rfl⟩ := hq
  rw [safe_environment_bind]
  split
  · refine (safe_mapEnvironment hm (hm.env.evolves_modifyClass _ fun k hk => ?_)).forget
    obtain ⟨hname, hmethods, hfields, hinit, -⟩ := goodObject_class.1 hk
    exact goodObject_class.2
      ⟨hname, hmethods, hfields, hinit, fun h hh => absurd hh List.not_mem_nil⟩
  · exact safe_fault hm _

theorem safe_method (hm : c.GoodMachine m) (index : UInt8) (hash : UInt32)
    (hr : c.Room 1 m.thread) : c.Safe m (method index hash) fun _ _ => True := by
  refine (safe_frame hm).bind fun f m₁ _ _ hq => ?_
  obtain ⟨-, -, rfl⟩ := hq
  rw [safe_environment_bind]
  dsimp only
  refine safe_ofOption_bind hm _ fun function hfunction => ?_
  obtain ⟨module, hmodule, hfunction⟩ := Option.bind_eq_some_iff.1 hfunction
  obtain ⟨h, -, hmodule⟩ := Option.bind_eq_some_iff.1 hmodule
  have hobject := hm.env.heap.objects h _ (Heap.module?_eq_some.1 hmodule)
  have hfinds := (goodObject_module.1 hobject).1 function
    (Array.mem_toList_iff.2 (Array.mem_of_getElem? hfunction))
  refine (safe_peek hm fun _ => Nat.zero_le _).bind fun v m₂ _ _ hq => ?_
  obtain ⟨-, rfl⟩ := hq
  refine safe_ofOption_bind hm _ fun k _ => ?_
  refine (safe_mapEnvironment hm (hm.env.evolves_defineMethod k hash hfinds)).bind
    fun _ m₃ hm₃ _ hq => ?_
  refine (safe_pop (k := 0) hm₃ (hq.2 ▸ hr)).bind fun _ m₄ hm₄ _ _ => ?_
  exact safe_pure hm₄ trivial

theorem safe_getSuperclass (hm : c.GoodMachine m) (hr : c.Room 1 m.thread) :
    c.Safe m getSuperclass fun _ _ => True := by
  refine (safe_pop (k := 0) hm hr).bind fun v m₁ hm₁ _ _ => ?_
  rw [safe_environment_bind]
  dsimp only
  split
  · refine (safe_resolveParent hm₁ _).bind fun parent m₂ hm₂ _ hq => ?_
    cases parent with
    | none => exact safe_fault hm₂ _
    | some p => exact (safe_push hm₂ hm₂.room_zero (good_object.2 (hq.1 p rfl))).forget
  · exact safe_fault hm₁ _

end Contract
end ScriptVm
