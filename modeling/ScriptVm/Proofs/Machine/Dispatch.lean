import ScriptVm.Proofs.Machine.Runs
import ScriptVm.Proofs.Machine.Steps

/-!
# Safe steps

A step of the machine is safe: decoding stays in the code, and every instruction does what it does
to the top of the stack only.

* `Instruction.takes` is how many of the topmost values an instruction takes off or writes over. A
  step is safe where they lie above the floor.
* `Instruction.IsDecoded` is what decoding guarantees of operands.
* `safe_perform` has one case for each instruction, `safe_step` is a whole step.
-/

namespace ScriptVm

namespace Instruction

variable {code : Array UInt8} {offset next : Nat} {i : Instruction}

/-- How many of the topmost values an instruction takes off or writes over. -/
def takes : Instruction → Nat
  | .setElement => 3
  | .setProperty _ | .getElement | .add | .binary _ | .equal _ => 2
  | .defineGlobal _ | .defineConstant _ | .defineModuleLocal | .getProperty _ | .hasProperty _
  | .pop | .saveValue | .print | .switchTable _ | .ret | .unary _ | .typeOf | .method _ _
  | .getSuperclass => 1
  | .newArray count => count.toNat
  | .newMap count => count.toNat * 2
  | .popN count => count.toNat
  | .call argc | .invoke argc _ _ | .newInstance argc => argc.toNat + 1
  | _ => 0

/-- What decoding guarantees: jumps are short, and only plain values are pushed. -/
def IsDecoded : Instruction → Prop
  | .push v => v.object? = none
  | .jump distance | .jumpIfFalse distance => -32768 ≤ distance ∧ distance ≤ 32768
  | _ => True

theorem plain_eq_some {j : Instruction} (hd : plain offset j = some (i, next)) :
    i = j ∧ next = offset := by
  cases hd
  exact ⟨rfl, rfl⟩

theorem withByte_eq_some {f : UInt8 → Instruction} (hd : withByte code offset f = some (i, next)) :
    (∃ b, i = f b) ∧ next ≤ code.size := by
  obtain ⟨b, hb, heq⟩ := Option.map_eq_some_iff.1 hd
  cases heq
  exact ⟨⟨b, rfl⟩, Code.lt_size_of_byte? hb⟩

theorem withHalf_eq_some {f : UInt16 → Instruction}
    (hd : withHalf code offset f = some (i, next)) : (∃ n, i = f n) ∧ next ≤ code.size := by
  obtain ⟨n, hn, heq⟩ := Option.map_eq_some_iff.1 hd
  cases heq
  exact ⟨⟨n, rfl⟩, Code.le_size_of_half? hn⟩

theorem withWord_eq_some {f : UInt32 → Instruction}
    (hd : withWord code offset f = some (i, next)) : (∃ n, i = f n) ∧ next ≤ code.size := by
  obtain ⟨n, hn, heq⟩ := Option.map_eq_some_iff.1 hd
  cases heq
  exact ⟨⟨n, rfl⟩, Code.le_size_of_word? hn⟩

/-- The distance of a jump is a signed 16-bit word or the negation of one. -/
theorem distance_bounds (n : UInt16) :
    (-32768 ≤ n.toInt16.toInt ∧ n.toInt16.toInt ≤ 32768) ∧
      -32768 ≤ -n.toInt16.toInt ∧ -n.toInt16.toInt ≤ 32768 := by
  have hlt := n.toInt16.toInt_lt
  have hge := n.toInt16.le_toInt
  omega

/-- Decoding gives a decoded instruction and stays in the code. -/
theorem decode?_eq_some {op : Opcode} (hd : decode? code offset op = some (i, next))
    (ho : offset ≤ code.size) : i.IsDecoded ∧ next ≤ code.size := by
  cases op with
  | jump =>
    obtain ⟨⟨n, rfl⟩, hle⟩ := withHalf_eq_some hd
    exact ⟨(distance_bounds n).1, hle⟩
  | jumpBack =>
    obtain ⟨⟨n, rfl⟩, hle⟩ := withHalf_eq_some hd
    exact ⟨(distance_bounds n).2, hle⟩
  | jumpIfFalse =>
    obtain ⟨⟨n, rfl⟩, hle⟩ := withHalf_eq_some hd
    exact ⟨(distance_bounds n).1, hle⟩
  | newClass =>
    obtain ⟨hash, -, hd⟩ := Option.bind_eq_some_iff.1 hd
    obtain ⟨kind, hkind, hd⟩ := Option.bind_eq_some_iff.1 hd
    cases hd
    exact ⟨trivial, Code.lt_size_of_byte? hkind⟩
  | method =>
    obtain ⟨index, -, hd⟩ := Option.bind_eq_some_iff.1 hd
    obtain ⟨hash, hhash, hd⟩ := Option.bind_eq_some_iff.1 hd
    cases hd
    have hle := Code.le_size_of_word? hhash
    exact ⟨trivial, by omega⟩
  | invoke =>
    obtain ⟨argc, -, hd⟩ := Option.bind_eq_some_iff.1 hd
    obtain ⟨hash, -, hd⟩ := Option.bind_eq_some_iff.1 hd
    obtain ⟨isSuper, hsuper, hd⟩ := Option.bind_eq_some_iff.1 hd
    cases hd
    exact ⟨trivial, Code.lt_size_of_byte? hsuper⟩
  | getLocal | setLocal | popN | copy | call | newInstance =>
    obtain ⟨⟨b, rfl⟩, hle⟩ := withByte_eq_some hd
    exact ⟨trivial, hle⟩
  | getModuleLocal | setModuleLocal | switchTable | failsafe =>
    obtain ⟨⟨n, rfl⟩, hle⟩ := withHalf_eq_some hd
    exact ⟨trivial, hle⟩
  | getGlobal | setGlobal | defineGlobal | defineConstant | getProperty | setProperty | hasProperty
  | newArray | newMap | constant | inherit | importClass =>
    obtain ⟨⟨n, rfl⟩, hle⟩ := withWord_eq_some hd
    exact ⟨trivial, hle⟩
  | integer | decimal =>
    obtain ⟨⟨n, rfl⟩, hle⟩ := withWord_eq_some hd
    exact ⟨rfl, hle⟩
  | null | pushTrue | pushFalse =>
    obtain ⟨rfl, rfl⟩ := plain_eq_some hd
    exact ⟨rfl, ho⟩
  | _ =>
    obtain ⟨rfl, rfl⟩ := plain_eq_some hd
    exact ⟨trivial, ho⟩

end Instruction

/-- The instruction that the current call performs next. -/
def Machine.next? (m : Machine) : Option Instruction := do
  let f ← m.thread.frames.back?
  let byte ← Code.byte? f.code f.ip
  let op ← Opcode.ofByte? byte
  let (i, _) ← Instruction.decode? f.code (f.ip + 1) op
  return i

namespace Contract

open Exec

variable {c : Contract} {m : Machine} {executor : Exec Unit} {i : Instruction}

theorem SafeExecutor.keep {n : Nat} {hn : c.base ≤ n} (he : c.SafeExecutor executor) :
    (c.keeping n hn).SafeExecutor executor :=
  fun k hk m hm hreturn ha => he k hk m hm hreturn ha

theorem safe_importClass (hm : c.GoodMachine m) (he : c.SafeExecutor executor) (index : Nat) :
    c.Safe m (importClass executor index) fun _ _ => True := by
  refine (safe_constantAt hm index).bind fun v m₁ _ _ hq => ?_
  obtain ⟨-, rfl⟩ := hq
  rw [safe_memory_bind]
  split
  · exact safe_fault hm _
  · refine (safe_toExec (safe_loadClass hm he _)).bind fun loaded m₁ hm₁ _ _ => ?_
    split
    · exact safe_pure hm₁ trivial
    · exact safe_fault hm₁ _

/-- A byte counts fewer values than a stack holds. -/
theorem byte_le_maxStack (b : UInt8) : b.toNat ≤ Thread.maxStack := by
  have := b.toNat_lt
  unfold Thread.maxStack
  omega

theorem two_le_maxStack : 2 ≤ Thread.maxStack := by decide

/-- A jump of a decoded instruction stays in range. -/
theorem safe_jumpDecoded (hm : c.GoodMachine m) {distance : Int}
    (hd : -32768 ≤ distance ∧ distance ≤ 32768) : c.Safe m (jump distance) fun _ _ => True := by
  refine (safe_jump hm fun f _ hf hs => ?_).forget
  have hip := hf.ip_le hs
  have hcode := hf.code_le hs
  unfold Code.maxSize at hcode
  omega

/-- Taking the value on top off and forgetting it. -/
theorem safe_drop (hm : c.GoodMachine m) (hr : c.Room 1 m.thread) :
    c.Safe m (do let _ ← pop) fun _ _ => True :=
  (safe_pop (k := 0) hm hr).bind fun _ _ hm₁ _ _ => safe_pure hm₁ trivial

/-- Every instruction but a return is safe in every contract. -/
theorem safe_perform (hm : c.GoodMachine m) (he : c.SafeExecutor executor) (hd : i.IsDecoded)
    (hbase : c.base < m.thread.frames.size) (hr : c.Room i.takes m.thread) (hi : i ≠ .ret) :
    c.Safe m (perform executor i) fun _ _ => True := by
  -- where a case takes values one by one, `k` is how many it still takes afterwards
  cases i with
  | getGlobal hash =>
    refine (safe_getGlobal hm hash).bind fun v m₁ hm₁ _ hq => ?_
    exact (safe_push hm₁ hm₁.room_zero hq.1).forget
  | setGlobal hash =>
    refine (safe_peek hm fun _ => Nat.zero_le _).bind fun v m₁ hm₁ _ hq => ?_
    exact (safe_setGlobal hm₁ hash hq.1).forget
  | defineGlobal hash =>
    refine (safe_peek hm fun _ => Nat.zero_le _).bind fun v m₁ _ _ hq => ?_
    obtain ⟨hv, rfl⟩ := hq
    refine (safe_defineGlobal hm hash hv).bind fun _ m₂ hm₂ _ hthread => ?_
    exact safe_drop hm₂ (hthread ▸ hr)
  | defineConstant hash =>
    refine (safe_pop (k := 0) hm hr).bind fun v m₁ hm₁ _ hq => ?_
    exact (safe_defineConstant hm₁ hash hq.1).forget
  | getLocal slot => exact safe_getLocal hm slot
  | setLocal slot => exact safe_setLocal hm slot hbase
  | defineModuleLocal => exact safe_defineModuleLocal hm hr
  | getModuleLocal slot => exact safe_getModuleLocal hm slot
  | setModuleLocal slot => exact safe_setModuleLocal hm slot
  | getProperty hash =>
    refine (safe_peek hm fun _ => Nat.zero_le _).bind fun object m₁ _ _ hq => ?_
    obtain ⟨hobject, rfl⟩ := hq
    refine (safe_getProperty hm hash hobject).bind fun v m₂ hm₂ _ hq => ?_
    obtain ⟨hv, hthread⟩ := hq
    exact (safe_setPeek hm₂ (fun _ => Nat.zero_le _) (hthread ▸ hr) hv).forget
  | setProperty hash =>
    refine (safe_peek hm fun _ => Nat.zero_le _).bind fun v m₁ _ _ hq => ?_
    obtain ⟨hv, rfl⟩ := hq
    refine (safe_peek hm fun _ => Nat.le_of_succ_le two_le_maxStack).bind fun object m₁ _ _ hq => ?_
    obtain ⟨-, rfl⟩ := hq
    refine (safe_setProperty hm object hash hv).bind fun _ m₂ hm₂ hc₂ hthread => ?_
    refine (safe_pop (k := 1) hm₂ (hthread ▸ hr)).bind fun _ m₃ hm₃ hc₃ hq => ?_
    exact (safe_setPeek hm₃ (fun _ => Nat.zero_le _) hq.2.1 (hv.mono (hc₂.trans hc₃).grows)).forget
  | hasProperty hash =>
    refine (safe_pop (k := 0) hm hr).bind fun object m₁ hm₁ _ _ => ?_
    refine (safe_hasProperty hm₁ object hash).bind fun b m₂ hm₂ _ _ => ?_
    exact (safe_push hm₂ hm₂.room_zero (good_ofBool b)).forget
  | getElement =>
    refine (safe_pop (k := 1) hm hr).bind fun position m₁ hm₁ _ hq => ?_
    refine (safe_pop (k := 0) hm₁ hq.2.1).bind fun object m₂ hm₂ _ _ => ?_
    refine (safe_getElement hm₂ object position).bind fun v m₃ hm₃ _ hq => ?_
    exact (safe_push hm₃ hm₃.room_zero hq.1).forget
  | setElement =>
    refine (safe_peek hm fun _ => Nat.zero_le _).bind fun v m₁ _ _ hq => ?_
    obtain ⟨hv, rfl⟩ := hq
    refine (safe_peek hm fun _ => Nat.le_of_succ_le two_le_maxStack).bind
      fun position m₁ _ _ hq => ?_
    obtain ⟨-, rfl⟩ := hq
    refine (safe_peek hm fun _ => two_le_maxStack).bind fun object m₁ _ _ hq => ?_
    obtain ⟨-, rfl⟩ := hq
    rw [safe_cells_bind]
    refine (safe_setElement hm object position (hv.delink _)).bind fun _ m₂ hm₂ hc₂ hthread => ?_
    refine (safe_popMany (k := 1) 2 hm₂ (hthread ▸ hr)).bind fun _ m₃ hm₃ hc₃ hroom => ?_
    exact (safe_setPeek hm₃ (fun _ => Nat.zero_le _) hroom (hv.mono (hc₂.trans hc₃).grows)).forget
  | newArray count => exact safe_newArray hm hr
  | newMap count =>
    refine safe_newMap hm ?_ hr
    have := count.toNat_lt
    unfold Heap.sizeRange
    omega
  | push v => exact (safe_push hm hm.room_zero (good_of_object?_eq_none hd)).forget
  | constant index =>
    refine (safe_constantAt hm index.toNat).bind fun v m₁ _ _ hq => ?_
    obtain ⟨hv, rfl⟩ := hq
    exact (safe_push hm hm.room_zero hv).forget
  | pop => exact (safe_popMany (k := 0) 1 hm hr).forget
  | popN count =>
    exact (safe_popMany (k := 0) count.toNat hm (by rwa [Nat.zero_add])).forget
  | copy count => exact safe_copyTop hm (fun _ => byte_le_maxStack count)
  | saveValue =>
    refine (safe_pop (k := 0) hm hr).bind fun v m₁ hm₁ _ hq => ?_
    exact safe_modify ⟨hm₁.env, { hm₁.thread with register := hq.1 }⟩
      ⟨.refl c _, fun _ _ => rfl, rfl⟩ trivial
  | loadValue => exact (safe_push hm hm.room_zero hm.thread.register).forget
  | print =>
    refine (safe_peek hm fun _ => Nat.zero_le _).bind fun v m₁ _ _ hq => ?_
    obtain ⟨-, rfl⟩ := hq
    rw [safe_memory_bind]
    refine (safe_report hm _ _).bind fun _ m₂ hm₂ _ hthread => ?_
    exact (safe_popMany (k := 0) 1 hm₂ (hthread ▸ hr)).forget
  | printStack =>
    unfold perform
    rw [safe_get_bind]
    exact (safe_report hm _ _).forget
  | jump distance => exact safe_jumpDecoded hm hd
  | jumpIfFalse distance =>
    refine (safe_peek hm fun _ => Nat.zero_le _).bind fun v m₁ _ _ hq => ?_
    obtain ⟨-, rfl⟩ := hq
    rw [safe_cells_bind]
    split
    · exact safe_jumpDecoded hm hd
    · exact safe_pure hm trivial
  | switchTable count => exact safe_switchTable hm count hr
  | failsafe offset =>
    refine (safe_frame hm).bind fun f m₁ _ _ hq => ?_
    obtain ⟨hf, hback, rfl⟩ := hq
    refine safe_modify (hm.mapFrame fun g hg => ?_) (continues_mapFrame _ _) trivial
    rw [hback] at hg
    cases hg
    exact ⟨⟨hf.function, hf.ip_le, hf.slots_le, hf.code_le⟩, rfl⟩
  | ret => exact absurd rfl hi
  | add => exact safe_add hm hr
  | binary op => exact safe_binary hm op hr
  | unary op => exact safe_unary hm op hr
  | equal expected => exact safe_compare hm expected hr
  | typeOf =>
    refine (safe_pop (k := 0) hm hr).bind fun v m₁ hm₁ _ _ => ?_
    rw [safe_memory_bind]
    exact (safe_alloc_push hm₁ hm₁.room_zero (goodObject_string _)).forget
  | newClass hash kind => exact safe_newClass hm hash kind
  | inherit hash => exact safe_inherit hm hash
  | method index hash => exact safe_method hm index hash hr
  | getSuperclass => exact safe_getSuperclass hm hr
  | call argc => exact (safe_callValue hm (fun _ => byte_le_maxStack argc) hr).forget
  | invoke argc hash isSuper =>
    exact (safe_invoke hm hash isSuper (fun _ => byte_le_maxStack argc) hr).forget
  | newInstance argc => exact (safe_instantiate hm (fun _ => byte_le_maxStack argc) hr).forget
  | importClass index => exact safe_importClass hm he index.toNat
  | invalid op => exact safe_fault hm _
  | unsupported op => exact safe_fault hm _

/-- Where a call is active above those of the contract, one is so after any instruction, or there is
a result. -/
theorem safe_perform_answered (hm : c.GoodMachine m) (he : c.SafeExecutor executor)
    (hd : i.IsDecoded) (hcalls : c.calls < m.thread.frames.size) (hr : c.Room i.takes m.thread) :
    c.Safe m (perform executor i) fun _ m' => c.Answered m'.thread := by
  have hbase := Nat.lt_of_le_of_lt c.base_le_calls hcalls
  by_cases hi : i = .ret
  · subst hi
    exact (safe_ret hm hcalls hr).mono fun _ _ _ hq => .inr hq
  · -- all calls may be kept, since only a return leaves one
    have hkept := safe_perform (hm.keep (Nat.le_of_lt hbase) (Nat.le_refl _)) he.keep hd hbase
      hr hi
    refine (hkept.release (Nat.le_of_lt hcalls)).mono fun _ m' _ hq => .inl ?_
    omega

theorem operandWidth_le (op : Opcode) : op.operandWidth?.getD 2 ≤ 6 := by
  cases op <;> decide

theorem safe_fetchOpcode (hm : c.GoodMachine m) :
    c.Safe m fetchOpcode fun p m' => m.thread.frames.back? = some p.1 ∧
      c.GoodFrame m.env.heap p.1 ∧
        (∃ b, Code.byte? p.1.code p.1.ip = some b ∧ Opcode.ofByte? b = some p.2) ∧
          m' = m.mapFrame fun f => { f with ipLast := f.ip } := by
  refine (safe_frame hm).bind fun f m₁ _ _ hq => ?_
  obtain ⟨hf, hback, rfl⟩ := hq
  have hnoted : c.GoodMachine (m.mapFrame fun f => { f with ipLast := f.ip }) :=
    hm.mapFrame fun g hg => by
      rw [hback] at hg
      cases hg
      exact ⟨⟨hf.function, hf.ip_le, hf.slots_le, hf.code_le⟩, rfl⟩
  refine (safe_modify (Q := fun _ m' => m' = m.mapFrame fun f => { f with ipLast := f.ip }) hnoted
    (continues_mapFrame _ _) rfl).bind fun _ m₁ hm₁ _ hq => ?_
  refine (safe_size hm₁ fun hs => ?_).bind fun _ m₂ _ _ hsize => ?_
  · have hip := hf.ip_le hs
    have hcode := hf.code_le hs
    unfold Code.maxSize at hcode
    unfold Heap.sizeRange
    omega
  obtain ⟨-, rfl⟩ := hsize
  split
  · exact safe_fault hm₁ _
  · rename_i b hb
    split
    · exact safe_fault hm₁ _
    · rename_i op hop
      exact safe_pure hm₁ ⟨hback, hf, ⟨b, hb, hop⟩, hq⟩

/-- A step is safe where what the next instruction takes lies above the floor. -/
theorem safe_step (hm : c.GoodMachine m) (he : c.SafeExecutor executor)
    (hcalls : c.calls < m.thread.frames.size)
    (hr : ∀ i, m.next? = some i → c.Room i.takes m.thread) :
    c.Safe m (step executor) fun _ m' => c.Answered m'.thread := by
  refine (safe_fetchOpcode hm).bind fun p m₁ hm₁ _ hq => ?_
  obtain ⟨f, op⟩ := p
  obtain ⟨hback, hf, ⟨b, hb, hop⟩, rfl⟩ := hq
  dsimp only at hback hf hb hop
  have hip := Code.lt_size_of_byte? hb
  rw [safe_get_bind]
  refine (safe_report hm₁ _ _).bind fun _ m₂ hm₂ _ hthread => ?_
  refine (safe_size hm₂ fun hs => ?_).bind fun _ m₃ _ _ hq => ?_
  · have hcode := hf.code_le hs
    have hwidth := operandWidth_le op
    unfold Code.maxSize at hcode
    unfold Heap.sizeRange
    omega
  obtain ⟨-, rfl⟩ := hq
  split
  · exact safe_fault hm₂ _
  · rename_i i next hdecode
    obtain ⟨hd, hnext⟩ := Instruction.decode?_eq_some hdecode hip
    -- fetching moved the position only, so that `i` is what `m` performs next
    have hroom : c.Room i.takes m.thread := by
      refine hr i ?_
      simp only [Machine.next?, hback, hb, hop, hdecode, Option.bind_eq_bind, Option.bind_some,
        Option.pure_def]
    have hmoved : c.GoodMachine (m₂.mapFrame fun f => { f with ip := next }) := by
      refine hm₂.mapFrame fun g hg => ?_
      rw [hthread] at hg
      obtain ⟨f₀, hf₀, rfl⟩ := back?_mapFrame hg
      rw [hback] at hf₀
      cases hf₀
      have hg := hm₂.thread.frames _ (Array.mem_toList_iff.2 (Array.mem_of_back? (hthread ▸ hg)))
      exact ⟨⟨hg.function, fun _ => hnext, hg.slots_le, hg.code_le⟩, rfl⟩
    refine (safe_modify (Q := fun _ m' => m' = m₂.mapFrame fun f => { f with ip := next }) hmoved
      (continues_mapFrame _ _) rfl).bind fun _ m₄ hm₄ _ hq => ?_
    subst hq
    refine safe_perform_answered hm₄ he hd ?_ ?_
    · show c.calls < (m₂.thread.frames.modify _ _).size
      rw [hthread, Array.size_modify]
      show c.calls < (m.thread.frames.modify _ _).size
      rwa [Array.size_modify]
    · show c.Room i.takes { m₂.thread with frames := _ }
      rw [hthread]
      exact hroom

end Contract
end ScriptVm
