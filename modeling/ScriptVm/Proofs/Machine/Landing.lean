import ScriptVm.Proofs.Machine.InBounds
import ScriptVm.Proofs.Machine.Nesting

/-!
# Where instructions lead

The size of an instruction is what the machine goes by: where the size is not known a step ends in a
fatal fault, and elsewhere the current call goes on behind the instruction unless it jumps.

* `Code.table` are the entries of a switch table, `Code.select` the one that is followed.
* `Machine.Lands` says where a call goes on, for every opcode.
* `fails_of_truncated` is about instructions without a size, `lands_perform` about the others;
  `step_lands` has both.
-/

namespace ScriptVm

namespace Code

/-- The entries of a switch table, as far as the code goes: the index of a constant and the distance
to follow. -/
def table (code : Array UInt8) : Nat → Nat → List (UInt8 × UInt16)
  | 0, _ => []
  | left + 1, offset =>
    match byte? code offset, half? code (offset + 1) with
    | some index, some distance => (index, distance) :: table code left (offset + 3)
    | _, _ => []

/-- The first entry with a constant that is accepted. -/
def firstMatch (accepts : Nat → Bool) (entries : List (UInt8 × UInt16)) : Option Nat :=
  (entries.find? fun e => e.1 != 0xFF && accepts e.1.toNat).map (·.2.toNat)

/-- The last of the default entries. -/
def lastDefault (entries : List (UInt8 × UInt16)) : Option Nat :=
  (entries.reverse.find? fun e => e.1 == 0xFF).map (·.2.toNat)

/-- The distance of the entry that is followed. -/
def select (accepts : Nat → Bool) (entries : List (UInt8 × UInt16)) : Option Nat :=
  (firstMatch accepts entries).or (lastDefault entries)

theorem lastDefault_cons (e : UInt8 × UInt16) (rest : List (UInt8 × UInt16)) :
    lastDefault (e :: rest) =
      (lastDefault rest).or (if e.1 = 0xFF then some e.2.toNat else none) := by
  unfold lastDefault
  rw [List.reverse_cons, List.find?_append, Option.map_or]
  congr 1
  by_cases he : e.1 = 0xFF <;> simp [he]

end Code

/-- What the search of a switch table finds. -/
theorem Exec.searchTable_select {code : Array UInt8} {matching : Nat → Except Cause Bool}
    {accepts : Nat → Bool} (hmatching : ∀ i b, matching i = .ok b → accepts i = b)
    {left offset after : Nat} {default chosen : Option Nat}
    (hs : searchTable code matching left offset default = .ok (chosen, after)) :
    chosen = (Code.firstMatch accepts (Code.table code left offset)).or
        ((Code.lastDefault (Code.table code left offset)).or default) ∧
      (chosen = none → after = offset + 3 * left) := by
  fun_induction searchTable code matching left offset default with
  | case1 offset default =>
    cases hs
    exact ⟨rfl, fun _ => rfl⟩
  | case2 left offset default distance hhalf hbyte ih =>
    obtain ⟨hchosen, hafter⟩ := ih hs
    refine ⟨?_, fun hnone => by rw [hafter hnone]; omega⟩
    rw [hchosen]
    simp [Code.table, hbyte, hhalf, Code.firstMatch, Code.lastDefault_cons]
  | case3 => cases hs
  | case4 left offset default index distance hhalf hbyte hindex hmatch =>
    cases hs
    have haccepts := hmatching _ _ hmatch
    refine ⟨?_, fun hnone => by cases hnone⟩
    simp [Code.table, hbyte, hhalf, Code.firstMatch, haccepts, hindex]
  | case5 left offset default index distance hhalf hbyte hindex hmatch ih =>
    obtain ⟨hchosen, hafter⟩ := ih hs
    have haccepts := hmatching _ _ hmatch
    refine ⟨?_, fun hnone => by rw [hafter hnone]; omega⟩
    rw [hchosen]
    simp [Code.table, hbyte, hhalf, Code.firstMatch, Code.lastDefault_cons, haccepts, hindex]
  | case6 => cases hs

namespace Machine

/-- A constant of the function of a call. -/
def constantOf? (m : Machine) (f : Frame) (index : Nat) : Option Value :=
  (m.env.heap.function? f.function).bind (·.constants[index]?)

/-- Whether a value is equal to a constant of a call, which must be there. -/
def test (m : Machine) (f : Frame) (v : Value) (index : Nat) : Except Cause Bool :=
  match m.constantOf? f index with
  | some k => .ok (m.env.memory.looselyEqual v k)
  | none => .error (.constantRange index)

/-- The distance that a call follows from the switch table of `count` entries that it is at. -/
def selected (m : Machine) (f : Frame) (count : UInt16) (v : Value) : Option Nat :=
  Code.select (fun index => (m.constantOf? f index).any (m.env.memory.looselyEqual v))
    (Code.table f.code count.toNat f.ip)

/-- Where a call goes on after its instruction of `n` bytes. -/
def Lands (m : Machine) (f : Frame) (n target : Nat) : Opcode → Prop
  | .jump => ∃ d, Code.half? f.code (f.ip + 1) = some d ∧
      (target : Int) = f.ip + 3 + d.toInt16.toInt
  | .jumpBack => ∃ d, Code.half? f.code (f.ip + 1) = some d ∧
      (target : Int) = f.ip + 3 - d.toInt16.toInt
  | .jumpIfFalse => ∃ d v, Code.half? f.code (f.ip + 1) = some d ∧
      m.thread.stack.back? = some v ∧
        (target : Int) = if v.isFalsey m.env.memory.cells then f.ip + 3 + d.toInt16.toInt
          else f.ip + n
  | .switchTable => ∃ count v, Code.half? f.code (f.ip + 1) = some count ∧
      m.thread.stack.back? = some v ∧
        target = (m.selected { f with ip := f.ip + 3 } count v).elim (f.ip + n) (f.ip + n + 3 + ·)
  | _ => target = f.ip + n

/-- The current call of a machine is another frame in a later one. -/
def Becomes (m m' : Machine) (g : Frame) : Prop :=
  m'.thread.frames[m.thread.frames.size - 1]? = some g

variable {m m' m'' : Machine} {f g : Frame} {op : Opcode} {next : Nat}

/-! ### The call that executes -/

theorem becomes_of_pushed (hf : m.thread.frames.back? = some f)
    (hframes : m.thread.frames.toList <+: m'.thread.frames.toList) : m.Becomes m' f := by
  have htop := Contract.back?_eq_some hf
  obtain ⟨hlt, -⟩ := Array.getElem?_eq_some_iff.1 htop
  unfold Becomes
  rw [← Array.getElem?_toList] at htop ⊢
  obtain ⟨pushed, hpushed⟩ := hframes
  rw [← hpushed, List.getElem?_append_left (by rwa [Array.length_toList])]
  exact htop

theorem becomes_mapFrame (hf : m.thread.frames.back? = some f) (u : Frame → Frame) :
    m.Becomes (m.mapFrame u) (u f) := by
  show (m.thread.frames.modify (m.thread.frames.size - 1) u)[m.thread.frames.size - 1]? = _
  rw [Array.getElem?_modify, if_pos rfl, Contract.back?_eq_some hf]
  rfl

theorem size_mapFrame (m : Machine) (u : Frame → Frame) :
    (m.mapFrame u).thread.frames.size = m.thread.frames.size := Array.size_modify

/-- A change of the current call makes no other call current. -/
theorem back?_of_becomes (hg : m.Becomes m' g)
    (hsize : m'.thread.frames.size = m.thread.frames.size) : m'.thread.frames.back? = some g := by
  rw [Array.back?_eq_getElem?, hsize]
  exact hg

/-- What becomes of the current call does not depend on which of its states is looked at. -/
theorem Becomes.of_size (hg : m'.Becomes m'' g)
    (hsize : m'.thread.frames.size = m.thread.frames.size) : m.Becomes m'' g := by
  unfold Becomes at hg ⊢
  rwa [hsize] at hg

theorem any_of_test {v : Value} {index : Nat} {b : Bool} (hb : m.test f v index = .ok b) :
    (m.constantOf? f index).any (m.env.memory.looselyEqual v) = b := by
  unfold test at hb
  cases hk : m.constantOf? f index with
  | none =>
    rw [hk] at hb
    cases hb
  | some k =>
    rw [hk] at hb
    cases hb
    rfl

theorem size_advanced (m : Machine) (f : Frame) (op : Opcode) (next : Nat) :
    (m.advanced f op next).thread.frames.size = m.thread.frames.size := by
  unfold advanced
  rw [size_mapFrame]
  exact size_mapFrame m _

/-- Nothing of a call is left when it is popped, however it was changed. -/
theorem pop_mapFrame (m : Machine) (u : Frame → Frame) :
    (m.mapFrame u).thread.frames.pop = m.thread.frames.pop := by
  refine Array.ext_getElem? fun i => ?_
  rw [Array.getElem?_pop, Array.getElem?_pop, size_mapFrame]
  split
  · rename_i hi
    show (m.thread.frames.modify (m.thread.frames.size - 1) u)[i]? = _
    rw [Array.getElem?_modify, if_neg (by omega)]
  · rfl

theorem back?_mapFrame (hf : m.thread.frames.back? = some f) (u : Frame → Frame) :
    (m.mapFrame u).thread.frames.back? = some (u f) :=
  back?_of_becomes (becomes_mapFrame hf u) (size_mapFrame m u)

theorem back?_advanced (hf : m.thread.frames.back? = some f) (op : Opcode) (next : Nat) :
    (m.advanced f op next).thread.frames.back? = some { f with ip := next, ipLast := f.ip } := by
  have hnoted : (m.traced f op).thread.frames.back? = some { f with ipLast := f.ip } :=
    back?_mapFrame hf _
  exact back?_mapFrame hnoted _

end Machine

namespace Exec

open Machine

variable {m m' : Machine} {f : Frame} {v : Value}

theorem frame_eq_ok (hrun : frame m = .ok f m') : m.thread.frames.back? = some f ∧ m' = m := by
  unfold frame at hrun
  split at hrun
  · rename_i g hg
    cases hrun
    exact ⟨hg, rfl⟩
  · cases hrun

theorem pop_eq_ok (hrun : pop m = .ok v m') :
    m.thread.stack.back? = some v ∧ m' = m.mapStack (·.pop) := by
  unfold pop at hrun
  split at hrun
  · rename_i w hw
    cases hrun
    exact ⟨hw, rfl⟩
  · cases hrun

theorem peek_eq_ok {depth : Nat} (hrun : peek depth m = .ok v m') :
    depth < m.thread.stack.size ∧ m.thread.stack[m.thread.stack.size - (depth + 1)]? = some v ∧
      m' = m := by
  obtain ⟨_, _, hsize, hnext⟩ := bind_eq_ok.1 hrun
  obtain ⟨-, rfl, rfl⟩ := size_eq_ok hsize
  obtain ⟨height, _, hheight, hvalue⟩ := bind_eq_ok.1 hnext
  unfold heightBelow at hheight
  split at hheight
  · rename_i hle
    cases hheight
    unfold valueAt at hvalue
    split at hvalue
    · rename_i w hw
      cases hvalue
      exact ⟨hle, hw, rfl⟩
    · cases hvalue
  · cases hheight

theorem peek_zero_eq_ok (hrun : peek 0 m = .ok v m') : m.thread.stack.back? = some v ∧ m' = m := by
  obtain ⟨-, hv, rfl⟩ := peek_eq_ok hrun
  exact ⟨by rwa [Array.back?_eq_getElem?], rfl⟩

theorem ofExcept_eq_ok {α : Type} {r : Except Cause α} {a : α} (hrun : ofExcept r m = .ok a m') :
    r = .ok a ∧ m' = m := by
  cases r with
  | ok b =>
    cases hrun
    exact ⟨rfl, rfl⟩
  | error c => cases hrun

theorem moveTo_eq_ok {target : Int} (hf : m.thread.frames.back? = some f)
    (hrun : moveTo target m = .ok () m') :
    0 ≤ target ∧ m' = m.mapFrame fun _ => { f with ip := target.toNat } := by
  unfold moveTo at hrun
  rw [bind_of_ok (frame_of_back? hf)] at hrun
  obtain ⟨moved, m₁, hmoved, hrun⟩ := bind_eq_ok.1 hrun
  unfold Frame.moveTo at hmoved
  split at hmoved
  · rename_i hrange
    cases hmoved
    cases hrun
    exact ⟨hrange.1, rfl⟩
  · cases hmoved

theorem offset_eq_ok {n k : Int} (hrun : offset n m = .ok k m') : k = n ∧ m' = m := by
  unfold offset at hrun
  split at hrun
  · cases hrun
    exact ⟨rfl, rfl⟩
  · cases hrun

theorem jump_eq_ok {distance : Int} (hf : m.thread.frames.back? = some f)
    (hrun : jump distance m = .ok () m') :
    0 ≤ f.ip + distance ∧ m' = m.mapFrame fun _ => { f with ip := (f.ip + distance).toNat } := by
  unfold jump at hrun
  rw [bind_of_ok (frame_of_back? hf)] at hrun
  obtain ⟨target, m₁, hoffset, hmove⟩ := bind_eq_ok.1 hrun
  obtain ⟨rfl, rfl⟩ := offset_eq_ok hoffset
  exact moveTo_eq_ok hf hmove

/-- Goes to the entry that a search has found, or stays behind the table. -/
def follow (stop : Nat) (found : Option Nat × Nat) : Exec Unit := do
  moveTo found.2
  match found.1 with
  | some distance =>
    let target ← size (stop + distance)
    jump (← offset (target - found.2))
  | none => pure ()

/-- A switch searches its table with the value on top and follows what it finds. -/
theorem switchTable_eq (hf : m.thread.frames.back? = some f) (hv : m.thread.stack.back? = some v)
    (count : UInt16) :
    switchTable count m = (do
      let stop ← size (f.ip + 3 * count.toNat + 3)
      let found ← ofExcept (searchTable f.code (m.test f v) count.toNat f.ip none)
      follow stop found) (m.mapStack (·.pop)) := by
  have hpop : pop m = .ok v (m.mapStack (·.pop)) := by
    unfold pop
    rw [hv]
  have hf₁ : (m.mapStack (·.pop)).thread.frames.back? = some f := hf
  have htest : (fun index => match (((m.env.heap.function? f.function).map (·.constants)).getD
      #[])[index]? with
    | some k => Except.ok (m.env.memory.looselyEqual v k)
    | none => .error (.constantRange index)) = m.test f v := by
    funext index
    unfold test constantOf?
    cases m.env.heap.function? f.function <;> rfl
  rw [← htest]
  exact (bind_of_ok hpop).trans (bind_of_ok (frame_of_back? hf₁))

theorem follow_eq_ok {stop after : Nat} {chosen : Option Nat} (hf : m.thread.frames.back? = some f)
    (hrun : follow stop (chosen, after) m = .ok () m') :
    m.Becomes m' { f with ip := chosen.elim after (stop + ·) } := by
  obtain ⟨_, m₁, hmove, hrun₁⟩ := bind_eq_ok.1 hrun
  obtain ⟨-, rfl⟩ := moveTo_eq_ok hf hmove
  have hf₁ := back?_mapFrame hf fun _ => { f with ip := after }
  cases chosen with
  | none =>
    cases hrun₁
    exact becomes_mapFrame hf _
  | some d =>
    obtain ⟨target, m₂, hsize, hrun₂⟩ := bind_eq_ok.1 hrun₁
    obtain ⟨-, rfl, rfl⟩ := size_eq_ok hsize
    obtain ⟨distance, m₂, hoffset, hrun₃⟩ := bind_eq_ok.1 hrun₂
    obtain ⟨rfl, rfl⟩ := offset_eq_ok hoffset
    obtain ⟨-, rfl⟩ := jump_eq_ok hf₁ hrun₃
    have htarget : ((after : Int) + ((stop + d : Nat) - after)).toNat = stop + d := by omega
    dsimp only at htarget ⊢
    rw [htarget]
    exact (becomes_mapFrame hf₁ _).of_size (size_mapFrame m _)

/-- A switch leads to the entry that is selected, or behind the table. -/
theorem switchTable_eq_ok {count : UInt16} (hf : m.thread.frames.back? = some f)
    (hrun : switchTable count m = .ok () m') :
    ∃ v, m.thread.stack.back? = some v ∧
      m.Becomes m' { f with
        ip := (m.selected f count v).elim (f.ip + 3 * count.toNat)
          (f.ip + 3 * count.toNat + 3 + ·) } := by
  obtain ⟨v, m₁, hpop, -⟩ := bind_eq_ok.1 hrun
  obtain ⟨hv, -⟩ := pop_eq_ok hpop
  rw [switchTable_eq hf hv] at hrun
  obtain ⟨stop, m₁, hstop, hrun₁⟩ := bind_eq_ok.1 hrun
  obtain ⟨-, rfl, rfl⟩ := size_eq_ok hstop
  obtain ⟨⟨chosen, after⟩, m₁, hsearch, hfollow⟩ := bind_eq_ok.1 hrun₁
  obtain ⟨hfound, rfl⟩ := ofExcept_eq_ok hsearch
  obtain ⟨hchosen, hafter⟩ := searchTable_select (fun _ _ => any_of_test) hfound
  rw [Option.or_none] at hchosen
  refine ⟨v, hv, ?_⟩
  have hbecomes := follow_eq_ok (m := m.mapStack (·.pop)) hf hfollow
  unfold selected Code.select
  rw [← hchosen]
  cases chosen with
  | some d => exact hbecomes
  | none =>
    rw [hafter rfl] at hbecomes
    exact hbecomes

section Instructions

variable {executor : Exec Unit}

theorem jumpIfFalse_eq_ok {distance : Int} (hf : m.thread.frames.back? = some f)
    (hrun : perform executor (.jumpIfFalse distance) m = .ok () m') :
    ∃ v, ∃ target : Nat, m.thread.stack.back? = some v ∧ m.Becomes m' { f with ip := target } ∧
      (target : Int) = if v.isFalsey m.env.memory.cells then f.ip + distance else f.ip := by
  obtain ⟨v, m₁, hpeek, hrun₁⟩ := bind_eq_ok.1 hrun
  obtain ⟨hv, hsame⟩ := peek_zero_eq_ok hpeek
  rw [hsame] at hrun₁
  obtain ⟨cells, m₂, hcells, hrun₂⟩ := bind_eq_ok.1 hrun₁
  cases hcells
  by_cases hfalsey : v.isFalsey m.env.memory.cells = true
  · have htaken : jump distance m = .ok () m' := (congrFun (if_pos hfalsey) m).symm.trans hrun₂
    obtain ⟨hle, rfl⟩ := jump_eq_ok hf htaken
    refine ⟨v, _, hv, becomes_mapFrame hf _, ?_⟩
    rw [if_pos hfalsey]
    exact Int.toNat_of_nonneg hle
  · cases (congrFun (if_neg hfalsey) m).symm.trans hrun₂
    exact ⟨v, f.ip, hv, becomes_of_pushed hf List.prefix_rfl, (if_neg hfalsey).symm⟩

theorem failsafe_eq_ok {offset : UInt16} (hf : m.thread.frames.back? = some f)
    (hrun : perform executor (.failsafe offset) m = .ok () m') :
    m.Becomes m' { f with failsafe := some offset.toNat } := by
  obtain ⟨_, m₁, hframe, hrun₁⟩ := bind_eq_ok.1 hrun
  obtain ⟨-, rfl⟩ := frame_eq_ok hframe
  cases hrun₁
  exact becomes_mapFrame hf fun f => { f with failsafe := some offset.toNat }

theorem importClass_eq_ok {index : UInt32} (he : Keeps (Machine.Above 0 0) executor)
    (hf : m.thread.frames.back? = some f)
    (hrun : perform executor (.importClass index) m = .ok () m') : m.Becomes m' f := by
  have hcalls : m.SameCalls (after (perform executor (.importClass index)) m) :=
    calls_importClass he index.toNat m
  rw [after_of_ok hrun] at hcalls
  exact becomes_of_pushed hf (hcalls.frames ▸ List.prefix_rfl)

theorem ret_eq_ok (hrun : ret m = .ok () m') : m'.thread.frames = m.thread.frames.pop := by
  obtain ⟨v, m₁, hpop, hrun₁⟩ := bind_eq_ok.1 hrun
  obtain ⟨-, rfl⟩ := pop_eq_ok hpop
  obtain ⟨f, m₁, hframe, hrun₂⟩ := bind_eq_ok.1 hrun₁
  obtain ⟨-, rfl⟩ := frame_eq_ok hframe
  rw [modify_bind] at hrun₂
  obtain ⟨_, m₁, htruncate, hpush⟩ := bind_eq_ok.1 hrun₂
  cases htruncate
  unfold push at hpush
  split at hpush
  · cases hpush
    rfl
  · cases hpush

end Instructions

end Exec

/-- An opcode that neither moves the current call nor leaves it nor imports a class. -/
def Opcode.IsQuiet : Opcode → Prop
  | .jump | .jumpBack | .jumpIfFalse | .switchTable | .failsafe | .ret | .importClass => False
  | _ => True

namespace Instruction

variable {code : Array UInt8} {offset next : Nat} {i : Instruction} {op : Opcode}

/-- The operands of a decoded instruction are all in the code. -/
theorem decode?_extent (hle : offset ≤ code.size) (hd : decode? code offset op = some (i, next)) :
    next = offset + op.fixedWidth ∧ offset + op.fixedWidth ≤ code.size := by
  have hwidth := decode?_next hle op
  rw [hd, Option.map_some] at hwidth
  split at hwidth
  · rename_i hfits
    exact ⟨Option.some.inj hwidth, hfits⟩
  · cases hwidth

theorem decode?_sceneBound (hop : op.isSceneBound = true)
    (hd : decode? code offset op = some (i, next)) : i = .unsupported op := by
  cases op with
  | withReceiver | event | enumNext | addEnum | newEnum | useNamespace | importModule | switch =>
    exact (plain_eq_some hd).1
  | _ => cases hop

theorem isQuiet_decode? (hop : op.IsQuiet) (hd : decode? code offset op = some (i, next)) :
    i.IsQuiet := by
  cases op with
  | jump | jumpBack | jumpIfFalse | switchTable | failsafe | ret | importClass => exact hop.elim
  | newClass =>
    obtain ⟨hash, -, hd⟩ := Option.bind_eq_some_iff.1 hd
    obtain ⟨kind, -, hd⟩ := Option.bind_eq_some_iff.1 hd
    cases hd
    trivial
  | method =>
    obtain ⟨index, -, hd⟩ := Option.bind_eq_some_iff.1 hd
    obtain ⟨hash, -, hd⟩ := Option.bind_eq_some_iff.1 hd
    cases hd
    trivial
  | invoke =>
    obtain ⟨argc, -, hd⟩ := Option.bind_eq_some_iff.1 hd
    obtain ⟨hash, -, hd⟩ := Option.bind_eq_some_iff.1 hd
    obtain ⟨isSuper, -, hd⟩ := Option.bind_eq_some_iff.1 hd
    cases hd
    trivial
  | getLocal | setLocal | popN | copy | call | newInstance =>
    obtain ⟨⟨b, rfl⟩, -⟩ := withByte_eq_some hd
    trivial
  | getModuleLocal | setModuleLocal =>
    obtain ⟨⟨n, rfl⟩, -⟩ := withHalf_eq_some hd
    trivial
  | getGlobal | setGlobal | defineGlobal | defineConstant | getProperty | setProperty | hasProperty
  | newArray | newMap | constant | inherit | integer | decimal =>
    obtain ⟨⟨n, rfl⟩, -⟩ := withWord_eq_some hd
    trivial
  | _ =>
    obtain ⟨rfl, -⟩ := plain_eq_some hd
    trivial

end Instruction

namespace Exec

open Machine

variable {m m' : Machine} {f : Frame} {op : Opcode} {i : Instruction} {executor : Exec Unit}
  {n next : Nat}

/-- Where a call goes on that has fetched its instruction and performs it. -/
theorem lands_perform (he : Keeps (Machine.Above 0 0) executor)
    (hf : m.thread.frames.back? = some f) (hop : Code.opcode? f.code f.ip = some op)
    (hn : Code.extent? f.code f.ip op = some n)
    (hd : Instruction.decode? f.code (f.ip + 1) op = some (i, next)) (hret : op ≠ .ret)
    (hrun : perform executor i (m.advanced f op next) = .ok () m') :
    ∃ target failsafe, m.Becomes m' { f with ip := target, ipLast := f.ip, failsafe } ∧
      m.Lands f n target op := by
  have hf₁ := back?_advanced hf op next
  have hsize := m.size_advanced f op next
  obtain ⟨hnext, -⟩ := Instruction.decode?_extent (Code.lt_size_of_opcode? hop) hd
  have hfixed : op ≠ .switchTable → next = f.ip + n := by
    intro hswitch
    rw [Code.extent?_eq hswitch] at hn
    split at hn
    · cases hn
    · cases hn
      omega
  have hquiet : op.IsQuiet → m.Becomes m' { f with ip := next, ipLast := f.ip } := by
    intro hquiet
    have hkeeps := quiet_perform (Instruction.isQuiet_decode? hquiet hd) executor
      (m.advanced f op next)
    rw [after_of_ok hrun] at hkeeps
    exact (becomes_of_pushed hf₁ hkeeps.frames).of_size hsize
  cases op with
  | ret => exact absurd rfl hret
  | jump =>
    obtain ⟨d, hhalf, heq⟩ := Option.map_eq_some_iff.1 hd
    cases heq
    obtain ⟨hle, rfl⟩ := jump_eq_ok hf₁ hrun
    exact ⟨_, _, (becomes_mapFrame hf₁ _).of_size hsize, d, hhalf, Int.toNat_of_nonneg hle⟩
  | jumpBack =>
    obtain ⟨d, hhalf, heq⟩ := Option.map_eq_some_iff.1 hd
    cases heq
    obtain ⟨hle, rfl⟩ := jump_eq_ok hf₁ hrun
    exact ⟨_, _, (becomes_mapFrame hf₁ _).of_size hsize, d, hhalf, Int.toNat_of_nonneg hle⟩
  | jumpIfFalse =>
    obtain ⟨d, hhalf, heq⟩ := Option.map_eq_some_iff.1 hd
    cases heq
    cases hn
    obtain ⟨v, target, hv, hbecomes, htarget⟩ := jumpIfFalse_eq_ok hf₁ hrun
    exact ⟨target, _, hbecomes.of_size hsize, d, v, hhalf, hv, htarget⟩
  | switchTable =>
    obtain ⟨count, hhalf, heq⟩ := Option.map_eq_some_iff.1 hd
    cases heq
    obtain ⟨v, hv, hbecomes⟩ := switchTable_eq_ok hf₁ hrun
    have hextent : f.ip + n = f.ip + 1 + 2 + 3 * count.toNat := by
      unfold Code.extent? at hn
      rw [hhalf] at hn
      cases hn
      dsimp only
      omega
    refine ⟨_, _, hbecomes.of_size hsize, count, v, hhalf, hv, ?_⟩
    rw [hextent]
    rfl
  | failsafe =>
    obtain ⟨offset, -, heq⟩ := Option.map_eq_some_iff.1 hd
    cases heq
    cases hn
    exact ⟨_, _, (failsafe_eq_ok hf₁ hrun).of_size hsize, rfl⟩
  | importClass =>
    obtain ⟨index, -, heq⟩ := Option.map_eq_some_iff.1 hd
    cases heq
    cases hn
    exact ⟨_, _, (importClass_eq_ok he hf₁ hrun).of_size hsize, rfl⟩
  | _ =>
    refine ⟨next, f.failsafe, hquiet ?_, hfixed ?_⟩
    · exact trivial
    · nofun

/-! ### Instructions without a size -/

/-- An action ends in a fatal fault. -/
def FailsFatally {α : Type} (x : Exec α) (m : Machine) : Prop :=
  ∃ c m', x m = .error (.error (.ofCause c)) m' ∧ c.severity = .fatal

theorem FailsFatally.bind {α β : Type} {x : Exec α} {g : α → Exec β} (hx : FailsFatally x m) :
    FailsFatally (x >>= g) m := by
  obtain ⟨c, m', hrun, hfatal⟩ := hx
  exact ⟨c, m', bind_of_error hrun, hfatal⟩

theorem FailsFatally.after {α β : Type} {x : Exec α} {g : α → Exec β} {a : α}
    (hx : x m = .ok a m') (hg : FailsFatally (g a) m') : FailsFatally (x >>= g) m := by
  unfold FailsFatally
  rwa [bind_of_ok hx]

theorem moveTo_of_le {target : Nat} (hf : m.thread.frames.back? = some f)
    (hle : target ≤ f.code.size) :
    moveTo target m = .ok () (m.mapFrame fun _ => { f with ip := target }) := by
  have hmoved : f.moveTo target = .ok { f with ip := target } := if_pos (by omega)
  unfold moveTo
  rw [bind_of_ok (frame_of_back? hf), hmoved]
  rfl

theorem moveTo_of_outside {target : Int} (hf : m.thread.frames.back? = some f)
    (hout : ¬ (0 ≤ target ∧ target ≤ f.code.size)) :
    moveTo target m = .error (.error (.ofCause (.jumpOutside target))) m := by
  have hmoved : f.moveTo target = .error (.jumpOutside target) := if_neg hout
  unfold moveTo
  rw [bind_of_ok (frame_of_back? hf), hmoved]
  rfl

theorem offset_of_bounds {n : Int} (hn : -9223372036854775808 ≤ n ∧ n ≤ 9223372036854775807) :
    offset n m = .ok n m := by
  unfold offset
  rw [if_pos hn]
  rfl

/-- A jump moves the call from where it is, unless the sum is out of range. -/
theorem jump_eq_moveTo {distance : Int} (hf : m.thread.frames.back? = some f)
    (hbounds : -9223372036854775808 ≤ f.ip + distance ∧ f.ip + distance ≤ 9223372036854775807) :
    jump distance m = moveTo (f.ip + distance) m := by
  have hoffset : offset (f.ip + distance) m = .ok (f.ip + distance) m := offset_of_bounds hbounds
  unfold jump
  rw [bind_of_ok (frame_of_back? hf), bind_of_ok hoffset]

/-- A jump behind the code. -/
theorem jump_fails {distance : Int} (hf : m.thread.frames.back? = some f)
    (hout : f.code.size < f.ip + distance) (hbound : f.ip + distance ≤ 9223372036854775807) :
    FailsFatally (jump distance) m := by
  refine ⟨.jumpOutside (f.ip + distance), m, ?_, rfl⟩
  rw [jump_eq_moveTo hf ⟨by omega, hbound⟩]
  exact moveTo_of_outside hf (by omega)

/-- An entry of a table that ends behind the code leads behind the code as well. -/
theorem follow_fails {stop after d : Nat} (hf : m.thread.frames.back? = some f)
    (hafter : after ≤ f.code.size) (hstop : f.code.size < stop)
    (hbound : stop + d ≤ 9223372036854775807) :
    FailsFatally (follow stop (some d, after)) m := by
  have hf₁ := back?_mapFrame hf fun _ => { f with ip := after }
  have hsize : size (stop + d) (m.mapFrame fun _ => { f with ip := after }) = .ok _ _ :=
    size_of_lt (by unfold Heap.sizeRange; omega)
  have hoffset : offset ((stop + d : Nat) - after) (m.mapFrame fun _ => { f with ip := after }) =
      .ok _ _ := offset_of_bounds (by omega)
  refine .after (moveTo_of_le hf hafter) (.after hsize (.after hoffset ?_))
  refine jump_fails hf₁ ?_ ?_
  · dsimp only
    omega
  · dsimp only
    omega

/-- The search of a table fails for a constant that is missing or at the end of the code. -/
theorem searchTable_eq_error {code : Array UInt8} {v : Value} {left offset : Nat}
    {default : Option Nat} {c : Cause}
    (hs : searchTable code (m.test f v) left offset default = .error c) : c.severity = .fatal := by
  fun_induction searchTable code (m.test f v) left offset default with
  | case1 => cases hs
  | case2 left offset default distance hhalf hbyte ih => exact ih hs
  | case3 left offset default index distance hhalf hbyte hindex c' htest =>
    cases hs
    unfold test at htest
    split at htest
    · cases htest
    · cases htest
      rfl
  | case4 => cases hs
  | case5 left offset default index distance hhalf hbyte hindex htest ih => exact ih hs
  | case6 =>
    cases hs
    rfl

/-- A switch whose table ends behind the code. -/
theorem switchTable_fails {count : UInt16} (hf : m.thread.frames.back? = some f)
    (hcode : f.code.size ≤ Code.maxSize) (hip : f.ip ≤ f.code.size)
    (hlt : f.code.size < f.ip + 3 * count.toNat) : FailsFatally (switchTable count) m := by
  have hcount := count.toNat_lt
  unfold Code.maxSize at hcode
  cases hv : m.thread.stack.back? with
  | none =>
    refine .bind ⟨.stackUnderflow, m, ?_, rfl⟩
    unfold pop
    rw [hv]
  | some v =>
    have hsize : size (f.ip + 3 * count.toNat + 3) (m.mapStack (·.pop)) = .ok _ _ :=
      size_of_lt (by unfold Heap.sizeRange; omega)
    unfold FailsFatally
    rw [switchTable_eq hf hv]
    refine FailsFatally.after hsize ?_
    cases hs : searchTable f.code (m.test f v) count.toNat f.ip none with
    | error c => exact .bind ⟨c, _, rfl, searchTable_eq_error hs⟩
    | ok found =>
      obtain ⟨chosen, after⟩ := found
      obtain ⟨hafter, hchosen⟩ := Contract.searchTable_eq_ok hs hip nofun
      obtain ⟨-, hnone⟩ := searchTable_select (fun _ _ => any_of_test) hs
      cases chosen with
      | none =>
        have hend := hnone rfl
        omega
      | some d =>
        have hd := hchosen d rfl
        exact .after rfl (follow_fails (m := m.mapStack (·.pop)) hf hafter (by omega) (by omega))

/-- Where no size is known a step ends in a fatal fault. -/
theorem fails_of_truncated (hf : m.thread.frames.back? = some f) (hip : f.ip + 1 < Heap.sizeRange)
    (hcode : f.code.size ≤ Code.maxSize) (hn : Code.instructionSize? f.code f.ip = none) :
    FailsFatally (step executor) m := by
  rw [step_eq]
  cases hop : Code.opcode? f.code f.ip with
  | none =>
    obtain ⟨c, hfetch, hfatal⟩ := fetchOpcode_of_none hf hip hop
    exact .bind (.bind ⟨c, _, hfetch, hfatal⟩)
  | some op =>
    have hadvance := advance_eq hf hcode hop
    have hle := Code.lt_size_of_opcode? hop
    have hextent := Code.instructionSize?_eq_none hn hop
    cases hd : Instruction.decode? f.code (f.ip + 1) op with
    | none =>
      rw [hd] at hadvance
      exact .bind ⟨.endOfCode, _, hadvance, rfl⟩
    | some found =>
      obtain ⟨i, next⟩ := found
      rw [hd] at hadvance
      refine .after hadvance ?_
      obtain ⟨rfl, hfits⟩ := Instruction.decode?_extent hle hd
      by_cases hswitch : op = .switchTable
      · subst hswitch
        obtain ⟨count, hhalf, heq⟩ := Option.map_eq_some_iff.1 hd
        cases heq
        have hlt := hextent (3 + count.toNat * 3) (by unfold Code.extent?; rw [hhalf]; rfl)
        refine switchTable_fails (back?_advanced hf _ _) hcode hfits ?_
        dsimp only [Opcode.fixedWidth]
        omega
      · rw [Code.extent?_eq hswitch] at hextent
        -- only an instruction of a scene has its operands and no size
        by_cases hscene : op.isSceneBound = true
        · rw [Instruction.decode?_sceneBound hscene hd]
          exact ⟨.unsupportedOpcode op.name, _, rfl, rfl⟩
        · rw [if_neg hscene] at hextent
          have hlt := hextent _ rfl
          omega

end Exec

namespace Machine

open Exec

/-- **Sizes and steps agree.** A step that succeeds leaves the call behind its instruction or where
that jumps, unless it returns; one on no instruction is fatal. -/
theorem step_lands (fuel : Nat) {m : Machine} {f : Frame}
    (hf : m.thread.frames.back? = some f) :
    (f.ip + 1 < Heap.sizeRange → f.code.size ≤ Code.maxSize →
      Code.instructionSize? f.code f.ip = none → FailsFatally (step (execute fuel)) m) ∧
    ∀ n m', Code.instructionSize? f.code f.ip = some n → step (execute fuel) m = .ok () m' →
      ∃ op, Code.opcode? f.code f.ip = some op ∧
        (op = .ret → m'.thread.frames = m.thread.frames.pop) ∧
        (op ≠ .ret → ∃ target failsafe,
          m.Becomes m' { f with ip := target, ipLast := f.ip, failsafe } ∧
            m.Lands f n target op) := by
  refine ⟨fun hip hcode hn => fails_of_truncated hf hip hcode hn, fun n m' hn hrun => ?_⟩
  rw [step_eq] at hrun
  obtain ⟨i, m₁, hadvance, hperform⟩ := bind_eq_ok.1 hrun
  obtain ⟨op, next, hop, hd, rfl⟩ := advance_eq_ok hf hadvance
  obtain ⟨op', hop', hextent, -⟩ := Code.instructionSize?_eq_some hn
  rw [hop] at hop'
  cases hop'
  refine ⟨op, hop, fun hret => ?_, fun hret => ?_⟩
  · subst hret
    cases hd
    rw [ret_eq_ok hperform]
    exact (pop_mapFrame _ _).trans (pop_mapFrame m _)
  · exact lands_perform (above_execute fuel) hf hop hextent hd hret hperform

/-- A machine at the start of the given code, with the value 7 on its stack. -/
def inCode (code : Array UInt8) : Machine :=
  (ofCode code).mapThread fun t =>
    { t with stack := #[.integer 7], frames := #[.enter ⟨0, 0⟩ code 0 none] }

/-- A table without its last byte is fatal; the whole table leads to its default entry. -/
theorem step_lands_default :
    let code : Array UInt8 := #[57, 1, 0, 255, 1, 0, 32, 32, 32, 32, 11]
    FailsFatally (step (execute 1)) (inCode #[57, 1, 0, 255, 1]) ∧
      ∃ m' failsafe, step (execute 1) (inCode code) = .ok () m' ∧
        (inCode code).Becomes m'
          { Frame.enter ⟨0, 0⟩ code 0 none with ip := 10, ipLast := 0, failsafe } := by
  intro code
  refine ⟨(step_lands 1 rfl).1 (by decide) (by decide) (by decide), ?_⟩
  cases hrun : step (execute 1) (inCode code) with
  | error e m' =>
    have hok : (match step (execute 1) (inCode code) with
      | .ok _ _ => true
      | .error _ _ => false) = true := by decide +kernel
    rw [hrun] at hok
    cases hok
  | ok _ m' =>
    obtain ⟨op, hop, -, hlands⟩ := (step_lands 1 rfl).2 6 m' (by decide) hrun
    cases hop
    obtain ⟨target, failsafe, hbecomes, count, v, hcount, hv, htarget⟩ := hlands nofun
    cases hcount
    cases hv
    have hten : target = 10 := htarget.trans (by decide +kernel)
    subst hten
    exact ⟨m', failsafe, rfl, hbecomes⟩

end Machine
end ScriptVm
