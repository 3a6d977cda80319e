import ScriptVm.Proofs.Machine.Dispatch
import ScriptVm.Proofs.Machine.Footprint

/-!
# Fetching instructions

A step fetches an instruction and performs it. How far fetching moves the current call is what the
size of the instruction says.

* `advance` is the first half of a step, `step_eq` puts the halves together, and `advance_eq_ok`
  says what is fetched.
* `decode?_next` gives the offset after the operands of every opcode; `instructionSize?_eq_some`
  and `instructionSize?_eq_none` are the cases of the size of an instruction.
-/

namespace ScriptVm

/-! ### Extents -/

/-- The bytes that stand after every opcode of a kind; of a switch table only its count does. -/
def Opcode.fixedWidth : Opcode → Nat
  | .switchTable => 2
  | op => op.operandWidth?.getD 0

/-- The opcode at an offset. -/
def Code.opcode? (code : Array UInt8) (offset : Nat) : Option Opcode :=
  (byte? code offset).bind Opcode.ofByte?

namespace Code

variable {code : Array UInt8} {offset : Nat}

theorem exists_byte? (hle : offset + 1 ≤ code.size) : ∃ b, byte? code offset = some b :=
  ⟨_, Array.getElem?_eq_getElem hle⟩

theorem exists_half? (hle : offset + 2 ≤ code.size) : ∃ n, half? code offset = some n := by
  unfold half?
  rw [Array.getElem?_eq_getElem (Nat.lt_of_succ_lt hle), Array.getElem?_eq_getElem hle]
  exact ⟨_, rfl⟩

theorem exists_word? (hle : offset + 4 ≤ code.size) : ∃ n, word? code offset = some n := by
  unfold word?
  rw [Array.getElem?_eq_getElem (show offset < code.size by omega),
    Array.getElem?_eq_getElem (show offset + 1 < code.size by omega),
    Array.getElem?_eq_getElem (show offset + 2 < code.size by omega),
    Array.getElem?_eq_getElem hle]
  exact ⟨_, rfl⟩

end Code

namespace Instruction

variable {code : Array UInt8} {offset next : Nat} {i : Instruction} {op : Opcode}

/-- What fits in the code is read, and what is read fits. -/
theorem next_map {α : Type} {found : Option α} {width : Nat} (f : α → Instruction)
    (hread : offset + width ≤ code.size → ∃ a, found = some a)
    (hfits : ∀ a, found = some a → offset + width ≤ code.size) :
    (found.map fun a => (f a, offset + width)).map Prod.snd =
      if offset + width ≤ code.size then some (offset + width) else none := by
  split
  · rename_i hle
    obtain ⟨a, rfl⟩ := hread hle
    rfl
  · rename_i hlt
    cases found with
    | none => rfl
    | some a => exact absurd (hfits a rfl) hlt

theorem next_plain (hle : offset ≤ code.size) (j : Instruction) : (plain offset j).map Prod.snd =
    if offset + 0 ≤ code.size then some (offset + 0) else none :=
  (if_pos hle).symm

theorem next_withByte (f : UInt8 → Instruction) : (withByte code offset f).map Prod.snd =
    if offset + 1 ≤ code.size then some (offset + 1) else none :=
  next_map f Code.exists_byte? fun _ => Code.lt_size_of_byte?

theorem next_withHalf (f : UInt16 → Instruction) : (withHalf code offset f).map Prod.snd =
    if offset + 2 ≤ code.size then some (offset + 2) else none :=
  next_map f Code.exists_half? fun _ => Code.le_size_of_half?

theorem next_withWord (f : UInt32 → Instruction) : (withWord code offset f).map Prod.snd =
    if offset + 4 ≤ code.size then some (offset + 4) else none :=
  next_map f Code.exists_word? fun _ => Code.le_size_of_word?

/-- The last of several operands. -/
theorem next_last {α : Type} {found : Option α} {width : Nat} (f : α → Instruction)
    (hread : offset + width ≤ code.size → ∃ a, found = some a)
    (hfits : ∀ a, found = some a → offset + width ≤ code.size) :
    (found >>= fun a => some (f a, offset + width)).map Prod.snd =
      if offset + width ≤ code.size then some (offset + width) else none := by
  rw [← next_map f hread hfits]
  cases found <;> rfl

/-- An operand and what stands right after it. -/
theorem next_bind {α : Type} {found : Option α} {rest : α → Option (Instruction × Nat)}
    {first : Nat} (second : Nat) (hread : offset + first ≤ code.size → ∃ a, found = some a)
    (hrest : ∀ a, (rest a).map Prod.snd =
      if offset + first + second ≤ code.size then some (offset + first + second) else none) :
    (found >>= rest).map Prod.snd =
      if offset + (first + second) ≤ code.size then some (offset + (first + second)) else none := by
  rw [← Nat.add_assoc]
  cases hfound : found with
  | some a => exact hrest a
  | none =>
    have hlt : ¬ offset + first ≤ code.size := by
      intro hle
      obtain ⟨a, ha⟩ := hread hle
      rw [hfound] at ha
      cases ha
    rw [if_neg (by omega)]
    rfl

/-- The offset after the operands, if all of them are there. -/
theorem decode?_next (hle : offset ≤ code.size) (op : Opcode) :
    (decode? code offset op).map Prod.snd =
      if offset + op.fixedWidth ≤ code.size then some (offset + op.fixedWidth) else none := by
  cases op with
  | newClass =>
    refine next_bind 1 Code.exists_word? fun hash => ?_
    exact next_last (.newClass hash) Code.exists_byte? fun _ => Code.lt_size_of_byte?
  | method =>
    refine next_bind 4 Code.exists_byte? fun index => ?_
    exact next_last (.method index) Code.exists_word? fun _ => Code.le_size_of_word?
  | invoke =>
    refine next_bind 5 Code.exists_byte? fun argc => ?_
    refine next_bind 1 Code.exists_word? fun hash => ?_
    exact next_last (fun isSuper => .invoke argc hash (isSuper != 0)) Code.exists_byte?
      fun _ => Code.lt_size_of_byte?
  | getLocal | setLocal | popN | copy | call | newInstance => exact next_withByte _
  | getModuleLocal | setModuleLocal | switchTable | failsafe | jump | jumpBack | jumpIfFalse =>
    exact next_withHalf _
  | getGlobal | setGlobal | defineGlobal | defineConstant | getProperty | setProperty | hasProperty
  | newArray | newMap | constant | inherit | importClass | integer | decimal =>
    exact next_withWord _
  | _ => exact next_plain hle _

end Instruction

namespace Code

variable {code : Array UInt8} {offset n : Nat} {op : Opcode}

/-- What an opcode asks for is fixed but for a switch table, and known unless it acts on a scene. -/
theorem extent?_eq (hop : op ≠ .switchTable) :
    extent? code offset op = if op.isSceneBound then none else some (1 + op.fixedWidth) := by
  cases op with
  | switchTable => exact absurd rfl hop
  | _ => rfl

theorem instructionSize?_eq (code : Array UInt8) (offset : Nat) :
    instructionSize? code offset = (opcode? code offset).bind fun op =>
      (extent? code offset op).bind fun n => if offset + n ≤ code.size then some n else none := by
  unfold instructionSize? opcode? byte?
  cases code[offset]? <;> rfl

theorem instructionSize?_eq_some (hn : instructionSize? code offset = some n) :
    ∃ op, opcode? code offset = some op ∧ extent? code offset op = some n ∧
      offset + n ≤ code.size := by
  rw [instructionSize?_eq] at hn
  obtain ⟨op, hop, hn⟩ := Option.bind_eq_some_iff.1 hn
  obtain ⟨k, hk, hn⟩ := Option.bind_eq_some_iff.1 hn
  split at hn
  · rename_i hle
    cases hn
    exact ⟨op, hop, hk, hle⟩
  · cases hn

theorem instructionSize?_eq_none (hn : instructionSize? code offset = none)
    (hop : opcode? code offset = some op) :
    ∀ k, extent? code offset op = some k → code.size < offset + k := by
  intro k hk
  rw [instructionSize?_eq, hop, Option.bind_some, hk, Option.bind_some] at hn
  split at hn
  · cases hn
  · rename_i hlt
    omega

theorem lt_size_of_opcode? (hop : opcode? code offset = some op) : offset < code.size := by
  obtain ⟨b, hb, -⟩ := Option.bind_eq_some_iff.1 hop
  exact lt_size_of_byte? hb

end Code

/-! ### Fetching -/

namespace Machine

/-- The current call notes where it is. -/
def noted (m : Machine) : Machine := m.mapFrame fun f => { f with ipLast := f.ip }

/-- The opcode of the current call is noted in the log too. -/
def traced (m : Machine) (f : Frame) (op : Opcode) : Machine :=
  { m.noted with
    env := m.env.report .trace fun _ =>
      s!"[{m.thread.id}] " ++ Text.padLeft '0' 4 (toString f.ip) ++ " " ++ op.name }

/-- The current call has moved past the operands. -/
def advanced (m : Machine) (f : Frame) (op : Opcode) (next : Nat) : Machine :=
  (m.traced f op).mapFrame fun f => { f with ip := next }

end Machine

namespace Exec

variable {m m' : Machine} {f : Frame} {op : Opcode} {i : Instruction}

/-- Fetches the instruction of the current call and moves past its operands. -/
def advance : Exec Instruction := do
  let (f, op) ← fetchOpcode
  let id := (← get).thread.id
  report .trace fun _ =>
    s!"[{id}] " ++ Text.padLeft '0' 4 (toString f.ip) ++ " " ++ op.name
  let _ ← size (f.ip + 1 + op.operandWidth?.getD 2)
  match Instruction.decode? f.code (f.ip + 1) op with
  | none => fault .endOfCode
  | some (instruction, next) =>
    modify (·.mapFrame fun f => { f with ip := next })
    return instruction

theorem step_eq (executor : Exec Unit) : step executor = advance >>= perform executor := by
  unfold step advance
  simp only [bind_assoc]
  refine bind_congr fun p => bind_congr fun m => bind_congr fun _ => bind_congr fun _ => ?_
  cases Instruction.decode? p.1.code (p.1.ip + 1) p.2 with
  | none => rfl
  | some found => rfl

theorem size_of_lt {n : Nat} (hn : n < Heap.sizeRange) : size n m = .ok n m := by
  unfold size
  rw [if_pos hn]
  rfl

theorem size_eq_ok {n k : Nat} (hrun : size n m = .ok k m') :
    n < Heap.sizeRange ∧ k = n ∧ m' = m := by
  unfold size at hrun
  split at hrun
  · rename_i hn
    cases hrun
    exact ⟨hn, rfl, rfl⟩
  · cases hrun

theorem peek_of_getElem? {v : Value} {depth : Nat} (hsize : depth + 1 < Heap.sizeRange)
    (hlt : depth < m.thread.stack.size)
    (hv : m.thread.stack[m.thread.stack.size - (depth + 1)]? = some v) :
    peek depth m = .ok v m := by
  have hbelow : heightBelow (depth + 1) m = .ok (m.thread.stack.size - (depth + 1)) m := by
    unfold heightBelow
    rw [if_pos (Nat.succ_le_of_lt hlt)]
  unfold peek
  rw [bind_of_ok (size_of_lt hsize), bind_of_ok hbelow]
  unfold valueAt
  rw [hv]

/-- Fetching looks at the opcode, once the position is noted. -/
theorem fetchOpcode_eq (hf : m.thread.frames.back? = some f) (hip : f.ip + 1 < Heap.sizeRange) :
    fetchOpcode m = (match Code.byte? f.code f.ip with
      | none => fault .endOfCode
      | some byte =>
        match Opcode.ofByte? byte with
        | none => fault (.unknownOpcode byte.toNat)
        | some op => return (f, op) : Exec (Frame × Opcode)) m.noted := by
  have hsize : size (f.ip + 1) m.noted = .ok (f.ip + 1) m.noted := size_of_lt hip
  unfold fetchOpcode
  rw [bind_of_ok (frame_of_back? hf), modify_bind]
  exact bind_of_ok hsize

/-- Without an opcode nothing is fetched. -/
theorem fetchOpcode_of_none (hf : m.thread.frames.back? = some f) (hip : f.ip + 1 < Heap.sizeRange)
    (hop : Code.opcode? f.code f.ip = none) :
    ∃ c : Cause, fetchOpcode m = .error (.error (.ofCause c)) m.noted ∧ c.severity = .fatal := by
  rw [fetchOpcode_eq hf hip]
  unfold Code.opcode? at hop
  cases hb : Code.byte? f.code f.ip with
  | none => exact ⟨.endOfCode, rfl, rfl⟩
  | some b =>
    rw [hb, Option.bind_some] at hop
    dsimp only
    rw [hop]
    exact ⟨.unknownOpcode b.toNat, rfl, rfl⟩

theorem fetchOpcode_of_some (hf : m.thread.frames.back? = some f) (hip : f.ip + 1 < Heap.sizeRange)
    (hop : Code.opcode? f.code f.ip = some op) : fetchOpcode m = .ok (f, op) m.noted := by
  obtain ⟨b, hb, hop⟩ := Option.bind_eq_some_iff.1 hop
  rw [fetchOpcode_eq hf hip, hb]
  dsimp only
  rw [hop]
  rfl

theorem operandWidth_lt {ip : Nat} (hip : ip < Code.maxSize) (op : Opcode) :
    ip + 1 + op.operandWidth?.getD 2 < Heap.sizeRange := by
  have hwidth := Contract.operandWidth_le op
  unfold Code.maxSize at hip
  unfold Heap.sizeRange
  omega

/-- Where there is an opcode, its operands decide. -/
theorem advance_eq (hf : m.thread.frames.back? = some f) (hcode : f.code.size ≤ Code.maxSize)
    (hop : Code.opcode? f.code f.ip = some op) :
    advance m = match Instruction.decode? f.code (f.ip + 1) op with
      | none => .error (.error (.ofCause .endOfCode)) (m.traced f op)
      | some (i, next) => .ok i (m.advanced f op next) := by
  have hlt := Code.lt_size_of_opcode? hop
  have hwidth := operandWidth_lt (Nat.lt_of_lt_of_le hlt hcode) op
  have hip : f.ip + 1 < Heap.sizeRange := by omega
  have hsize : size (f.ip + 1 + op.operandWidth?.getD 2) (m.traced f op) = .ok _ (m.traced f op) :=
    size_of_lt hwidth
  unfold advance
  rw [bind_of_ok (fetchOpcode_of_some hf hip hop)]
  show (size (f.ip + 1 + op.operandWidth?.getD 2) >>= _) (m.traced f op) = _
  refine (bind_of_ok hsize).trans ?_
  cases Instruction.decode? f.code (f.ip + 1) op with
  | none => rfl
  | some found => rfl

theorem fetchOpcode_eq_ok {p : Frame × Opcode} (hf : m.thread.frames.back? = some f)
    (hrun : fetchOpcode m = .ok p m') :
    p.1 = f ∧ Code.opcode? f.code f.ip = some p.2 ∧ m' = m.noted := by
  have hip : f.ip + 1 < Heap.sizeRange := by
    unfold fetchOpcode at hrun
    rw [bind_of_ok (frame_of_back? hf), modify_bind] at hrun
    obtain ⟨_, _, hsize, -⟩ := bind_eq_ok.1 hrun
    exact (size_eq_ok hsize).1
  cases hop : Code.opcode? f.code f.ip with
  | none =>
    obtain ⟨c, hfails, -⟩ := fetchOpcode_of_none hf hip hop
    rw [hfails] at hrun
    cases hrun
  | some op =>
    rw [fetchOpcode_of_some hf hip hop] at hrun
    cases hrun
    exact ⟨rfl, rfl, rfl⟩

/-- What is fetched is the instruction at the position of the current call, which moves past it. -/
theorem advance_eq_ok (hf : m.thread.frames.back? = some f) (hrun : advance m = .ok i m') :
    ∃ op next, Code.opcode? f.code f.ip = some op ∧
      Instruction.decode? f.code (f.ip + 1) op = some (i, next) ∧ m' = m.advanced f op next := by
  unfold advance at hrun
  obtain ⟨⟨f₁, op⟩, m₁, hfetch, hrun⟩ := bind_eq_ok.1 hrun
  obtain ⟨rfl, hop, rfl⟩ := fetchOpcode_eq_ok hf hfetch
  dsimp only at hf hop hrun
  obtain ⟨_, m₂, hget, hrun⟩ := bind_eq_ok.1 hrun
  cases hget
  obtain ⟨_, m₂, hreport, hrun⟩ := bind_eq_ok.1 hrun
  cases hreport
  obtain ⟨_, m₂, hsize, hrun⟩ := bind_eq_ok.1 hrun
  obtain ⟨-, -, rfl⟩ := size_eq_ok hsize
  cases hdecode : Instruction.decode? f₁.code (f₁.ip + 1) op with
  | none =>
    rw [hdecode] at hrun
    cases hrun
  | some found =>
    obtain ⟨j, next⟩ := found
    rw [hdecode] at hrun
    cases hrun
    exact ⟨op, next, hop, hdecode, rfl⟩

theorem next?_of_advance (hrun : advance m = .ok i m') : m.next? = some i := by
  cases hf : m.thread.frames.back? with
  | none =>
    have hfails : advance m = .error (.error (.ofCause .noFrame)) m :=
      bind_of_error (bind_of_error (frame_of_none hf))
    rw [hfails] at hrun
    cases hrun
  | some f =>
    obtain ⟨op, next, hop, hdecode, -⟩ := advance_eq_ok hf hrun
    obtain ⟨b, hb, hop⟩ := Option.bind_eq_some_iff.1 hop
    simp [Machine.next?, hf, hb, hop, hdecode]

theorem exists_advanced (hrun : advance m = .ok i m') : ∃ f op next, m' = m.advanced f op next := by
  cases hf : m.thread.frames.back? with
  | none => cases (bind_of_error (bind_of_error (frame_of_none hf))).symm.trans hrun
  | some f =>
    obtain ⟨op, next, -, -, rfl⟩ := advance_eq_ok hf hrun
    exact ⟨f, op, next, rfl⟩

/-- Moving past an instruction is nothing to the stack and the memory. -/
theorem stack_of_advance (hrun : advance m = .ok i m') : m'.thread.stack = m.thread.stack := by
  obtain ⟨f, op, next, rfl⟩ := exists_advanced hrun
  rfl

theorem memory_of_advance (hrun : advance m = .ok i m') : m'.env.memory = m.env.memory := by
  obtain ⟨f, op, next, rfl⟩ := exists_advanced hrun
  rfl

end Exec
end ScriptVm
