import ScriptVm.Proofs.Machine.AssembledJumps

/-!
# What emissions write

Each call that emits an instruction writes the operands of that instruction on its own, while a
decoder takes the number of operand bytes from the opcode.

* `Emission` is a call that emits one instruction, and `Chunk.emit?` carries it out.
* `Emission.op` and `Emission.operands` are what it writes, and `Emission.width` is the number of
  operand bytes. `Emission.operandWidth?_op` finds it in the table of opcodes,
  `Emission.length_operands` in the operands.
* `Chunk.emits` says what an emission changes, `Chunk.exists_emit?` that it succeeds.
-/

namespace ScriptVm

/-- A call that emits one instruction. Where the opcode is left to the caller, it is one with the
operands that the call writes. -/
inductive Emission where
  | opcode (op : Opcode) (hop : op.operandWidth? = some 0)
  | constant (k : Constant)
  | integer (n : Int32)
  | decimal (d : Decimal)
  | named (op : Opcode) (name : String) (hop : op.operandWidth? = some 4)
  | withByte (op : Opcode) (operand : UInt8) (hop : op.operandWidth? = some 1)
  | invoke (name : String) (argc : UInt8) (isSuper : Bool)
  | newClass (name : String) (extended : Bool)
  | method (index : UInt8) (name : String)
  | jump (op : Opcode) (hop : op.operandWidth? = some 2)
  | loop (target : Nat)

/-- Carries out a call on a chunk and gives what it returns: the index of a constant, or the
position of the operand of a jump. -/
def Chunk.emit? (c : Chunk) : Emission → Option (Option Nat × Chunk)
  | .opcode op _ => some (none, c.emitOpcode op)
  | .constant k => some (some (c.emitConstant k).1.toNat, (c.emitConstant k).2)
  | .integer n => some (none, c.emitInteger n)
  | .decimal d => some (none, c.emitDecimal d)
  | .named op name _ => some (none, c.emitNamed op name)
  | .withByte op operand _ => some (none, c.emitWithByte op operand)
  | .invoke name argc isSuper => some (none, c.emitInvoke name argc isSuper)
  | .newClass name extended => some (none, c.emitClass name extended)
  | .method index name => some (none, c.emitMethod index name)
  | .jump op _ => some (some (c.emitJump op).1, (c.emitJump op).2)
  | .loop target => (c.emitLoop? target).map fun c => (none, c)

namespace Emission

/-- A forward jump or a loop. -/
def IsJump : Emission → Prop
  | .jump .. | .loop _ => True
  | _ => False

/-- The opcode of the instruction. -/
def op : Emission → Opcode
  | .opcode op _ | .named op _ _ | .withByte op _ _ | .jump op _ => op
  | .constant _ => .constant
  | .integer _ => .integer
  | .decimal _ => .decimal
  | .invoke .. => .invoke
  | .newClass .. => .newClass
  | .method .. => .method
  | .loop _ => .jumpBack

/-- The operand bytes that the call writes at the end of a chunk. -/
def operands (c : Chunk) : Emission → List UInt8
  | .opcode .. => []
  | .constant _ => Bytes.bytes32 c.constants.size.toUInt32
  | .integer n => Bytes.bytes32 n.toUInt32
  | .decimal d => Bytes.bytes32 d.bits
  | .named _ name _ => Bytes.bytes32 (hashName name)
  | .withByte _ operand _ => [operand]
  | .invoke name argc isSuper =>
    argc :: (Bytes.bytes32 (hashName name) ++ [if isSuper then 1 else 0])
  | .newClass name extended => Bytes.bytes32 (hashName name) ++ [if extended then 1 else 0]
  | .method index name => index :: Bytes.bytes32 (hashName name)
  | .jump .. => Bytes.bytes16 0xFFFF
  | .loop target => Bytes.bytes16 (c.code.size + 3 - target).toUInt16

/-- The number of operand bytes. -/
def width : Emission → Nat
  | .opcode .. => 0
  | .withByte .. => 1
  | .jump .. | .loop _ => 2
  | .constant _ | .integer _ | .decimal _ | .named .. => 4
  | .newClass .. | .method .. => 5
  | .invoke .. => 6

/-- The constants that the call adds. -/
def added : Emission → Array Constant
  | .constant k => #[k]
  | _ => #[]

/-- What the call returns. -/
def given (c : Chunk) : Emission → Option Nat
  | .constant _ => some c.constants.size.toUInt32.toNat
  | .jump .. => some (c.code.size + 1)
  | _ => none

variable (e : Emission) (c : Chunk)

/-- The table of sizes has the width of every emission. -/
theorem operandWidth?_op : e.op.operandWidth? = some e.width := by
  cases e with
  | opcode _ hop | named _ _ hop | withByte _ _ hop | jump _ hop => exact hop
  | _ => rfl

theorem length_operands : (e.operands c).length = e.width := by
  cases e <;> rfl

theorem width_of_isJump {e : Emission} (he : e.IsJump) : e.width = 2 := by
  cases e with
  | jump | loop => rfl
  | _ => exact he.elim

end Emission

namespace Chunk

variable {c c' : Chunk} {e : Emission} {given : Option Nat}

theorem lines_emitBytes (c : Chunk) (bytes : List UInt8) :
    (c.emitBytes bytes).lines = c.lines.map (· ++ Array.replicate bytes.length c.currentLine) := by
  unfold emitBytes
  induction bytes generalizing c with
  | nil => simp
  | cons b rest ih =>
    rw [List.foldl_cons, ih]
    cases hc : c.lines with
    | none => simp [emitByte, hc]
    | some table =>
      simp only [emitByte, hc, Option.map_some, List.length_cons, Option.some.injEq]
      rw [Array.replicate_succ', Array.push_eq_append, Array.append_assoc]

theorem currentLine_emitBytes (c : Chunk) (bytes : List UInt8) :
    (c.emitBytes bytes).currentLine = c.currentLine := by
  unfold emitBytes
  induction bytes generalizing c with
  | nil => rfl
  | cons b rest ih => exact ih (c.emitByte b)

theorem constants_emitBytes (c : Chunk) (bytes : List UInt8) :
    (c.emitBytes bytes).constants = c.constants := by
  unfold emitBytes
  induction bytes generalizing c with
  | nil => rfl
  | cons b rest ih => exact ih (c.emitByte b)

/-- An emission appends its instruction, a line for each byte, and its constants. -/
structure Emits (c : Chunk) (e : Emission) (given : Option Nat) (c' : Chunk) : Prop where
  given : given = e.given c
  code : c'.code = c.code ++ (e.op.toByte :: e.operands c).toArray
  lines : c'.lines = c.lines.map (· ++ Array.replicate (1 + e.width) c.currentLine)
  currentLine : c'.currentLine = c.currentLine
  added : c'.constants = c.constants ++ e.added

namespace Emits

variable (h : c.Emits e given c')
include h

theorem size : c'.code.size = c.code.size + (1 + e.width) := by
  have hbytes : (e.op.toByte :: e.operands c).toArray.size = 1 + e.width := by
    rw [List.size_toArray, List.length_cons, e.length_operands, Nat.add_comm]
  rw [h.code, Array.size_append, hbytes]

theorem getElem? {i : Nat} (hi : i < c.code.size) : c'.code[i]? = c.code[i]? := by
  rw [h.code, Array.getElem?_append_left hi]

theorem opcode? : Code.opcode? c'.code c.code.size = some e.op := by
  have hfirst : c'.code[c.code.size]? = some e.op.toByte := by
    rw [h.code, Array.getElem?_append_right (Nat.le_refl _), Nat.sub_self]
    rfl
  exact (congrArg (Option.bind · Opcode.ofByte?) hfirst).trans e.op.ofByte?_toByte

end Emits

theorem emits_emitBytes {base : Chunk} (hcode : base.code = c.code) (hlines : base.lines = c.lines)
    (hline : base.currentLine = c.currentLine)
    (hconstants : base.constants = c.constants ++ e.added) :
    c.Emits e (e.given c) (base.emitBytes (e.op.toByte :: e.operands c)) := by
  refine ⟨rfl, ?_, ?_, (currentLine_emitBytes _ _).trans hline,
    (constants_emitBytes _ _).trans hconstants⟩
  · rw [code_emitBytes, hcode]
  · rw [lines_emitBytes, hlines, hline, List.length_cons, e.length_operands, Nat.add_comm]

theorem emitBytes_cons (c : Chunk) (b : UInt8) (bytes : List UInt8) :
    c.emitBytes (b :: bytes) = (c.emitByte b).emitBytes bytes := rfl

theorem emitLoop?_eq (c : Chunk) (target : Nat) :
    c.emitLoop? target = if target ≤ c.code.size + 3 then
      some (c.emitBytes (Opcode.jumpBack.toByte ::
        Bytes.bytes16 (c.code.size + 3 - target).toUInt16)) else none := by
  have hsize : (c.emitOpcode .jumpBack).code.size = c.code.size + 1 := Array.size_push _
  unfold emitLoop?
  dsimp only
  rw [hsize]
  rfl

/-- What an emission writes. -/
theorem emits (h : c.emit? e = some (given, c')) : c.Emits e given c' := by
  cases e with
  | constant k =>
    cases h
    exact emits_emitBytes rfl rfl rfl rfl
  | named op name hop =>
    -- words stay folded here and below, or the kernel would compute them
    cases h
    unfold emitNamed emitOpcode emitWord32
    rw [← emitBytes_cons]
    exact emits_emitBytes rfl rfl rfl Array.append_empty.symm
  | method index name =>
    cases h
    unfold emitMethod emitOpcode emitWord32
    rw [← emitBytes_cons, ← emitBytes_cons]
    exact emits_emitBytes rfl rfl rfl Array.append_empty.symm
  | jump op hop =>
    cases h
    rw [emitJump_operand]
    unfold emitJump emitOpcode emitWord16
    rw [← emitBytes_cons]
    exact emits_emitBytes rfl rfl rfl Array.append_empty.symm
  | loop target =>
    obtain ⟨loop, hloop, hgiven⟩ := Option.map_eq_some_iff.1 h
    cases hgiven
    rw [emitLoop?_eq] at hloop
    split at hloop
    · cases hloop
      exact emits_emitBytes rfl rfl rfl Array.append_empty.symm
    · cases hloop
  | _ =>
    cases h
    exact emits_emitBytes rfl rfl rfl Array.append_empty.symm

/-- An emission succeeds, except for a loop to a target behind it. -/
theorem exists_emit? (c : Chunk) (e : Emission)
    (hloop : ∀ target, e = .loop target → target ≤ c.code.size + 3) :
    ∃ given c', c.emit? e = some (given, c') := by
  cases e with
  | loop target =>
    have hemitted := emitLoop?_eq c target
    rw [if_pos (hloop target rfl)] at hemitted
    exact ⟨none, _, congrArg (Option.map _) hemitted⟩
  | _ => exact ⟨_, _, rfl⟩

end Chunk
end ScriptVm
