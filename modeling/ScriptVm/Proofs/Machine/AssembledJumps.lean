import ScriptVm.Disassembly
import ScriptVm.Proofs.Bytes.Reading
import ScriptVm.Proofs.Machine.Landing

/-!
# Assembled jumps

The operand of a jump is a distance of sixteen bits with a sign. The assembler cuts a distance to
that width, so a jump leads where it was aimed as long as the distance is below 32768, and the
listing shows where it really leads.

* `toInt_toInt16_toUInt16_eq` is the range of distances that survive the cut.
* `Machine.StepsTo` says that a step succeeds and where it leaves the current call; `stepsTo_iff` is
  a jump that is taken, `step_of_outside` one that leads out of the code.
* `patchJump?_cases` is what filling in a distance changes.
* `assembled_jumps` is the result, about jumps patched, loops closed, and jumps listed.
-/

namespace ScriptVm

/-- A distance survives the cut to sixteen bits with a sign if it is below 32768. -/
theorem toInt_toInt16_toUInt16_eq {n : Nat} :
    n.toUInt16.toInt16.toInt = n ↔ n ≤ 32767 := by
  have hbmod : n.toUInt16.toInt16.toInt = (n : Int).bmod 65536 := by simp [Nat.toUInt16]
  rw [hbmod, Int.bmod_def]
  split <;> omega

/-- The opcode of a jump. -/
def Opcode.IsJump (op : Opcode) : Prop := op = .jump ∨ op = .jumpIfFalse ∨ op = .jumpBack

/-! ### Taking a jump -/

/-- A call stands before the instruction of three bytes that a chunk has at an offset, in code that
may go on behind the chunk and have other jumps of it patched. -/
structure Frame.StandsAt (f : Frame) (c : Chunk) (offset : Nat) : Prop where
  ip : f.ip = offset
  bytes : ∀ i < 3, f.code[offset + i]? = c.code[offset + i]?
  reaches : c.code.size ≤ f.code.size

namespace Machine

/-- A jump of the opcode is taken: if it depends on the value on top of the stack, that value counts
as false. -/
def Takes (m : Machine) (op : Opcode) : Prop :=
  op = .jumpIfFalse → ∃ v, m.thread.stack.back? = some v ∧ v.isFalsey m.env.memory.cells = true

/-- A step succeeds and leaves the current call at an offset. -/
def StepsTo (m : Machine) (executor : Exec Unit) (target : Nat) : Prop :=
  ∃ m' f, Exec.step executor m = .ok () m' ∧ m'.thread.frames.back? = some f ∧ f.ip = target

end Machine

namespace Exec

open Machine

variable {m : Machine} {f : Frame} {op : Opcode} {d : UInt16} {executor : Exec Unit}

/-- A jump that is taken moves the call to its target. -/
theorem step_jump (executor : Exec Unit) (hf : m.thread.frames.back? = some f)
    (hcode : f.code.size ≤ Code.maxSize) (hjump : op.IsJump)
    (hop : Code.opcode? f.code f.ip = some op) (hd : Code.half? f.code (f.ip + 1) = some d)
    (htakes : m.Takes op) : step executor m =
      moveTo (Disassembly.jumpTarget op f.ip d) (m.advanced f op (f.ip + 3)) := by
  have hf₁ := back?_advanced hf op (f.ip + 3)
  have hfits := Code.le_size_of_half? hd
  have hbounds := Instruction.distance_bounds d
  have hmoves {distance : Int} (hdistance : -32768 ≤ distance ∧ distance ≤ 32768) :
      jump distance (m.advanced f op (f.ip + 3)) =
        moveTo (f.ip + 3 + distance) (m.advanced f op (f.ip + 3)) :=
    jump_eq_moveTo hf₁ (by dsimp only; unfold Code.maxSize at hcode; omega)
  have hstep {i : Instruction}
      (hi : Instruction.decode? f.code (f.ip + 1) op = some (i, f.ip + 3)) :
      step executor m = perform executor i (m.advanced f op (f.ip + 3)) := by
    have hadvance := advance_eq hf hcode hop
    rw [hi] at hadvance
    rw [step_eq, bind_of_ok hadvance]
  have hdecode (g : UInt16 → Instruction) :
      Instruction.withHalf f.code (f.ip + 1) g = some (g d, f.ip + 3) := by
    unfold Instruction.withHalf
    rw [hd]
    rfl
  rcases hjump with rfl | rfl | rfl
  · rw [hstep (hdecode fun n => .jump n.toInt16.toInt)]
    exact hmoves hbounds.1
  · obtain ⟨v, hv, hfalsey⟩ := htakes rfl
    have hpeek : peek 0 (m.advanced f .jumpIfFalse (f.ip + 3)) =
        .ok v (m.advanced f .jumpIfFalse (f.ip + 3)) := by
      rw [Array.back?_eq_getElem?] at hv
      obtain ⟨hlt, -⟩ := Array.getElem?_eq_some_iff.1 hv
      exact peek_of_getElem? (by decide) (Nat.zero_lt_of_lt hlt) hv
    rw [hstep (hdecode fun n => .jumpIfFalse n.toInt16.toInt)]
    refine (bind_of_ok hpeek).trans ((bind_of_ok rfl).trans ?_)
    exact (congrFun (if_pos hfalsey) _).trans (hmoves hbounds.1)
  · rw [hstep (hdecode fun n => .jump (-n.toInt16.toInt))]
    exact hmoves hbounds.2

/-- A jump that is taken leads to its target and nowhere else. -/
theorem stepsTo_iff (hf : m.thread.frames.back? = some f) (hcode : f.code.size ≤ Code.maxSize)
    (hjump : op.IsJump) (hop : Code.opcode? f.code f.ip = some op)
    (hd : Code.half? f.code (f.ip + 1) = some d) (htakes : m.Takes op) {target : Nat}
    (htarget : target ≤ f.code.size) :
    m.StepsTo executor target ↔ target = Disassembly.jumpTarget op f.ip d := by
  have hf₁ := back?_advanced hf op (f.ip + 3)
  have hstep := step_jump executor hf hcode hjump hop hd htakes
  constructor
  · rintro ⟨m', g, hrun, hg, rfl⟩
    rw [hstep] at hrun
    obtain ⟨hle, rfl⟩ := moveTo_eq_ok hf₁ hrun
    rw [back?_mapFrame hf₁] at hg
    cases hg
    exact Int.toNat_of_nonneg hle
  · intro heq
    rw [← heq, moveTo_of_le hf₁ htarget] at hstep
    exact ⟨_, _, hstep, back?_mapFrame hf₁ _, rfl⟩

/-- A jump that is taken and leads out of the code is refused. -/
theorem step_of_outside (hf : m.thread.frames.back? = some f) (hcode : f.code.size ≤ Code.maxSize)
    (hjump : op.IsJump) (hop : Code.opcode? f.code f.ip = some op)
    (hd : Code.half? f.code (f.ip + 1) = some d) (htakes : m.Takes op) {target : Int}
    (htarget : target = Disassembly.jumpTarget op f.ip d)
    (hout : ¬ (0 ≤ target ∧ target ≤ f.code.size)) :
    ∃ m', step executor m = .error (.error (.ofCause (.jumpOutside target))) m' := by
  rw [step_jump executor hf hcode hjump hop hd htakes, ← htarget]
  exact ⟨_, moveTo_of_outside (back?_advanced hf op (f.ip + 3)) hout⟩

end Exec

/-! ### Emission -/

namespace Chunk

variable {c patched : Chunk} {operand : Nat}

theorem code_emitBytes (c : Chunk) (bytes : List UInt8) :
    (c.emitBytes bytes).code = c.code ++ bytes.toArray := by
  unfold emitBytes
  induction bytes generalizing c with
  | nil => simp
  | cons b rest ih =>
    rw [List.foldl_cons, ih]
    simp [emitByte]

theorem size_emitBytes (c : Chunk) (bytes : List UInt8) :
    (c.emitBytes bytes).code.size = c.code.size + bytes.length := by
  rw [code_emitBytes]
  exact Array.size_append

/-- What stands in a chunk is not changed by what is emitted behind it. -/
theorem opcode?_emitBytes (bytes : List UInt8) {offset : Nat} (hlt : offset < c.code.size) :
    (c.emitBytes bytes).opcode? offset = c.opcode? offset := by
  unfold opcode?
  rw [code_emitBytes, Array.getElem?_append_left hlt]

/-- An opcode and its operand of sixteen bits. -/
theorem code_emitWord16 (c : Chunk) (op : Opcode) (n : UInt16) :
    ((c.emitOpcode op).emitWord16 n).code =
      c.code ++ #[op.toByte, n.toUInt8, (n >>> 8).toUInt8] := by
  unfold emitWord16 emitOpcode
  rw [code_emitBytes]
  simp [emitByte, Bytes.bytes16]

theorem size_emitJump (c : Chunk) (op : Opcode) :
    (c.emitJump op).2.code.size = c.code.size + 3 := by
  show ((c.emitOpcode op).emitWord16 0xFFFF).code.size = _
  rw [code_emitWord16, Array.size_append]
  rfl

theorem emitJump_operand (c : Chunk) (op : Opcode) : (c.emitJump op).1 = c.code.size + 1 := by
  show (c.emitJump op).2.code.size - 2 = _
  rw [size_emitJump]
  rfl

/-- An opcode that was emitted with an operand of sixteen bits is read back with the operand. -/
theorem read_emitWord16 (c : Chunk) (op : Opcode) (n : UInt16) :
    Code.opcode? ((c.emitOpcode op).emitWord16 n).code c.code.size = some op ∧
      Code.half? ((c.emitOpcode op).emitWord16 n).code (c.code.size + 1) = some n := by
  have hread (i : Nat) : ((c.emitOpcode op).emitWord16 n).code[c.code.size + i]? =
      #[op.toByte, n.toUInt8, (n >>> 8).toUInt8][i]? := by
    rw [code_emitWord16, Array.getElem?_append_right (Nat.le_add_right _ _),
      Nat.add_sub_cancel_left]
  constructor
  · unfold Code.opcode? Code.byte?
    rw [show c.code.size = c.code.size + 0 from rfl, hread]
    exact op.ofByte?_toByte
  · unfold Code.half?
    rw [hread 1, show c.code.size + 1 + 1 = c.code.size + 2 from rfl, hread 2]
    exact congrArg some (Bytes.word16_bytes16 n)

/-- Where an operand stands, its two bytes are replaced by the distance from behind them to the end
of the chunk, and nothing else is changed. -/
theorem patchJump?_cases (hpatch : c.patchJump? operand = some patched) :
    patched = { c with code := patched.code } ∧ patched.code.size = c.code.size ∧
      Code.half? patched.code operand = some (c.code.size - operand - 2).toUInt16 ∧
      ∀ i, i ≠ operand → i ≠ operand + 1 → patched.code[i]? = c.code[i]? := by
  unfold patchJump? at hpatch
  split at hpatch
  · rename_i hle
    cases hpatch
    refine ⟨rfl, by simp, ?_, fun i hlow hhigh => ?_⟩
    · unfold Code.half?
      dsimp only
      rw [Array.getElem?_setIfInBounds_ne (Nat.succ_ne_self operand),
        Array.getElem?_setIfInBounds_self_of_lt (by omega),
        Array.getElem?_setIfInBounds_self_of_lt (by rw [Array.size_setIfInBounds]; omega)]
      exact congrArg some (Bytes.word16_bytes16 _)
    · dsimp only
      rw [Array.getElem?_setIfInBounds_ne hhigh.symm, Array.getElem?_setIfInBounds_ne hlow.symm]
  · cases hpatch

theorem patchJump?_of_le (hle : operand + 2 ≤ c.code.size) :
    ∃ patched, c.patchJump? operand = some patched :=
  ⟨_, if_pos hle⟩

end Chunk

namespace Frame

variable {f : Frame} {c : Chunk} {offset : Nat} {op : Opcode} {d : UInt16}

/-- What a chunk has at the position of a call is what the call executes. -/
theorem StandsAt.read (h : f.StandsAt c offset) (hop : Code.opcode? c.code offset = some op)
    (hd : Code.half? c.code (offset + 1) = some d) :
    Code.opcode? f.code f.ip = some op ∧ Code.half? f.code (f.ip + 1) = some d := by
  have hfirst := h.bytes 0 (by decide)
  have hsecond := h.bytes 1 (by decide)
  have hthird := h.bytes 2 (by decide)
  rw [h.ip]
  unfold Code.opcode? Code.byte? at hop ⊢
  unfold Code.half? at hd ⊢
  rw [Nat.add_zero] at hfirst
  rw [show offset + 1 + 1 = offset + 2 from rfl] at hd ⊢
  rw [hfirst, hsecond, hthird]
  exact ⟨hop, hd⟩

end Frame

namespace Disassembly

theorem jumpTarget_of_forward {op : Opcode} (hop : op = .jump ∨ op = .jumpIfFalse) (offset : Nat)
    (d : UInt16) : jumpTarget op offset d = offset + 3 + d.toInt16.toInt := by
  rcases hop with rfl | rfl <;> rfl

theorem jumpTarget_jumpBack (offset : Nat) (d : UInt16) :
    jumpTarget .jumpBack offset d = offset + 3 - d.toInt16.toInt := rfl

/-- The line of a complete jump ends with its target. -/
theorem instruction?_of_jump {c : Chunk} {offset : Nat} {op : Opcode} {d : UInt16} (names : Names)
    (hjump : op.IsJump) (hop : Code.opcode? c.code offset = some op)
    (hd : Code.half? c.code (offset + 1) = some d) :
    ∃ front, instruction? names c offset =
      some (front ++ " -> " ++ toString (jumpTarget op offset d) ++ "\n", offset + 3) := by
  have hfits := Code.le_size_of_half? hd
  have hsize : Code.instructionSize? c.code offset = some 3 := by
    rw [Code.instructionSize?_eq, hop]
    rcases hjump with rfl | rfl | rfl <;> exact if_pos (by omega)
  have htext : operandText names c offset op =
      Text.natColumn 9 offset ++ " -> " ++ toString (jumpTarget op offset d) := by
    have hhalf : (Code.half? c.code (offset + 1)).getD 0 = d := by rw [hd, Option.getD_some]
    rw [← hhalf]
    rcases hjump with rfl | rfl | rfl <;> rfl
  obtain ⟨byte, hbyte, hop⟩ := Option.bind_eq_some_iff.1 hop
  unfold instruction?
  rw [show c.code[offset]? = some byte from hbyte, Option.map_some, hop]
  dsimp only
  rw [hsize, htext]
  refine ⟨Text.padLeft '0' 4 (toString offset) ++ " " ++ lineColumn c offset ++
    Text.padRight ' ' 16 op.name ++ " " ++ Text.natColumn 9 offset, ?_⟩
  simp only [String.append_assoc]

end Disassembly

namespace Machine

open Exec

variable {m : Machine} {f : Frame} {c c' patched : Chunk} {executor : Exec Unit}

/-- A jump that was patched behind `n` bytes leads to the end of the chunk if these are few. -/
theorem stepsTo_patched_iff {op : Opcode} {n : Nat} (hf : m.thread.frames.back? = some f)
    (hcode : f.code.size ≤ Code.maxSize) (hop : op = .jump ∨ op = .jumpIfFalse)
    (hsize : c'.code.size = c.code.size + 3 + n) (hstands : c'.opcode? c.code.size = some op)
    (hpatch : c'.patchJump? (c.code.size + 1) = some patched) (hat : f.StandsAt patched c.code.size)
    (htakes : m.Takes op) : m.StepsTo executor patched.code.size ↔ n ≤ 32767 := by
  obtain ⟨-, hlength, hhalf, hrest⟩ := Chunk.patchJump?_cases hpatch
  have hbody : c'.code.size - (c.code.size + 1) - 2 = n := by omega
  have hopcode : Code.opcode? patched.code c.code.size = some op := by
    have hsame := hrest c.code.size (by omega) (by omega)
    exact (congrArg (Option.bind · Opcode.ofByte?) hsame).trans hstands
  have hjump : op.IsJump := hop.elim .inl fun h => .inr (.inl h)
  rw [hbody] at hhalf
  obtain ⟨hopcode, hhalf⟩ := hat.read hopcode hhalf
  rw [stepsTo_iff hf hcode hjump hopcode hhalf htakes hat.reaches,
    Disassembly.jumpTarget_of_forward hop, hat.ip, hlength, hsize, ← toInt_toInt16_toUInt16_eq]
  omega

/-- A loop leads to where it was aimed, if that is near enough. -/
theorem stepsTo_loop_iff {target : Nat} (hf : m.thread.frames.back? = some f)
    (hcode : f.code.size ≤ Code.maxSize) (hle : target ≤ c.code.size)
    (hloop : c.emitLoop? target = some c') (hat : f.StandsAt c' c.code.size) :
    m.StepsTo executor target ↔ c.code.size + 3 - target ≤ 32767 := by
  have hopened : (c.emitOpcode .jumpBack).code.size = c.code.size + 1 := Array.size_push _
  have hdistance : (c.emitOpcode .jumpBack).code.size + 2 - target = c.code.size + 3 - target := by
    omega
  have hemitted : c.emitLoop? target =
      some ((c.emitOpcode .jumpBack).emitWord16 (c.code.size + 3 - target).toUInt16) := by
    rw [← hdistance]
    exact if_pos (by omega)
  cases hemitted.symm.trans hloop
  obtain ⟨hopcode, hhalf⟩ := c.read_emitWord16 .jumpBack (c.code.size + 3 - target).toUInt16
  obtain ⟨hopcode, hhalf⟩ := hat.read hopcode hhalf
  have htarget : target ≤ f.code.size := by
    have hreaches := hat.reaches
    rw [Chunk.code_emitWord16, Array.size_append] at hreaches
    omega
  rw [stepsTo_iff hf hcode (.inr (.inr rfl)) hopcode hhalf nofun htarget,
    Disassembly.jumpTarget_jumpBack, hat.ip, ← toInt_toInt16_toUInt16_eq]
  omega

/-- **Assembled jumps.** A patched jump leads to the end of the chunk, and a loop to its target, if
and only if the distance is at most 32767; listings show where jumps go. -/
theorem assembled_jumps (executor : Exec Unit) :
    (∀ (c c' : Chunk) (op : Opcode) (n : Nat), op = .jump ∨ op = .jumpIfFalse →
      c'.code.size = (c.emitJump op).2.code.size + n →
      c'.opcode? c.code.size = (c.emitJump op).2.opcode? c.code.size →
      ∃ patched, c'.patchJump? (c.emitJump op).1 = some patched ∧
        ∀ (m : Machine) (f : Frame), m.thread.frames.back? = some f → f.code.size ≤ Code.maxSize →
          f.StandsAt patched c.code.size → m.Takes op →
            (m.StepsTo executor patched.code.size ↔ n ≤ 32767)) ∧
    (∀ (c : Chunk) (target : Nat), target ≤ c.code.size →
      ∃ c', c.emitLoop? target = some c' ∧
        ∀ (m : Machine) (f : Frame), m.thread.frames.back? = some f → f.code.size ≤ Code.maxSize →
          f.StandsAt c' c.code.size →
            (m.StepsTo executor target ↔ c.code.size + 3 - target ≤ 32767)) ∧
    (∀ (c patched : Chunk) (operand : Nat), c.patchJump? operand = some patched →
      patched = { c with code := patched.code } ∧ patched.code.size = c.code.size ∧
        ∀ i, i ≠ operand → i ≠ operand + 1 → patched.code[i]? = c.code[i]?) ∧
    ∀ (names : Disassembly.Names) (c : Chunk) (offset : Nat) (op : Opcode), op.IsJump →
      c.opcode? offset = some op → offset + 3 ≤ c.code.size →
      ∃ (front : String) (target : Int),
        Disassembly.instruction? names c offset =
          some (front ++ " -> " ++ toString target ++ "\n", offset + 3) ∧
        ∀ (m : Machine) (f : Frame), m.thread.frames.back? = some f → f.code = c.code →
          f.ip = offset → c.code.size ≤ Code.maxSize → m.Takes op →
            (0 ≤ target ∧ target ≤ c.code.size → m.StepsTo executor target.toNat) ∧
            (¬ (0 ≤ target ∧ target ≤ c.code.size) →
              ∃ m', step executor m = .error (.error (.ofCause (.jumpOutside target))) m') := by
  refine ⟨fun c c' op n hop hsize hstands => ?_, fun c target hle => ?_,
    fun c patched operand hpatch => ?_, fun names c offset op hjump hop hfits => ?_⟩
  · rw [Chunk.size_emitJump] at hsize
    rw [Chunk.emitJump_operand]
    have hstands' := hstands.trans (c.read_emitWord16 op 0xFFFF).1
    obtain ⟨patched, hpatch⟩ :=
      Chunk.patchJump?_of_le (show c.code.size + 1 + 2 ≤ c'.code.size by omega)
    exact ⟨patched, hpatch, fun m f hf hcode hat htakes =>
      stepsTo_patched_iff hf hcode hop hsize hstands' hpatch hat htakes⟩
  · have hopened : (c.emitOpcode .jumpBack).code.size = c.code.size + 1 := Array.size_push _
    have hloop : c.emitLoop? target = some _ := if_pos (by omega)
    exact ⟨_, hloop, fun m f hf hcode hat => stepsTo_loop_iff hf hcode hle hloop hat⟩
  · obtain ⟨hsame, hsize, -, hrest⟩ := Chunk.patchJump?_cases hpatch
    exact ⟨hsame, hsize, hrest⟩
  · obtain ⟨d, hd⟩ := Code.exists_half? (show offset + 1 + 2 ≤ c.code.size by omega)
    obtain ⟨front, hline⟩ := Disassembly.instruction?_of_jump names hjump hop hd
    refine ⟨front, _, hline, fun m f hf hcode hip hmax htakes => ?_⟩
    have hopcode : Code.opcode? f.code f.ip = some op := by rwa [hcode, hip]
    have hhalf : Code.half? f.code (f.ip + 1) = some d := by rwa [hcode, hip]
    rw [← hcode] at hmax ⊢
    rw [← hip]
    refine ⟨fun hrange => ?_, step_of_outside hf hmax hjump hopcode hhalf htakes rfl⟩
    refine (stepsTo_iff hf hmax hjump hopcode hhalf htakes (by omega)).2 ?_
    exact Int.toNat_of_nonneg hrange.1

/-- A jump over 32768 bytes does not lead behind them. A loop to its own start goes there, and the
listing shows where it goes. -/
theorem assembled_jumps_far_and_near :
    let far := ((Chunk.empty false).emitJump .jump).2.emitBytes (List.replicate 32768 0)
    (∃ patched, far.patchJump? 1 = some patched ∧
      ¬ (inCode patched.code).StepsTo (execute 0) patched.code.size) ∧
    ∃ loop, (Chunk.empty false).emitLoop? 0 = some loop ∧
      (inCode loop.code).StepsTo (execute 0) 0 ∧
      ∃ (front : String) (target : Int), Disassembly.instruction? none loop 0 =
          some (front ++ " -> " ++ toString target ++ "\n", 3) ∧
        (0 ≤ target ∧ target ≤ 3 → (inCode loop.code).StepsTo (execute 0) target.toNat) := by
  -- only the length of the body matters, and its bytes are not to be looked at
  obtain ⟨body, hbody, hlength⟩ :
      ∃ body : List UInt8, List.replicate 32768 0 = body ∧ body.length = 32768 :=
    ⟨_, rfl, List.length_replicate⟩
  rw [hbody]
  intro far
  obtain ⟨hpatched, hloop, -, hlisted⟩ := assembled_jumps (execute 0)
  have hsize : far.code.size = ((Chunk.empty false).emitJump .jump).2.code.size + 32768 :=
    hlength ▸ Chunk.size_emitBytes _ body
  have hstands : far.opcode? (Chunk.empty false).code.size =
      ((Chunk.empty false).emitJump .jump).2.opcode? (Chunk.empty false).code.size := by
    refine Chunk.opcode?_emitBytes body ?_
    rw [Chunk.size_emitJump]
    omega
  refine ⟨?_, ?_⟩
  · obtain ⟨patched, hpatch, hleads⟩ :=
      hpatched (.empty false) far .jump 32768 (.inl rfl) hsize hstands
    have hmax : patched.code.size ≤ Code.maxSize := by
      rw [(Chunk.patchJump?_cases hpatch).2.1, hsize, Chunk.size_emitJump]
      decide
    have hlong := hleads (inCode patched.code) _ rfl hmax ⟨rfl, fun _ _ => rfl, Nat.le_refl _⟩ nofun
    exact ⟨patched, hpatch, fun h => absurd (hlong.1 h) (by decide)⟩
  · obtain ⟨loop, hemit, hleads⟩ := hloop (.empty false) 0 (Nat.le_refl 0)
    have hop : loop.opcode? 0 = some .jumpBack := by
      cases hemit
      rfl
    have hthree : loop.code.size = 3 := by
      cases hemit
      rfl
    have hmax : loop.code.size ≤ Code.maxSize := by
      rw [hthree]
      decide
    have hnear := hleads (inCode loop.code) _ rfl hmax ⟨rfl, fun _ _ => rfl, Nat.le_refl _⟩
    obtain ⟨front, target, hline, hgoes⟩ := hlisted none loop 0 .jumpBack (.inr (.inr rfl)) hop
      (Nat.le_of_eq hthree.symm)
    obtain ⟨hshown, -⟩ := hgoes (inCode loop.code) _ rfl rfl rfl hmax nofun
    rw [hthree] at hshown
    exact ⟨loop, hemit, hnear.2 (by decide), front, target, hline, hshown⟩

end Machine
end ScriptVm
