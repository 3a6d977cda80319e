import ScriptVm.Proofs.Chunk.Emissions
import ScriptVm.Proofs.Disassembly.Coverage

/-!
# Assembled code

Code that was emitted instruction by instruction is read instruction by instruction. Jumps that
are patched later rewrite bytes in the middle of the code, and so it matters that these belong
to the jump.

* `Code.walk` goes through code by the sizes of instructions.
* `Chunk.Assembled` are the chunks that calls make from an empty one, with the instructions that
  were emitted and the line set last.
* `Contiguous` says that instructions stand one behind the other. `Contiguous.walk_eq` is a walk
  over them; `Contiguous.congr` and `Contiguous.apart` carry them over a patch.
* `Records` is what each call keeps; `Records.emit` and `Records.patch` are the steps with
  an argument.
* `Chunk.assembled_instructions` is the result.
-/

namespace ScriptVm

namespace Code

variable {code code' : Array UInt8} {offset size : Nat}

/-- Goes from instruction to instruction by their sizes: the offsets visited, and the first one
where no complete instruction stands. -/
def walk (code : Array UInt8) (offset : Nat) : List Nat × Nat :=
  match _ : instructionSize? code offset with
  | some size =>
    let (visited, stop) := walk code (offset + size)
    (offset :: visited, stop)
  | none => ([], offset)
termination_by code.size - offset
decreasing_by
  obtain ⟨op, -, hextent, hle⟩ := instructionSize?_eq_some ‹_›
  have hpos := Disassembly.extent_pos hextent
  omega

theorem walk_of_some (hsize : instructionSize? code offset = some size) :
    walk code offset =
      (offset :: (walk code (offset + size)).1, (walk code (offset + size)).2) := by
  rw [walk]
  split
  · rename_i size' hsize'
    cases hsize.symm.trans hsize'
    rfl
  · rename_i hnone
    cases hsize.symm.trans hnone

theorem walk_size (code : Array UInt8) : walk code code.size = ([], code.size) := by
  have hnone : instructionSize? code code.size = none := by
    unfold instructionSize?
    rw [Array.getElem?_eq_none (Nat.le_refl code.size)]
    rfl
  rw [walk]
  split
  · rename_i size hsize
    cases hnone.symm.trans hsize
  · rfl

/-- An opcode of fixed width and its operands make a complete instruction. -/
theorem instructionSize?_of_width {op : Opcode} {width : Nat} (hop : opcode? code offset = some op)
    (hwidth : op.operandWidth? = some width) (hle : offset + (1 + width) ≤ code.size) :
    instructionSize? code offset = some (1 + width) := by
  have hextent : extent? code offset op = some (1 + width) := by
    unfold extent?
    split
    · cases hwidth
    · rw [hwidth]
      rfl
  rw [instructionSize?_eq, hop, Option.bind_some, hextent, Option.bind_some, if_pos hle]

theorem opcode?_congr (hsame : code'[offset]? = code[offset]?) :
    opcode? code' offset = opcode? code offset :=
  congrArg (Option.bind · Opcode.ofByte?) hsame

theorem word?_congr (hsame : ∀ i < 4, code'[offset + i]? = code[offset + i]?) :
    word? code' offset = word? code offset := by
  unfold word?
  rw [hsame 1 (by decide), hsame 2 (by decide), hsame 3 (by decide)]
  rw [show code'[offset]? = code[offset]? from hsame 0 (by decide)]

/-- A word behind an opcode at the end is read back. -/
theorem word?_append (code : Array UInt8) (first : UInt8) (n : UInt32) :
    word? (code ++ (first :: Bytes.bytes32 n).toArray) (code.size + 1) = some n := by
  have hread (i : Nat) : (code ++ (first :: Bytes.bytes32 n).toArray)[code.size + i]? =
      (first :: Bytes.bytes32 n)[i]? := by
    rw [Array.getElem?_append_right (Nat.le_add_right _ _), Nat.add_sub_cancel_left]
    exact List.getElem?_toArray
  unfold word?
  rw [hread 1, show code.size + 1 + 1 = code.size + 2 from rfl, hread 2,
    show code.size + 1 + 2 = code.size + 3 from rfl, hread 3,
    show code.size + 1 + 3 = code.size + 4 from rfl, hread 4]
  exact congrArg some (Bytes.word32_bytes32 n)

end Code

namespace Chunk

/-! ### Assembled chunks -/

/-- An instruction that was emitted: the call and what it returned, where the code ended before it
and behind it, and the line set then. -/
structure Emitted where
  emission : Emission
  given : Option Nat
  start : Nat
  stop : Nat
  line : Int32

/-- The chunks that calls make from an empty one, with a line table if `tracked`; the instructions
emitted so far, in order; and the line set last. -/
inductive Assembled (tracked : Bool) : Chunk → List Emitted → Int32 → Prop
  | empty : Assembled tracked (.empty tracked) [] 0
  | emit {c c' : Chunk} {past : List Emitted} {line : Int32} {e : Emission} {given : Option Nat}
      (h : Assembled tracked c past line) (hemit : c.emit? e = some (given, c')) :
      Assembled tracked c' (past ++ [⟨e, given, c.code.size, c'.code.size, line⟩]) line
  | setLine {c : Chunk} {past : List Emitted} {line : Int32} (n : Int32)
      (h : Assembled tracked c past line) : Assembled tracked (c.setLine n) past n
  | addConstant {c : Chunk} {past : List Emitted} {line : Int32} (k : Constant)
      (h : Assembled tracked c past line) : Assembled tracked (c.addConstant k).2 past line
  | patch {c c' : Chunk} {past : List Emitted} {line : Int32} {j : Emitted}
      (h : Assembled tracked c past line) (hj : j ∈ past) (hjump : j.emission.IsJump)
      (hpatch : c.patchJump? (j.start + 1) = some c') : Assembled tracked c' past line

/-- Code has the instruction where it was emitted. -/
structure Emitted.StandsIn (e : Emitted) (code : Array UInt8) : Prop where
  opcode : Code.opcode? code e.start = some e.emission.op
  extent : e.stop = e.start + (1 + e.emission.width)

theorem Emitted.StandsIn.stop_eq {e : Emitted} {code : Array UInt8} (h : e.StandsIn code)
    {width : Nat} (hwidth : e.emission.width = width) : e.stop = e.start + (1 + width) :=
  hwidth ▸ h.extent

/-- The instructions stand one behind the other, from an offset to another one. -/
inductive Contiguous (code : Array UInt8) : Nat → List Emitted → Nat → Prop
  | nil (stop : Nat) : Contiguous code stop [] stop
  | cons {e : Emitted} {rest : List Emitted} {stop : Nat} (he : e.StandsIn code)
    (hrest : Contiguous code e.stop rest stop) : Contiguous code e.start (e :: rest) stop

namespace Contiguous

variable {code code' : Array UInt8} {start stop : Nat} {past : List Emitted} {e j : Emitted}

theorem concat (h : Contiguous code start past e.start) (he : e.StandsIn code) :
    Contiguous code start (past ++ [e]) e.stop := by
  generalize hend : e.start = stop at h
  induction h with
  | nil stop =>
    subst hend
    exact cons he (nil e.stop)
  | cons hfirst _ ih => exact cons hfirst (ih hend)

/-- Only the opcodes matter. -/
theorem congr (h : Contiguous code start past stop)
    (hsame : ∀ e ∈ past, code'[e.start]? = code[e.start]?) : Contiguous code' start past stop := by
  induction h with
  | nil stop => exact nil stop
  | cons he _ ih =>
    obtain ⟨hfirst, hrest⟩ := List.forall_mem_cons.1 hsame
    exact cons ⟨(Code.opcode?_congr hfirst).trans he.opcode, he.extent⟩ (ih hrest)

theorem standsIn (h : Contiguous code start past stop) (he : e ∈ past) : e.StandsIn code := by
  induction h with
  | nil => cases he
  | cons hfirst _ ih =>
    rcases List.mem_cons.1 he with rfl | hrest
    · exact hfirst
    · exact ih hrest

theorem le (h : Contiguous code start past stop) : start ≤ stop := by
  induction h with
  | nil stop => exact Nat.le_refl stop
  | cons he _ ih =>
    have hextent := he.extent
    omega

theorem bounds (h : Contiguous code start past stop) (he : e ∈ past) :
    start ≤ e.start ∧ e.start < e.stop ∧ e.stop ≤ stop := by
  induction h with
  | nil => cases he
  | cons hfirst hrest ih =>
    have hextent := hfirst.extent
    rcases List.mem_cons.1 he with rfl | hmem
    · have hle := hrest.le
      omega
    · have hbounds := ih hmem
      omega

/-- Two instructions do not overlap. -/
theorem apart (h : Contiguous code start past stop) (he : e ∈ past) (hj : j ∈ past) :
    e = j ∨ e.stop ≤ j.start ∨ j.stop ≤ e.start := by
  induction h with
  | nil => cases he
  | cons _ hrest ih =>
    rcases List.mem_cons.1 he with rfl | hbehind
    · rcases List.mem_cons.1 hj with rfl | hbehind
      · exact .inl rfl
      · exact .inr (.inl (hrest.bounds hbehind).1)
    · rcases List.mem_cons.1 hj with rfl | hbehind'
      · exact .inr (.inr (hrest.bounds hbehind).1)
      · exact ih hbehind hbehind'

/-- Every byte belongs to an instruction. -/
theorem covers (h : Contiguous code start past stop) {i : Nat} (hstart : start ≤ i)
    (hstop : i < stop) :
    ∃ e ∈ past, e.start ≤ i ∧ i < e.stop := by
  induction h with
  | nil stop => omega
  | @cons e _ _ _ _ ih =>
    rcases Nat.lt_or_ge i e.stop with hin | hbehind
    · exact ⟨e, List.mem_cons_self, hstart, hin⟩
    · obtain ⟨e', he', hcovers⟩ := ih hbehind hstop
      exact ⟨e', List.mem_cons_of_mem _ he', hcovers⟩

/-- A walk visits the instructions and nothing else, and ends behind them. -/
theorem walk_eq (h : Contiguous code start past code.size) :
    Code.walk code start = (past.map (·.start), code.size) := by
  generalize hend : code.size = stop at h
  induction h with
  | nil stop =>
    subst hend
    exact Code.walk_size code
  | @cons e rest stop he hrest ih =>
    have hextent := he.extent
    have hle := hrest.le
    have hsize : Code.instructionSize? code e.start = some (1 + e.emission.width) :=
      Code.instructionSize?_of_width he.opcode e.emission.operandWidth?_op (by omega)
    rw [Code.walk_of_some hsize, ← hextent, ih hend]
    rfl

end Contiguous

/-! ### What stays true -/

variable {c c' : Chunk} {e : Emission} {given : Option Nat} {tracked : Bool} {past : List Emitted}
  {line : Int32}

/-- The operand is the index of a constant, and the call returned that index. -/
structure Emitted.Loads (e : Emitted) (code : Array UInt8) (constants : Array Constant)
    (index : Nat) (k : Constant) : Prop where
  given : e.given = some index.toUInt32.toNat
  word : Code.word? code (e.start + 1) = some index.toUInt32
  constant : constants[index]? = some k

/-- An operand that is kept loads the same constant, also if others are added to the pool. -/
theorem Emitted.Loads.congr {e : Emitted} {code code' : Array UInt8}
    {constants constants' : Array Constant} {index : Nat} {k : Constant}
    (h : e.Loads code constants index k)
    (hcode : ∀ i < 4, code'[e.start + 1 + i]? = code[e.start + 1 + i]?)
    (hconstants : ∀ i < constants.size, constants'[i]? = constants[i]?) :
    e.Loads code' constants' index k := by
  obtain ⟨hlt, -⟩ := Array.getElem?_eq_some_iff.1 h.constant
  exact ⟨h.given, (Code.word?_congr hcode).trans h.word, (hconstants index hlt).trans h.constant⟩

/-- What holds of a chunk, the instructions emitted on it and the line set last. -/
structure Records (tracked : Bool) (c : Chunk) (past : List Emitted) (line : Int32) : Prop where
  contiguous : Contiguous c.code 0 past c.code.size
  jumps : ∀ j ∈ past, ∀ op hop, j.emission = .jump op hop → j.given = some (j.start + 1)
  loads : ∀ e ∈ past, ∀ k, e.emission = .constant k → ∃ index, e.Loads c.code c.constants index k
  currentLine : c.currentLine = line
  isSome_lines : c.lines.isSome = tracked
  lines : ∀ table, c.lines = some table → table.size = c.code.size ∧
    ∀ e ∈ past, ∀ i, e.start ≤ i → i < e.stop → table[i]? = some e.line

theorem records_empty (tracked : Bool) : Records tracked (.empty tracked) [] 0 where
  contiguous := .nil 0
  jumps := List.forall_mem_nil _
  loads := List.forall_mem_nil _
  currentLine := rfl
  isSome_lines := by cases tracked <;> rfl
  lines table htable := by
    cases tracked with
    | false => cases htable
    | true =>
      cases htable
      exact ⟨rfl, List.forall_mem_nil _⟩

/-- What stood in the chunk still stands there, and the new instruction stands behind it. -/
theorem Records.emit (h : Records tracked c past line) (hemit : c.emit? e = some (given, c')) :
    Records tracked c' (past ++ [⟨e, given, c.code.size, c'.code.size, line⟩]) line := by
  have hemits := emits hemit
  refine ⟨?contiguous, ?jumps, ?loads, hemits.currentLine.trans h.currentLine, ?isSome, ?lines⟩
  case contiguous =>
    refine Contiguous.concat (h.contiguous.congr fun e' he' => hemits.getElem? ?_)
      ⟨hemits.opcode?, hemits.size⟩
    have hbounds := h.contiguous.bounds he'
    omega
  case jumps =>
    refine List.forall_mem_append.2 ⟨h.jumps, List.forall_mem_singleton.2 ?_⟩
    rintro op hop rfl
    exact hemits.given
  case loads =>
    refine List.forall_mem_append.2 ⟨fun e' he' k hk => ?_, List.forall_mem_singleton.2 ?_⟩
    · obtain ⟨index, hloads⟩ := h.loads e' he' k hk
      have hbounds := h.contiguous.bounds he'
      have hextent : e'.stop = e'.start + (1 + 4) :=
        (h.contiguous.standsIn he').stop_eq (congrArg Emission.width hk)
      refine ⟨index, hloads.congr (fun i hi => hemits.getElem? (by omega)) fun i hi => ?_⟩
      rw [hemits.added, Array.getElem?_append_left hi]
    · rintro k rfl
      refine ⟨c.constants.size, hemits.given, ?_, ?_⟩
      · rw [hemits.code]
        exact Code.word?_append c.code _ _
      · rw [hemits.added]
        exact Array.getElem?_push_size
  case isSome => rw [hemits.lines, Option.isSome_map, h.isSome_lines]
  case lines =>
    intro table' htable'
    rw [hemits.lines] at htable'
    obtain ⟨table, htable, rfl⟩ := Option.map_eq_some_iff.1 htable'
    obtain ⟨hsize, hentries⟩ := h.lines table htable
    have hsize' := hemits.size
    refine ⟨?_, List.forall_mem_append.2 ⟨fun e' he' i hlow hhigh => ?_,
      List.forall_mem_singleton.2 fun i hlow hhigh => ?_⟩⟩
    · rw [Array.size_append, Array.size_replicate, hsize, hsize']
    · have hbounds := h.contiguous.bounds he'
      rw [Array.getElem?_append_left (by omega)]
      exact hentries e' he' i hlow hhigh
    · dsimp only at hlow hhigh
      rw [Array.getElem?_append_right (by omega), Array.getElem?_replicate, if_pos (by omega),
        h.currentLine]

theorem Records.setLine (h : Records tracked c past line) (n : Int32) :
    Records tracked (c.setLine n) past n :=
  { h with currentLine := rfl }

theorem Records.addConstant (h : Records tracked c past line) (k : Constant) :
    Records tracked (c.addConstant k).2 past line :=
  { h with
    loads := fun e he k' hk => by
      obtain ⟨index, hloads⟩ := h.loads e he k' hk
      refine ⟨index, hloads.congr (fun _ _ => rfl) fun i hi => ?_⟩
      show (c.constants.push k)[i]? = c.constants[i]?
      rw [Array.getElem?_push, if_neg (Nat.ne_of_lt hi)] }

/-- Patching a jump changes its operand; all opcodes and the operands of other instructions stay. -/
theorem Records.patch {j : Emitted} (h : Records tracked c past line) (hj : j ∈ past)
    (hjump : j.emission.IsJump) (hpatch : c.patchJump? (j.start + 1) = some c') :
    Records tracked c' past line := by
  obtain ⟨hsame, hsize, -, hrest⟩ := patchJump?_cases hpatch
  have hlines : c'.lines = c.lines := by rw [hsame]
  have hconstants : c'.constants = c.constants := by rw [hsame]
  have hextent : j.stop = j.start + (1 + 2) :=
    (h.contiguous.standsIn hj).stop_eq (Emission.width_of_isJump hjump)
  have hline : c'.currentLine = c.currentLine := by rw [hsame]
  refine ⟨?contiguous, h.jumps, ?loads, hline.trans h.currentLine, hlines ▸ h.isSome_lines, ?lines⟩
  case contiguous =>
    rw [hsize]
    refine h.contiguous.congr fun e he => ?_
    -- the bytes that change lie inside `j`, and `e` starts with `j` or elsewhere
    have hextent' := (h.contiguous.standsIn he).extent
    have hapart := (h.contiguous.apart he hj).imp_left (congrArg Emitted.start)
    exact hrest e.start (by omega) (by omega)
  case loads =>
    intro e he k hk
    obtain ⟨index, hloads⟩ := h.loads e he k hk
    have hextent' : e.stop = e.start + (1 + 4) :=
      (h.contiguous.standsIn he).stop_eq (congrArg Emission.width hk)
    rcases h.contiguous.apart he hj with rfl | hapart
    · rw [hk] at hjump
      exact hjump.elim
    · exact ⟨index, hloads.congr (fun i hi => hrest _ (by omega) (by omega))
        fun i _ => congrArg (·[i]?) hconstants⟩
  case lines =>
    rw [hlines, hsize]
    exact h.lines

theorem Assembled.records (h : Assembled tracked c past line) : Records tracked c past line := by
  induction h with
  | empty => exact records_empty tracked
  | emit _ hemit ih => exact ih.emit hemit
  | setLine n _ ih => exact ih.setLine n
  | addConstant k _ ih => exact ih.addConstant k
  | patch _ hj hjump hpatch ih => exact ih.patch hj hjump hpatch

/-- **Assembled instructions.** A walk visits what was emitted on an empty chunk in order, with
operands, constants and lines, and no call fails but a loop to what is ahead. -/
theorem assembled_instructions (h : Assembled tracked c past line) :
    Code.walk c.code 0 = (past.map (·.start), c.code.size) ∧
    (∀ e ∈ past, Code.opcode? c.code e.start = some e.emission.op) ∧
    (c.constants.size ≤ 2 ^ 32 → ∀ e ∈ past, ∀ k, e.emission = .constant k →
      ∃ index : UInt32, e.given = some index.toNat ∧
        Code.word? c.code (e.start + 1) = some index ∧ c.constants[index.toNat]? = some k) ∧
    (∀ i < c.code.size, ∃ e ∈ past, e.start ≤ i ∧ i < e.stop) ∧
    c.lines.isSome = tracked ∧
    (∀ table, c.lines = some table → table.size = c.code.size ∧
      ∀ e ∈ past, ∀ i, e.start ≤ i → i < e.stop → table[i]? = some e.line) ∧
    (∀ j ∈ past, j.emission.IsJump → ∃ c', c.patchJump? (j.start + 1) = some c') ∧
    (∀ j ∈ past, ∀ op hop, j.emission = .jump op hop → j.given = some (j.start + 1)) ∧
    ∀ e, (∀ target, e = .loop target → target ≤ c.code.size + 3) →
      ∃ given c', c.emit? e = some (given, c') := by
  have hr := h.records
  refine ⟨hr.contiguous.walk_eq, fun e he => (hr.contiguous.standsIn he).opcode, ?loads,
    fun i hi => hr.contiguous.covers (Nat.zero_le i) hi, hr.isSome_lines, hr.lines, ?patch,
    hr.jumps, c.exists_emit?⟩
  case loads =>
    intro hfits e he k hk
    obtain ⟨index, hgiven, hword, hconstant⟩ := hr.loads e he k hk
    obtain ⟨hlt, -⟩ := Array.getElem?_eq_some_iff.1 hconstant
    have hindex : index.toUInt32.toNat = index :=
      Nat.mod_eq_of_lt (Nat.lt_of_lt_of_le hlt hfits)
    exact ⟨index.toUInt32, hgiven, hword, by rw [hindex, hconstant]⟩
  case patch =>
    intro j hj hjump
    have hextent := (hr.contiguous.standsIn hj).stop_eq (Emission.width_of_isJump hjump)
    have hbounds := hr.contiguous.bounds hj
    exact patchJump?_of_le (by omega)

/-- A jump over the load of a constant is patched before a loop to the start is emitted; another
constant and another line come in between. -/
theorem assembled_instructions_patched :
    let c : Chunk :=
      { code := #[1, 0, 0, 0, 0, 18, 5, 0, 1, 2, 0, 0, 0, 19, 16, 0]
        lines := some #[3, 3, 3, 3, 3, 3, 3, 3, 4, 4, 4, 4, 4, 4, 4, 4]
        constants := #[.string "x", .integer 9, .integer 7]
        currentLine := 4 }
    let load : Emitted := ⟨.constant (.integer 7), some 2, 8, 13, 4⟩
    let past : List Emitted := [⟨.constant (.string "x"), some 0, 0, 5, 3⟩,
      ⟨.jump .jumpIfFalse rfl, some 6, 5, 8, 3⟩, load, ⟨.loop 0, none, 13, 16, 4⟩]
    Assembled true c past 4 ∧ Code.walk c.code 0 = ([0, 5, 8, 13], 16) ∧
      (c.constants.size ≤ 2 ^ 32 ∧ ∃ index : UInt32, Code.word? c.code 9 = some index ∧
        c.constants[index.toNat]? = some (.integer 7)) ∧
      ∃ table, c.lines = some table ∧ table.size = 16 ∧ table[12]? = some 4 := by
  intro c load past
  have hempty : Assembled true (.empty true) [] 0 := .empty
  have hfirst := Assembled.emit (e := .constant (.string "x")) (.setLine 3 hempty) rfl
  have hjump := Assembled.emit (e := .jump .jumpIfFalse rfl) hfirst rfl
  have hload := Assembled.emit (e := .constant (.integer 7))
    (.setLine 4 (.addConstant (.integer 9) hjump)) rfl
  -- when the jump is patched, the loop is still missing
  have hmem : ⟨.jump .jumpIfFalse rfl, some 6, 5, 8, 3⟩ ∈ past.take 3 := .tail _ (.head _)
  have hlast : Assembled true c past 4 :=
    .emit (e := .loop 0) (.patch hload hmem trivial rfl) rfl
  obtain ⟨hwalk, -, hconstants, -, -, hlines, -⟩ := assembled_instructions hlast
  have hmem : load ∈ past := .tail _ (.tail _ (.head _))
  obtain ⟨index, -, hindex⟩ := hconstants (by decide) load hmem _ rfl
  obtain ⟨hsize, hentries⟩ := hlines _ rfl
  exact ⟨hlast, hwalk, ⟨by decide, index, hindex⟩, _, rfl, hsize,
    hentries load hmem 12 (by decide) (by decide)⟩

end Chunk
end ScriptVm
