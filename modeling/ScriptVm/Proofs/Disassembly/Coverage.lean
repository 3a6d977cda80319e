import Mathlib.Data.List.Chain
import ScriptVm.Disassembly
import ScriptVm.Proofs.Machine.Advance

/-!
# What listings cover

A listing goes through any bytes, also through what is no code: it takes each byte into one line,
ends where the code ends, and reads no operand from behind that end.

* `next` is where the line after a line starts, and `offsets` are the starts of all lines.
* `operandText?` is the operand column where no operand may be missing.
* `lt_next` and `next_le_size` are the bounds of one line, `operandText?_eq` that its
  operands are there.
* `lines_eq` and `existsUnique_mem_offsets` carry them over the whole listing.
* `listing_covers` is the result.
-/

namespace ScriptVm
namespace Disassembly

variable {names : Names} {c : Chunk} {code : Array UInt8} {op : Opcode} {offset size i : Nat}

/-! ### The next line -/

/-- Where the line after the one at an offset starts: behind an instruction that is complete,
behind a byte that is no opcode, or at the end of the code if the instruction acts on a scene or
is cut off. -/
def next (code : Array UInt8) (offset : Nat) : Nat :=
  match Code.instructionSize? code offset, Code.opcode? code offset with
  | some size, _ => offset + size
  | none, none => offset + 1
  | none, some _ => code.size

/-- Every opcode takes a byte of its own. -/
theorem extent_pos (hsize : Code.extent? code offset op = some size) : 0 < size := by
  by_cases hop : op = .switchTable
  · subst hop
    obtain ⟨count, -, rfl⟩ := Option.map_eq_some_iff.1 hsize
    omega
  · rw [Code.extent?_eq hop] at hsize
    split at hsize
    · cases hsize
    · cases hsize
      omega

theorem lt_next (hoffset : offset < code.size) : offset < next code offset := by
  unfold next
  split
  · rename_i size _ hsize
    obtain ⟨op, -, hextent, -⟩ := Code.instructionSize?_eq_some hsize
    have hpos := extent_pos hextent
    omega
  · exact Nat.lt_succ_self offset
  · exact hoffset

theorem next_le_size (hoffset : offset < code.size) : next code offset ≤ code.size := by
  unfold next
  split
  · rename_i size _ hsize
    obtain ⟨-, -, -, hle⟩ := Code.instructionSize?_eq_some hsize
    exact hle
  · exact hoffset
  · exact Nat.le_refl code.size

/-- The starts of the lines from an offset on. -/
def offsets (code : Array UInt8) (offset : Nat) : List Nat :=
  if offset < code.size then offset :: offsets code (next code offset) else []
termination_by code.size - offset
decreasing_by
  have hnext := lt_next ‹_›
  omega

theorem offsets_of_lt (hoffset : offset < code.size) :
    offsets code offset = offset :: offsets code (next code offset) := by
  rw [offsets, if_pos hoffset]

theorem offsets_of_le (hoffset : code.size ≤ offset) : offsets code offset = [] := by
  rw [offsets, if_neg (Nat.not_lt.2 hoffset)]

theorem mem_offsets_bounds {start : Nat} (hstart : start ∈ offsets code offset) :
    offset ≤ start ∧ start < code.size := by
  fun_induction offsets code offset with
  | case1 offset hoffset ih =>
    rcases List.mem_cons.1 hstart with rfl | hrest
    · exact ⟨Nat.le_refl start, hoffset⟩
    · have hnext := lt_next hoffset
      have hbounds := ih hrest
      omega
  | case2 offset hoffset => cases hstart

/-- From each line the next one follows, and from the last one the end of the code. -/
theorem isChain_offsets (hoffset : offset ≤ code.size) :
    (offsets code offset ++ [code.size]).head? = some offset ∧
      (offsets code offset ++ [code.size]).IsChain fun start behind =>
        behind = next code start := by
  fun_induction offsets code offset with
  | case1 offset hlt ih =>
    obtain ⟨hhead, hchain⟩ := ih (next_le_size hlt)
    refine ⟨rfl, ?_⟩
    rw [List.cons_append, List.isChain_cons, hhead]
    exact ⟨fun behind hbehind => (Option.some.inj hbehind).symm, hchain⟩
  | case2 offset hge =>
    obtain rfl : offset = code.size := by omega
    exact ⟨rfl, List.isChain_singleton _⟩

theorem pairwise_offsets (code : Array UInt8) (offset : Nat) :
    (offsets code offset ++ [code.size]).Pairwise (· < ·) := by
  fun_induction offsets code offset with
  | case1 offset hlt ih =>
    refine List.pairwise_cons.2 ⟨fun start hstart => ?_, ih⟩
    rcases List.mem_append.1 hstart with hmem | hend
    · exact Nat.lt_of_lt_of_le (lt_next hlt) (mem_offsets_bounds hmem).1
    · exact List.mem_singleton.1 hend ▸ hlt
  | case2 offset hge => exact List.pairwise_singleton _ _

/-- Every byte from an offset on belongs to exactly one line. -/
theorem existsUnique_mem_offsets (hoffset : offset ≤ i) (hi : i < code.size) :
    ∃! start, start ∈ offsets code offset ∧ start ≤ i ∧ i < next code start := by
  fun_induction offsets code offset with
  | case1 offset hlt ih =>
    rcases Nat.lt_or_ge i (next code offset) with hin | hbehind
    · refine ⟨offset, ⟨List.mem_cons_self, hoffset, hin⟩, ?_⟩
      rintro start ⟨hstart, hle, -⟩
      rcases List.mem_cons.1 hstart with rfl | hrest
      · rfl
      · have hbounds := mem_offsets_bounds hrest
        omega
    · obtain ⟨start, ⟨hmem, hcovers⟩, honly⟩ := ih hbehind
      refine ⟨start, ⟨List.mem_cons_of_mem _ hmem, hcovers⟩, ?_⟩
      rintro other ⟨hother, hle, hin⟩
      rcases List.mem_cons.1 hother with rfl | hrest
      · omega
      · exact honly other ⟨hrest, hle, hin⟩
  | case2 offset hge => omega

/-! ### The lines -/

/-- The operand column of an instruction, if none of its operands lies outside of the code. -/
def operandText? (names : Names) (c : Chunk) (offset : Nat) (op : Opcode) : Option String :=
  let first := offset + 1
  match op with
  | .getGlobal | .setGlobal | .defineGlobal | .defineConstant | .getProperty | .setProperty
  | .hasProperty | .inherit | .newClass => do
    let word ← Code.word? c.code first
    return hashText names word
  | .constant | .importClass => do
    let word ← Code.word? c.code first
    let shown := match c.constants[word.toNat]? with
      | some k => k.text
      | none => "?"
    return Text.natColumn 9 word.toNat ++ " '" ++ shown ++ "'"
  | .integer => do
    let word ← Code.word? c.code first
    return Text.intColumn 9 word.toInt32.toInt
  | .decimal => do
    let word ← Code.word? c.code first
    return Text.padLeft ' ' 9 (Decimal.text ⟨word⟩)
  | .getLocal | .setLocal => do
    let byte ← Code.byte? c.code first
    return Text.natColumn 9 byte.toNat ++ if byte = 0 then " 'this'" else ""
  | .call | .newInstance | .copy | .popN => do
    let byte ← Code.byte? c.code first
    return Text.natColumn 9 byte.toNat
  | .getModuleLocal | .setModuleLocal | .failsafe => do
    let half ← Code.half? c.code first
    return Text.natColumn 9 half.toNat
  | .newArray | .newMap => do
    let word ← Code.word? c.code first
    return Text.natColumn 9 word.toNat
  | .jump | .jumpIfFalse | .jumpBack => do
    let half ← Code.half? c.code first
    return Text.natColumn 9 offset ++ " -> " ++ toString (jumpTarget op offset half)
  | .method => do
    let byte ← Code.byte? c.code first
    let hash ← Code.word? c.code (first + 1)
    return Text.natColumn 2 byte.toNat ++ " " ++ hashText names hash
  | .invoke => do
    let byte ← Code.byte? c.code first
    let hash ← Code.word? c.code (first + 1)
    let isSuper ← Code.byte? c.code (first + 5)
    return Text.natColumn 2 byte.toNat ++ " " ++ hashText names hash ++
      if isSuper != 0 then " super" else ""
  | .switchTable => do
    let half ← Code.half? c.code first
    return Text.natColumn 9 half.toNat ++ " cases"
  | _ => some ""

/-- The line at an offset, as long as nothing is read from outside of the code. -/
def line? (names : Names) (c : Chunk) (offset : Nat) : Option String := do
  let byte ← c.code[offset]?
  let head := Text.padLeft '0' 4 (toString offset) ++ " " ++ lineColumn c offset
  match Opcode.ofByte? byte with
  | none => return head ++ "Unknown opcode " ++ toString byte.toNat ++ "\n"
  | some op =>
    match Code.instructionSize? c.code offset with
    | none => return head ++ op.name ++ " (no viewer)\n"
    | some _ =>
      let operands ← operandText? names c offset op
      return head ++ Text.padRight ' ' 16 op.name ++ " " ++ operands ++ "\n"

/-- A complete instruction has the bytes that every instruction of its opcode has. -/
theorem fixedWidth_le (hop : Code.opcode? code offset = some op)
    (hsize : Code.instructionSize? code offset = some size) :
    offset + 1 + op.fixedWidth ≤ code.size := by
  obtain ⟨op', hop', hextent, hle⟩ := Code.instructionSize?_eq_some hsize
  cases hop.symm.trans hop'
  by_cases htable : op = .switchTable
  · subst htable
    obtain ⟨count, hcount, -⟩ := Option.map_eq_some_iff.1 hextent
    exact Code.le_size_of_half? hcount
  · rw [Code.extent?_eq htable] at hextent
    split at hextent
    · cases hextent
    · cases hextent
      omega

/-- All operands of a complete instruction are there. -/
theorem operandText?_eq (names : Names) (hop : Code.opcode? c.code offset = some op)
    (hsize : Code.instructionSize? c.code offset = some size) :
    operandText? names c offset op = some (operandText names c offset op) := by
  have hfits := fixedWidth_le hop hsize
  cases op with
  | getLocal | setLocal | popN | copy | call | newInstance =>
    obtain ⟨byte, hbyte⟩ := Code.exists_byte? hfits
    simp [operandText?, operandText, hbyte]
  | getModuleLocal | setModuleLocal | failsafe | jump | jumpBack | jumpIfFalse | switchTable =>
    obtain ⟨half, hhalf⟩ := Code.exists_half? hfits
    simp [operandText?, operandText, hhalf]
  | getGlobal | setGlobal | defineGlobal | defineConstant | getProperty | setProperty | hasProperty
  | newArray | newMap | inherit | integer | decimal =>
    obtain ⟨word, hword⟩ := Code.exists_word? hfits
    simp [operandText?, operandText, hword]
  | constant | importClass =>
    obtain ⟨word, hword⟩ := Code.exists_word? hfits
    unfold operandText? operandText
    dsimp only
    rw [hword]
    rfl
  | newClass =>
    have hfits : offset + 1 + 5 ≤ c.code.size := hfits
    obtain ⟨word, hword⟩ := Code.exists_word? (Nat.le_of_succ_le hfits)
    simp [operandText?, operandText, hword]
  | method =>
    have hfits : offset + 1 + 1 + 4 ≤ c.code.size := hfits
    obtain ⟨byte, hbyte⟩ := Code.exists_byte? (Nat.le_of_add_right_le hfits)
    obtain ⟨hash, hhash⟩ := Code.exists_word? hfits
    simp [operandText?, operandText, hbyte, hhash]
  | invoke =>
    have hfits : offset + 1 + 1 + 4 + 1 ≤ c.code.size := hfits
    have hfront : offset + 1 + 1 + 4 ≤ c.code.size := Nat.le_of_succ_le hfits
    obtain ⟨byte, hbyte⟩ := Code.exists_byte? (Nat.le_of_add_right_le hfront)
    obtain ⟨hash, hhash⟩ := Code.exists_word? hfront
    obtain ⟨isSuper, hsuper⟩ := Code.exists_byte? hfits
    simp [operandText?, operandText, hbyte, hhash, hsuper]
  | _ => rfl

theorem instruction?_of_le (hoffset : c.code.size ≤ offset) :
    instruction? names c offset = none := by
  unfold instruction?
  rw [Array.getElem?_eq_none hoffset]
  rfl

/-- A line is written without reading from outside of the code, and the next one follows it. -/
theorem instruction?_of_lt (names : Names) (hoffset : offset < c.code.size) :
    ∃ text, line? names c offset = some text ∧
      instruction? names c offset = some (text, next c.code offset) := by
  obtain ⟨byte, hbyte⟩ := Code.exists_byte? hoffset
  have hbyte : c.code[offset]? = some byte := hbyte
  have hopcode : Code.opcode? c.code offset = Opcode.ofByte? byte :=
    congrArg (Option.bind · Opcode.ofByte?) hbyte
  unfold line? instruction? next
  rw [hbyte, hopcode]
  cases hop : Opcode.ofByte? byte with
  | none =>
    have hsize : Code.instructionSize? c.code offset = none := by
      rw [Code.instructionSize?_eq, hopcode, hop]
      rfl
    simp [hop, hsize]
  | some op =>
    cases hsize : Code.instructionSize? c.code offset with
    | none => simp [hop]
    | some size =>
      have hoperands := operandText?_eq names (hopcode.trans hop) hsize
      simp [hop, hoperands]

/-- With a byte of allowance for each line, the lines come to their end by themselves. -/
theorem lines_eq {fuel : Nat} (names : Names) (offset : Nat) (hfuel : c.code.size - offset ≤ fuel)
    (before : List String) :
    ∃ shown, (offsets c.code offset).mapM (line? names c) = some shown ∧
      lines names c fuel offset before = before.reverse ++ shown := by
  induction fuel generalizing offset before with
  | zero =>
    refine ⟨[], ?_, (List.append_nil _).symm⟩
    rw [offsets_of_le (by omega)]
    rfl
  | succ fuel ih =>
    rcases Nat.lt_or_ge offset c.code.size with hlt | hge
    · obtain ⟨text, htext, hline⟩ := instruction?_of_lt names hlt
      have hnext := lt_next hlt
      obtain ⟨shown, hshown, hlines⟩ :=
        ih (next c.code offset) (by omega) (text :: before)
      refine ⟨text :: shown, ?_, ?_⟩
      · rw [offsets_of_lt hlt, List.mapM_cons, htext, hshown]
        rfl
      · rw [lines, hline]
        simp [hlines]
    · refine ⟨[], ?_, ?_⟩
      · rw [offsets_of_le hge]
        rfl
      · rw [lines, instruction?_of_le hge]
        exact (List.append_nil _).symm

/-- A line begins with its offset. -/
theorem offset_of_line? {text : String} (hline : line? names c offset = some text) :
    ∃ rest, text = Text.padLeft '0' 4 (toString offset) ++ " " ++ rest ++ "\n" := by
  obtain ⟨byte, -, hline⟩ := Option.bind_eq_some_iff.1 hline
  dsimp only at hline
  have hbody (body : String) : ∃ rest, Text.padLeft '0' 4 (toString offset) ++ " " ++
      lineColumn c offset ++ body ++ "\n" =
        Text.padLeft '0' 4 (toString offset) ++ " " ++ rest ++ "\n" :=
    ⟨lineColumn c offset ++ body, by simp only [String.append_assoc]⟩
  split at hline
  · rw [← Option.some.inj hline]
    simpa only [String.append_assoc] using hbody ("Unknown opcode " ++ toString byte.toNat)
  · rename_i op _
    split at hline
    · have hsplit : " (no viewer)\n" = " (no viewer)" ++ "\n" := rfl
      rw [← Option.some.inj hline, hsplit]
      simpa only [String.append_assoc] using hbody (op.name ++ " (no viewer)")
    · obtain ⟨operands, -, hline⟩ := Option.bind_eq_some_iff.1 hline
      rw [← Option.some.inj hline]
      simpa only [String.append_assoc] using
        hbody (Text.padRight ' ' 16 op.name ++ " " ++ operands)

/-- **Coverage of listings.** Each line begins with its offset and is written from within the code;
offsets go as `next` says, so every byte belongs to exactly one line. -/
theorem listing_covers (names : Names) (title : String) (c : Chunk) :
    (∃ shown, (offsets c.code 0).mapM (line? names c) = some shown ∧
      (∀ fuel, c.code.size ≤ fuel → lines names c fuel 0 [] = shown) ∧
      listing names title c = "== " ++ title ++ " ==\n" ++ String.join shown) ∧
    (∀ start text, line? names c start = some text →
      ∃ rest, text = Text.padLeft '0' 4 (toString start) ++ " " ++ rest ++ "\n") ∧
    (offsets c.code 0 ++ [c.code.size]).head? = some 0 ∧
    (offsets c.code 0 ++ [c.code.size]).IsChain (fun start behind => behind = next c.code start) ∧
    (offsets c.code 0 ++ [c.code.size]).Pairwise (· < ·) ∧
    ∀ i < c.code.size, ∃! start, start ∈ offsets c.code 0 ∧ start ≤ i ∧ i < next c.code start := by
  obtain ⟨hfirst, hchain⟩ := isChain_offsets (Nat.zero_le c.code.size)
  refine ⟨?lines, fun start text => offset_of_line?, hfirst, hchain, pairwise_offsets c.code 0,
    fun i => existsUnique_mem_offsets (Nat.zero_le i)⟩
  obtain ⟨shown, hshown, hlines⟩ := lines_eq names 0 (Nat.le_refl c.code.size) []
  refine ⟨shown, hshown, fun fuel hfuel => ?_, ?_⟩
  · obtain ⟨shown', hshown', hlines'⟩ := lines_eq names 0 hfuel []
    cases hshown.symm.trans hshown'
    exact hlines'
  · unfold listing
    rw [hlines]
    rfl

/-- A byte that is no opcode, an instruction, and one whose operand is cut off make three lines; the
fourth byte of the operand that is there belongs to the second. -/
theorem listing_covers_malformed :
    let c : Chunk := ⟨#[200, 2, 1, 0, 0, 0, 2, 9], none, #[], 0⟩
    offsets c.code 0 = [0, 1, 6] ∧
      lines none c 8 0 [] = ["0000      Unknown opcode 200\n",
        "0001      OP_DEFINE_GLOBAL #00000001\n", "0006      OP_DEFINE_GLOBAL (no viewer)\n"] ∧
      ∃! start, start ∈ offsets c.code 0 ∧ start ≤ 5 ∧ 5 < next c.code start := by
  intro c
  obtain ⟨-, -, -, -, -, hcovers⟩ := listing_covers none "malformed" c
  exact ⟨by decide +kernel, by decide +kernel, hcovers 5 (by decide)⟩

end Disassembly
end ScriptVm
