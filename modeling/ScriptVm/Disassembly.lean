import ScriptVm.Chunk
import ScriptVm.Code
import ScriptVm.Table

/-!
# Disassembly

A listing of a chunk with one line for each instruction: offset, source line, name and operands.

* `operandText` is the operand column of an instruction.
* `instruction?` is one line and the offset of the next instruction. A byte that is no opcode
  takes one line and is skipped; an instruction that is incomplete ends the listing.
* `listing` goes through the whole chunk.
-/

namespace ScriptVm
namespace Disassembly

/-- The names known for hashes. -/
abbrev Names := Option (Table String)

/-- A hash and, if known, the name it stands for. -/
def hashText (names : Names) (hash : UInt32) : String :=
  "#" ++ Text.hexWord hash ++
    match names.bind (·.get? hash) with
    | some name => " (" ++ name ++ ")"
    | none => ""

/-- The line column: a bar where the line is that of the byte before. -/
def lineColumn (c : Chunk) (offset : Nat) : String :=
  let before := if offset = 0 then none else c.line? (offset - 1)
  match c.line? offset with
  | none => "     "
  | some line => if before = some line then "   | " else Text.natColumn 4 line.toNat ++ " "

/-- Where a jump at `offset` with the given operand leads. -/
def jumpTarget (op : Opcode) (offset : Nat) (operand : UInt16) : Int :=
  let distance := operand.toInt16.toInt
  (offset : Int) + 3 + if op = .jumpBack then -distance else distance

/-- The operand column of a complete instruction. -/
def operandText (names : Names) (c : Chunk) (offset : Nat) (op : Opcode) : String :=
  let first := offset + 1
  let byte := (Code.byte? c.code first).getD 0
  let half := (Code.half? c.code first).getD 0
  let word := (Code.word? c.code first).getD 0
  let late := (Code.word? c.code (first + 1)).getD 0
  match op with
  | .getGlobal | .setGlobal | .defineGlobal | .defineConstant | .getProperty | .setProperty
  | .hasProperty | .inherit | .newClass => hashText names word
  | .constant | .importClass =>
    let shown := match c.constants[word.toNat]? with
      | some k => k.text
      | none => "?"
    Text.natColumn 9 word.toNat ++ " '" ++ shown ++ "'"
  | .integer => Text.intColumn 9 word.toInt32.toInt
  | .decimal => Text.padLeft ' ' 9 (Decimal.text ⟨word⟩)
  | .getLocal | .setLocal =>
    Text.natColumn 9 byte.toNat ++ if byte = 0 then " 'this'" else ""
  | .call | .newInstance | .copy | .popN => Text.natColumn 9 byte.toNat
  | .getModuleLocal | .setModuleLocal | .failsafe => Text.natColumn 9 half.toNat
  | .newArray | .newMap => Text.natColumn 9 word.toNat
  | .jump | .jumpIfFalse | .jumpBack =>
    Text.natColumn 9 offset ++ " -> " ++ toString (jumpTarget op offset half)
  | .method => Text.natColumn 2 byte.toNat ++ " " ++ hashText names late
  | .invoke =>
    let isSuper := (Code.byte? c.code (first + 5)).getD 0 != 0
    Text.natColumn 2 byte.toNat ++ " " ++ hashText names late ++ if isSuper then " super" else ""
  | .switchTable => Text.natColumn 9 half.toNat ++ " cases"
  | _ => ""

/-- The line of the instruction at an offset and the offset of the next one; `none` past the end
of the code. -/
def instruction? (names : Names) (c : Chunk) (offset : Nat) : Option (String × Nat) :=
  c.code[offset]?.map fun byte =>
    let head := Text.padLeft '0' 4 (toString offset) ++ " " ++ lineColumn c offset
    match Opcode.ofByte? byte with
    | none => (head ++ "Unknown opcode " ++ toString byte.toNat ++ "\n", offset + 1)
    | some op =>
      match Code.instructionSize? c.code offset with
      | none => (head ++ op.name ++ " (no viewer)\n", c.code.size)
      | some size =>
        (head ++ Text.padRight ' ' 16 op.name ++ " " ++ operandText names c offset op ++ "\n",
          offset + size)

/-- The lines from an offset on; each instruction takes at least one byte, so `fuel` bytes of
code are enough. -/
def lines (names : Names) (c : Chunk) : Nat → Nat → List String → List String
  | 0, _, shown => shown.reverse
  | fuel + 1, offset, shown =>
    match instruction? names c offset with
    | none => shown.reverse
    | some (line, next) => lines names c fuel next (line :: shown)

/-- The listing of a chunk under a title. -/
def listing (names : Names) (title : String) (c : Chunk) : String :=
  "== " ++ title ++ " ==\n" ++ String.join (lines names c c.code.size 0 [])

end Disassembly
end ScriptVm
