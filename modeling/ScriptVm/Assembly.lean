import ScriptVm.Chunk

/-!
# Assembly

A program of emissions with named positions. `assemble` runs it on a chunk; labels stand for the
operand of a jump or for the offset of a mark.

* `Directive` is one line of assembly.
* `Assembler` is the chunk so far and the positions of the labels.
* `Assembler.step` runs one directive and gives the index or position that it returns.
-/

namespace ScriptVm

/-- One line of assembly. -/
inductive Directive where
  | opcode (op : Opcode)
  | byte (b : UInt8)
  | word16 (n : UInt16)
  | word32 (n : UInt32)
  | addConstant (k : Constant)
  | constant (k : Constant)
  | integer (n : Int32)
  | decimal (d : Decimal)
  | named (op : Opcode) (name : String)
  | withByte (op : Opcode) (operand : UInt8)
  | invoke (name : String) (argc : UInt8) (isSuper : Bool)
  | newClass (name : String) (extended : Bool)
  | method (index : UInt8) (name : String)
  | jump (op : Opcode) (label : String)
  | patch (label : String)
  | mark (label : String)
  | loop (label : String)
  | line (n : Int32)

/-- Why assembly stops. -/
inductive AssemblyError where
  | unknownLabel (label : String)
  | badTarget (position : Nat)

/-- The chunk so far and the position of each label, the latest first. -/
structure Assembler where
  chunk : Chunk
  labels : List (String × Nat)

namespace Assembler

/-- The position of a label. -/
def position (a : Assembler) (label : String) : Except AssemblyError Nat :=
  match a.labels.lookup label with
  | some p => .ok p
  | none => .error (.unknownLabel label)

/-- A step that only changes the chunk. -/
def emitted (a : Assembler) (c : Chunk) : Except AssemblyError (Option Nat × Assembler) :=
  .ok (none, { a with chunk := c })

/-- Runs one directive; the number is the constant index or operand position it gives. -/
def step (a : Assembler) : Directive → Except AssemblyError (Option Nat × Assembler)
  | .opcode op => a.emitted (a.chunk.emitOpcode op)
  | .byte b => a.emitted (a.chunk.emitByte b)
  | .word16 n => a.emitted (a.chunk.emitWord16 n)
  | .word32 n => a.emitted (a.chunk.emitWord32 n)
  | .addConstant k =>
    let (index, c) := a.chunk.addConstant k
    .ok (some index.toNat, { a with chunk := c })
  | .constant k =>
    let (index, c) := a.chunk.emitConstant k
    .ok (some index.toNat, { a with chunk := c })
  | .integer n => a.emitted (a.chunk.emitInteger n)
  | .decimal d => a.emitted (a.chunk.emitDecimal d)
  | .named op name => a.emitted (a.chunk.emitNamed op name)
  | .withByte op b => a.emitted (a.chunk.emitWithByte op b)
  | .invoke name argc isSuper => a.emitted (a.chunk.emitInvoke name argc isSuper)
  | .newClass name extended => a.emitted (a.chunk.emitClass name extended)
  | .method index name => a.emitted (a.chunk.emitMethod index name)
  | .jump op label =>
    let (operand, c) := a.chunk.emitJump op
    .ok (some operand, { chunk := c, labels := (label, operand) :: a.labels })
  | .patch label => do
    let operand ← a.position label
    match a.chunk.patchJump? operand with
    | some c => a.emitted c
    | none => .error (.badTarget operand)
  | .mark label => .ok (none, { a with labels := (label, a.chunk.code.size) :: a.labels })
  | .loop label => do
    let target ← a.position label
    match a.chunk.emitLoop? target with
    | some c => a.emitted c
    | none => .error (.badTarget target)
  | .line n => a.emitted (a.chunk.setLine n)

/-- Runs directives in order and collects what each gives. -/
def run : List Directive → Assembler → List (Option Nat) →
    Except AssemblyError (List (Option Nat) × Assembler)
  | [], a, given => .ok (given.reverse, a)
  | d :: ds, a, given =>
    match a.step d with
    | .ok (r, a) => run ds a (r :: given)
    | .error e => .error e

end Assembler

/-- Runs a program of directives on a chunk. -/
def Chunk.assemble (c : Chunk) (program : List Directive) :
    Except AssemblyError (List (Option Nat) × Chunk) :=
  (Assembler.run program ⟨c, []⟩ []).map fun r => (r.1, r.2.chunk)

end ScriptVm
