import ScriptVm.Bytes

/-!
# Decoding bytes

Readers for binary formats. A decoder takes bytes from the front of what is left and knows how
many were taken before, so that an error can say where it arose.

* `FormatError` is every way in which a file can be refused, with its wording in `message`.
* `Cursor` is the offset and the bytes left; `Decoder` reads from it.
* `times` repeats a decoder a given number of times.
-/

namespace ScriptVm

/-- What a count in a file counts. -/
inductive Counted where
  | functions | instructions | constants | tokens
deriving DecidableEq

/-- The word for what is counted. -/
def Counted.name : Counted → String
  | .functions => "function"
  | .instructions => "instruction"
  | .constants => "constant"
  | .tokens => "token"

/-- Why a file is refused. -/
inductive FormatError where
  | badMagic
  | unsupportedVersion (version : UInt8)
  | truncated (offset needed : Nat)
  | invalidCount (what : Counted) (count : Int32)
  | unknownConstantTag (tag : UInt8) (offset : Nat)
  | noFunctions
  | invalidString (offset : Nat)
deriving DecidableEq

/-- The wording of a refusal. -/
def FormatError.message : FormatError → String
  | .badMagic => "Incorrect magic!"
  | .unsupportedVersion v => s!"Unsupported bytecode version {v.toNat}"
  | .truncated offset needed =>
    s!"Unexpected end of bytecode at offset {offset} (needed {needed} more bytes)"
  | .invalidCount what count => s!"Invalid {what.name} count {count.toInt}"
  | .unknownConstantTag tag offset => s!"Unknown constant type {tag.toNat} at offset {offset}"
  | .noFunctions => "Bytecode contains no functions"
  | .invalidString offset => s!"Invalid UTF-8 string at offset {offset}"

/-- The number of bytes taken so far and the bytes left. -/
structure Cursor where
  offset : Nat
  rest : List UInt8
deriving DecidableEq

/-- A reader of bytes. -/
abbrev Decoder := StateT Cursor (Except FormatError)

namespace Decoder

/-- Splits off the first `n` bytes, in reverse onto `taken`, if there are so many. -/
def split : Nat → List UInt8 → List UInt8 → Option (List UInt8 × List UInt8)
  | 0, taken, rest => some (taken.reverse, rest)
  | _ + 1, _, [] => none
  | n + 1, taken, b :: rest => split n (b :: taken) rest

/-- Refuses the file. -/
def fail {α : Type} (e : FormatError) : Decoder α := fun _ => .error e

/-- The number of bytes taken so far. -/
def offset : Decoder Nat := fun c => .ok (c.offset, c)

/-- Takes `n` bytes. -/
def take (n : Nat) : Decoder (List UInt8) := fun c =>
  match split n [] c.rest with
  | some (bytes, rest) => .ok (bytes, ⟨c.offset + n, rest⟩)
  | none => .error (.truncated c.offset n)

/-- Takes one byte. -/
def byte : Decoder UInt8 := fun c =>
  match c.rest with
  | b :: rest => .ok (b, ⟨c.offset + 1, rest⟩)
  | [] => .error (.truncated c.offset 1)

/-- Takes a 32-bit word. -/
def word : Decoder UInt32 := fun c =>
  match c.rest with
  | b0 :: b1 :: b2 :: b3 :: rest => .ok (Bytes.word32 b0 b1 b2 b3, ⟨c.offset + 4, rest⟩)
  | _ => .error (.truncated c.offset 4)

/-- Takes a signed 32-bit word. -/
def signedWord : Decoder Int32 := do
  return (← word).toInt32

/-- Takes a signed count and refuses a negative one. -/
def count (what : Counted) : Decoder Nat := do
  let n ← signedWord
  if n.toInt < 0 then fail (.invalidCount what n) else return n.toInt.toNat

/-- Takes a length and as many bytes of text. -/
def string : Decoder String := do
  let length ← word
  let start ← offset
  let bytes ← take length.toNat
  match Bytes.ofUtf8? bytes with
  | some s => return s
  | none => fail (.invalidString start)

/-- Repeats a decoder `n` times, appending to `found`. -/
def timesFrom {α : Type} (d : Decoder α) : Nat → Array α → Decoder (Array α)
  | 0, found => pure found
  | n + 1, found => fun c =>
    match d c with
    | .ok (a, c) => timesFrom d n (found.push a) c
    | .error e => .error e

/-- Repeats a decoder `n` times. -/
def times {α : Type} (n : Nat) (d : Decoder α) : Decoder (Array α) := timesFrom d n #[]

/-- Runs a decoder from the first byte of a file; what follows the last byte taken is ignored. -/
def run {α : Type} (d : Decoder α) (bytes : List UInt8) : Except FormatError α :=
  match d ⟨0, bytes⟩ with
  | .ok (a, _) => .ok a
  | .error e => .error e

end Decoder
end ScriptVm
