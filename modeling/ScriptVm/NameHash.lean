import ScriptVm.Bytes

/-!
# Name hashes

Globals, classes, methods and fields are keyed by the 32-bit hash of their name, and files by
the hash of their name without its extension. Compiled code holds these hashes, so the function
is fixed.

* `murmur seed bytes` mixes four bytes at a time and closes with the bytes left over.
* `hashName` hashes a name, `hashFilename` the stem of a file name.
-/

namespace ScriptVm

namespace NameHash

/-- The seed of every name hash. -/
def seed : UInt32 := 0xDEADBEEF

/-- The odd multiplier of the mixing steps. -/
def multiplier : UInt32 := 0x5bd1e995

/-- Scrambles one block before it meets the running hash. -/
def scramble (k : UInt32) : UInt32 :=
  let k := k * multiplier
  (k ^^^ (k >>> 24)) * multiplier

/-- Takes one block into the running hash. -/
def absorb (h k : UInt32) : UInt32 :=
  (h * multiplier) ^^^ scramble k

/-- The final avalanche. -/
def finish (h : UInt32) : UInt32 :=
  let h := h ^^^ (h >>> 13)
  let h := h * multiplier
  h ^^^ (h >>> 15)

/-- Runs over the aligned blocks, then the one to three bytes left over. -/
def run (h : UInt32) : List UInt8 → UInt32
  | a :: b :: c :: d :: rest => run (absorb h (Bytes.word32 a b c d)) rest
  | [a, b, c] => (h ^^^ (c.toUInt32 <<< 16) ^^^ (b.toUInt32 <<< 8) ^^^ a.toUInt32) * multiplier
  | [a, b] => (h ^^^ (b.toUInt32 <<< 8) ^^^ a.toUInt32) * multiplier
  | [a] => (h ^^^ a.toUInt32) * multiplier
  | [] => h

/-- The 32-bit hash of a byte sequence. -/
def murmur (seed : UInt32) (bytes : List UInt8) : UInt32 :=
  finish (run (seed ^^^ bytes.length.toUInt32) bytes)

/-- Cuts a file name at its last point; a name without one is left whole. -/
def stem (name : List Char) : List Char :=
  match name.reverse.dropWhile (· != '.') with
  | [] => name
  | _ :: front => front.reverse

end NameHash

/-- The hash that stands for a name. -/
def hashName (name : String) : UInt32 :=
  NameHash.murmur NameHash.seed (Bytes.utf8 name)

/-- The hash that stands for a file: that of its name up to the last point. -/
def hashFilename (name : String) : UInt32 :=
  hashName (String.ofList (NameHash.stem name.toList))

end ScriptVm
