/-!
# Bytes of words and texts

Every number in a bytecode file is written with its low byte first, and every text as UTF-8.

* `word16`, `word32` put bytes together and `bytes16`, `bytes32` take words apart.
* `utf8` and `ofUtf8?` are the two directions between a text and its bytes.
-/

namespace ScriptVm
namespace Bytes

/-- The word of two bytes, low byte first. -/
def word16 (a b : UInt8) : UInt16 :=
  a.toUInt16 ||| (b.toUInt16 <<< 8)

/-- The word of four bytes, low byte first. -/
def word32 (a b c d : UInt8) : UInt32 :=
  a.toUInt32 ||| (b.toUInt32 <<< 8) ||| (c.toUInt32 <<< 16) ||| (d.toUInt32 <<< 24)

/-- The two bytes of a word, low byte first. -/
def bytes16 (n : UInt16) : List UInt8 :=
  [n.toUInt8, (n >>> 8).toUInt8]

/-- The four bytes of a word, low byte first. -/
def bytes32 (n : UInt32) : List UInt8 :=
  [n.toUInt8, (n >>> 8).toUInt8, (n >>> 16).toUInt8, (n >>> 24).toUInt8]

/-- The bytes of a text. -/
def utf8 (s : String) : List UInt8 :=
  s.toByteArray.data.toList

/-- The text that a byte sequence spells, if it spells one. -/
def ofUtf8? (bytes : List UInt8) : Option String :=
  String.fromUTF8? ⟨bytes.toArray⟩

end Bytes
end ScriptVm
