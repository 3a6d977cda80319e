/-!
# Columns and numerals

The printed forms shared by listings and messages: padding to a column and upper-case
hexadecimal numerals.

* `padLeft`, `padRight` widen a text to a column and never cut it.
* `hex` is the shortest numeral and `hexColumn` the one padded with zeros.
* `le` is the order in which keys are listed.
-/

namespace ScriptVm
namespace Text

/-- Widens `s` to `width` characters by writing `fill` before it. -/
def padLeft (fill : Char) (width : Nat) (s : String) : String :=
  String.ofList (List.replicate (width - s.length) fill) ++ s

/-- Widens `s` to `width` characters by writing `fill` after it. -/
def padRight (fill : Char) (width : Nat) (s : String) : String :=
  s ++ String.ofList (List.replicate (width - s.length) fill)

/-- A right-aligned column of a natural number. -/
def natColumn (width n : Nat) : String :=
  padLeft ' ' width (toString n)

/-- A right-aligned column of an integer. -/
def intColumn (width : Nat) (n : Int) : String :=
  padLeft ' ' width (toString n)

/-- The shortest upper-case hexadecimal numeral. -/
def hex (n : Nat) : String :=
  String.ofList ((Nat.toDigits 16 n).map Char.toUpper)

/-- The upper-case hexadecimal numeral padded with zeros to `width` digits. -/
def hexColumn (width n : Nat) : String :=
  padLeft '0' width (hex n)

/-- The eight digits of a 32-bit word. -/
def hexWord (n : UInt32) : String :=
  hexColumn 8 n.toNat

/-- The order of texts by code points; a text comes before its extensions. -/
def charsLe : List Char → List Char → Bool
  | [], _ => true
  | _ :: _, [] => false
  | c :: cs, d :: ds => if c = d then charsLe cs ds else c.toNat < d.toNat

/-- The order of texts by code points. -/
def le (s t : String) : Bool := charsLe s.toList t.toList

end Text
end ScriptVm
