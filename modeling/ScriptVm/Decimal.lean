/-!
# Decimals

A decimal is a 32-bit binary floating-point number, kept as its bits so that a file can be read
and written without touching any of them.

* `unpack` gives the sign, integer significand and power of two of a finite decimal.
* `ofDyadic` rounds `± m · 2 ^ e` to the nearest decimal, ties to the even significand.
* The four operations, `modulo`, the comparisons and the conversions from and to 32-bit integers.
-/

namespace ScriptVm

/-- A 32-bit floating-point number by its bits. -/
structure Decimal where
  bits : UInt32
deriving DecidableEq, Inhabited

namespace Decimal

/-- The power of two. -/
abbrev twoTo (n : Nat) : Nat := Nat.pow 2 n

/-- What the bits of a decimal stand for. -/
inductive Unpacked where
  | nan
  | infinite (negative : Bool)
  | finite (negative : Bool) (significand : Nat) (exponent : Int)
deriving DecidableEq

/-- The sign bit. -/
def isNegative (d : Decimal) : Bool :=
  d.bits &&& 0x80000000 != 0

/-- The exponent field. -/
def exponentField (d : Decimal) : Nat :=
  ((d.bits >>> 23) &&& 0xFF).toNat

/-- The fraction field. -/
def fractionField (d : Decimal) : Nat :=
  (d.bits &&& 0x7FFFFF).toNat

/-- Reads the three fields. -/
def unpack (d : Decimal) : Unpacked :=
  match d.exponentField, d.fractionField with
  | 255, 0 => .infinite d.isNegative
  | 255, _ => .nan
  | 0, f => .finite d.isNegative f (-149)
  | e, f => .finite d.isNegative (twoTo 23 + f) ((e : Int) - 150)

/-- Not a number. -/
def nan : Decimal := ⟨0x7FC00000⟩

/-- Zero with a sign. -/
def zero (negative : Bool) : Decimal :=
  ⟨if negative then 0x80000000 else 0⟩

/-- Infinity with a sign. -/
def infinity (negative : Bool) : Decimal :=
  ⟨if negative then 0xFF800000 else 0x7F800000⟩

/-- Whether the decimal is not a number. -/
def isNaN (d : Decimal) : Bool :=
  d.exponentField == 255 && d.fractionField != 0

/-- The quotient `n / d` rounded to the nearest natural number, ties to the even one. -/
def roundDiv (n d : Nat) : Nat :=
  let q := n / d
  let r := n % d
  if 2 * r < d then q
  else if 2 * r > d then q + 1
  else if q % 2 = 0 then q else q + 1

/-- The power of two of the last place that `m · 2 ^ e` is rounded to. -/
def lastPlace (m : Nat) (e : Int) : Int :=
  max (e + m.log2 + 1 - 24) (-149)

/-- The decimal nearest to `± m · 2 ^ e`, ties to the even significand. -/
def ofDyadic (negative : Bool) (m : Nat) (e : Int) : Decimal :=
  if m = 0 then zero negative
  else
    let q := lastPlace m e
    let significand :=
      if q ≤ e then m * twoTo (e - q).toNat else roundDiv m (twoTo (q - e).toNat)
    let magnitude := (q + 149).toNat * twoTo 23 + significand
    if magnitude ≥ 0x7F800000 then infinity negative
    else ⟨magnitude.toUInt32 ||| (zero negative).bits⟩

/-! ### Arithmetic -/

/-- The number itself. -/
def toFloat (d : Decimal) : Float32 := Float32.ofBits d.bits

/-- The decimal of a number. -/
def ofFloat (x : Float32) : Decimal := ⟨x.toBits⟩

instance : Add Decimal := ⟨fun a b => ofFloat (a.toFloat + b.toFloat)⟩
instance : Sub Decimal := ⟨fun a b => ofFloat (a.toFloat - b.toFloat)⟩
instance : Mul Decimal := ⟨fun a b => ofFloat (a.toFloat * b.toFloat)⟩
instance : Div Decimal := ⟨fun a b => ofFloat (a.toFloat / b.toFloat)⟩

/-- Turns the sign over. -/
instance : Neg Decimal := ⟨fun a => ⟨a.bits ^^^ 0x80000000⟩⟩

/-- The number one. -/
def one : Decimal := ⟨0x3F800000⟩

/-- The remainder of the quotient cut toward zero, with the sign of the dividend. -/
def modulo (a b : Decimal) : Decimal :=
  match a.unpack, b.unpack with
  | .nan, _ | _, .nan | .infinite _, _ => nan
  | .finite _ _ _, .infinite _ => a
  | .finite s m e, .finite _ n f =>
    if n = 0 then nan
    else
      let g := min e f
      ofDyadic s ((m * twoTo (e - g).toNat) % (n * twoTo (f - g).toNat)) g

/-- Numerical equality: the two zeros are equal and nothing equals a NaN. -/
def eq (a b : Decimal) : Bool := a.toFloat == b.toFloat

/-- Numerical order. -/
def lt (a b : Decimal) : Bool := decide (a.toFloat < b.toFloat)

/-- Numerical order with equality. -/
def le (a b : Decimal) : Bool := decide (a.toFloat ≤ b.toFloat)

/-- Whether the decimal is one of the two zeros. -/
def isZero (a : Decimal) : Bool := a.eq (zero false)

/-! ### Integers -/

/-- The decimal nearest to an integer. -/
def ofInt (n : Int) : Decimal :=
  ofDyadic (decide (n < 0)) n.natAbs 0

/-- The decimal nearest to a 32-bit integer. -/
def ofInt32 (n : Int32) : Decimal := ofInt n.toInt

/-- The nearest 32-bit integer to an integer. -/
def clampInt32 (n : Int) : Int32 :=
  Int32.ofInt (max (-2147483648) (min 2147483647 n))

/-- Cuts toward zero; what does not fit goes to the nearest end, and a NaN to zero. -/
def toInt32 (d : Decimal) : Int32 :=
  match d.unpack with
  | .nan => 0
  | .infinite s => if s then Int32.minValue else Int32.maxValue
  | .finite s m e =>
    let size : Nat := if 0 ≤ e then m * twoTo e.toNat else m / twoTo (-e).toNat
    clampInt32 (if s then -(size : Int) else size)

end Decimal
end ScriptVm
