import ScriptVm.Decimal
import ScriptVm.Text

/-!
# Numerals of decimals

Two printed forms of a decimal.

* `fixed places` writes a given number of places after the point, rounding the exact value, ties
  to the even digit.
* `shortest` writes the fewest digits that read back as the same decimal, of these the nearest, a
  tie away from zero; very large and very small decimals get an exponent.
-/

namespace ScriptVm
namespace Decimal

/-- The power of ten. -/
abbrev tenTo (n : Nat) : Nat := Nat.pow 10 n

/-- The sign of a numeral. -/
def signText (negative : Bool) : String :=
  if negative then "-" else ""

/-- The value `m · 2 ^ e` in units of `10 ^ -places`, rounded to the nearest, ties to even. -/
def scaled (places m : Nat) (e : Int) : Nat :=
  if 0 ≤ e then m * twoTo e.toNat * tenTo places
  else roundDiv (m * tenTo places) (twoTo (-e).toNat)

/-- Writes `n` units of `10 ^ -places` with a point. -/
def pointed (places n : Nat) : String :=
  let whole := toString (n / tenTo places)
  if places = 0 then whole
  else whole ++ "." ++ Text.padLeft '0' places (toString (n % tenTo places))

/-- The numeral with `places` digits after the point. -/
def fixed (places : Nat) (d : Decimal) : String :=
  match d.unpack with
  | .nan => "NaN"
  | .infinite s => signText s ++ "inf"
  | .finite s m e => signText s ++ pointed places (scaled places m e)

/-- The form in which scripts print decimals. -/
def text (d : Decimal) : String := d.fixed 6

/-! ### Fewest digits -/

/-- A decimal numeral `digits · 10 ^ exponent`. -/
structure Digits where
  digits : Nat
  exponent : Int

/-- A positive value as a fraction, with the distances to the ends of the interval that rounds
to it: the value is `num / den`, the ends are `(num - below) / den` and `(num + above) / den`,
and they belong to the interval when `closed`. -/
structure Interval where
  num : Nat
  den : Nat
  below : Nat
  above : Nat
  closed : Bool

/-- The interval of `m · 2 ^ e`. Below a power of two the neighbours are half as far apart. -/
def interval (m : Nat) (e : Int) : Interval :=
  let scale := twoTo e.toNat
  let narrow := m == twoTo 23 && e != -149
  { num := 4 * m * scale
    den := 4 * twoTo (-e).toNat
    below := if narrow then scale else 2 * scale
    above := 2 * scale
    closed := m % 2 == 0 }

namespace Interval

/-- Whether `n · 10 ^ k` lies in the interval. -/
def holds (i : Interval) (n : Nat) (k : Int) : Bool :=
  let point := n * i.den * tenTo k.toNat
  let unit := tenTo (-k).toNat
  let low := (i.num - i.below) * unit
  let high := (i.num + i.above) * unit
  if i.closed then low ≤ point && point ≤ high else low < point && point < high

/-- The distance of `n · 10 ^ k` from the value, in a unit that depends on `k` only. -/
def distance (i : Interval) (n : Nat) (k : Int) : Nat :=
  let point := n * i.den * tenTo k.toNat
  let value := i.num * tenTo (-k).toNat
  if point ≤ value then value - point else point - value

/-- The value cut to a multiple of `10 ^ k`. -/
def floor (i : Interval) (k : Int) : Nat :=
  (i.num * tenTo (-k).toNat) / (i.den * tenTo k.toNat)

/-- The multiple of `10 ^ k` next to the value that lies in the interval, the nearer of two and the
larger of two that are equally near. -/
def pick? (i : Interval) (k : Int) : Option Digits :=
  let n := i.floor k
  match i.holds n k && n != 0, i.holds (n + 1) k with
  | true, true => some ⟨if i.distance (n + 1) k ≤ i.distance n k then n + 1 else n, k⟩
  | true, false => some ⟨n, k⟩
  | false, true => some ⟨n + 1, k⟩
  | false, false => none

/-- The first grid, from coarse to fine, that meets the interval. -/
def search (i : Interval) : Nat → Int → Digits
  | 0, k => ⟨i.floor k, k⟩
  | fuel + 1, k =>
    match i.pick? k with
    | some d => d
    | none => search i fuel (k - 1)

end Interval

/-- Moves the zeros at the end of the digits into the exponent. -/
def Digits.trim : Nat → Digits → Digits
  | 0, d => d
  | fuel + 1, d => if d.digits % 10 = 0 then trim fuel ⟨d.digits / 10, d.exponent + 1⟩ else d

/-- The fewest digits that stand for `m · 2 ^ e`; grids from `10 ^ 39` down to `10 ^ -54` are
enough for every decimal. -/
def shortestDigits (m : Nat) (e : Int) : Digits :=
  ((interval m e).search 93 39).trim 40

/-- Digits with a point and no exponent. -/
def positional (d : Digits) : String :=
  if 0 ≤ d.exponent then toString (d.digits * tenTo d.exponent.toNat) ++ ".0"
  else pointed (-d.exponent).toNat d.digits

/-- Digits with a point after the first and a power of ten. -/
def scientific (d : Digits) : String :=
  let ds := (toString d.digits).toList
  let power := d.exponent + (ds.length - 1 : Nat)
  let front := String.ofList (ds.take 1)
  let rest := String.ofList (ds.drop 1)
  (if rest.isEmpty then front else front ++ "." ++ rest) ++ "e" ++ toString power

/-- The numeral with the fewest digits: with an exponent from `10 ^ 16` upward and below
`10 ^ -4`, otherwise with at least one place after the point. -/
def shortest (d : Decimal) : String :=
  match d.unpack with
  | .nan => "NaN"
  | .infinite s => signText s ++ "inf"
  | .finite s 0 _ => signText s ++ "0.0"
  | .finite s m e =>
    let ds := shortestDigits m e
    let power := ds.exponent + ((toString ds.digits).length - 1 : Nat)
    signText s ++ if 16 ≤ power || power < -4 then scientific ds else positional ds

end Decimal
end ScriptVm
