import Mathlib.Data.Int.ModEq
import ScriptVm.Arithmetic

/-!
# Integers of scripts

What the operations on integers give, said of the exact numbers.

* `Opcode.Computes` and `Opcode.ComputesOne` are the results of the operations on two integers and
  on one: sums, differences, products and quotients modulo 2³², shifts by the count modulo 32, bits
  one by one, and one or zero for relations.
* `BinaryOp.onIntegers_computes` and `UnaryOp.onInteger_computes` say that scripts get it.
-/

namespace ScriptVm

variable {x y z : Int32}

/-! ### Exact results -/

/-- A bit of an integer in two's complement. -/
def bitOf (n : Int32) (i : Nat) : Bool := n.toBitVec.getLsbD i

/-- The places that a count shifts by. -/
def shiftPlaces (n : Int32) : Nat := (n.toInt % 32).toNat

namespace Opcode

/-- The integer that an operation on two integers gives; divisors are not zero. -/
def Computes : Opcode → Int32 → Int32 → Int32 → Prop
  | .add, x, y, z => z.toInt ≡ x.toInt + y.toInt [ZMOD 2 ^ 32]
  | .subtract, x, y, z => z.toInt ≡ x.toInt - y.toInt [ZMOD 2 ^ 32]
  | .multiply, x, y, z => z.toInt ≡ x.toInt * y.toInt [ZMOD 2 ^ 32]
  | .divide, x, y, z => y ≠ 0 ∧ z.toInt ≡ x.toInt.tdiv y.toInt [ZMOD 2 ^ 32]
  | .modulo, x, y, z => y ≠ 0 ∧ z.toInt = x.toInt.tmod y.toInt
  | .bitshiftLeft, x, y, z => z.toInt ≡ x.toInt * 2 ^ shiftPlaces y [ZMOD 2 ^ 32]
  | .bitshiftRight, x, y, z => z.toInt = x.toInt / 2 ^ shiftPlaces y
  | .bitAnd, x, y, z => ∀ i < 32, bitOf z i = (bitOf x i && bitOf y i)
  | .bitOr, x, y, z => ∀ i < 32, bitOf z i = (bitOf x i || bitOf y i)
  | .bitXor, x, y, z => ∀ i < 32, bitOf z i = (bitOf x i ^^ bitOf y i)
  | .logicalAnd, x, y, z => z = if x.toInt ≠ 0 ∧ y.toInt ≠ 0 then 1 else 0
  | .logicalOr, x, y, z => z = if x.toInt ≠ 0 ∨ y.toInt ≠ 0 then 1 else 0
  | .less, x, y, z => z = if x.toInt < y.toInt then 1 else 0
  | .greater, x, y, z => z = if x.toInt > y.toInt then 1 else 0
  | .lessEqual, x, y, z => z = if x.toInt ≤ y.toInt then 1 else 0
  | .greaterEqual, x, y, z => z = if x.toInt ≥ y.toInt then 1 else 0
  | _, _, _, _ => False

/-- The integer that an operation on one integer gives. -/
def ComputesOne : Opcode → Int32 → Int32 → Prop
  | .negate, x, z => z.toInt ≡ -x.toInt [ZMOD 2 ^ 32]
  | .increment, x, z => z.toInt ≡ x.toInt + 1 [ZMOD 2 ^ 32]
  | .decrement, x, z => z.toInt ≡ x.toInt - 1 [ZMOD 2 ^ 32]
  | .bitNot, x, z => ∀ i < 32, bitOf z i = !bitOf x i
  | .logicalNot, x, z => z = if x.toInt = 0 then 1 else 0
  | _, _, _ => False

end Opcode

/-! ### Words -/

theorem modEq_of_bmod {k n : Int} (h : k = n.bmod (2 ^ 32)) : k ≡ n [ZMOD 2 ^ 32] := by
  rw [h]
  exact Int.bmod_emod

theorem toInt_eq_zero_iff : x.toInt = 0 ↔ x = 0 := Int32.toInt_inj (y := 0)

/-- Negative counts shift by what is left of them over a multiple of 32. -/
theorem toNat_smod_32 (y : Int32) : (y.toBitVec.smod 32).toNat = shiftPlaces y := by
  have hcount : (y.toBitVec.smod 32).toInt = y.toInt % 32 := by
    rw [BitVec.toInt_smod, Int.fmod_eq_emod_of_nonneg _ (by decide)]
    rfl
  have hlt := (y.toBitVec.smod 32).isLt
  unfold shiftPlaces
  rw [BitVec.toInt_eq_toNat_cond] at hcount
  split at hcount
  · omega
  · omega

theorem shiftLeft_modEq (x y : Int32) :
    (x <<< y).toInt ≡ x.toInt * 2 ^ shiftPlaces y [ZMOD 2 ^ 32] := by
  have hshift : (x <<< y).toInt =
      ((x.toBitVec.toNat <<< (y.toBitVec.smod 32).toNat : Nat) : Int).bmod (2 ^ 32) :=
    BitVec.toInt_shiftLeft
  have hword : (x.toBitVec.toNat : Int) ≡ x.toInt [ZMOD 2 ^ 32] := by
    rw [← Int32.toInt_toBitVec, BitVec.toInt_eq_toNat_bmod]
    exact (modEq_of_bmod rfl).symm
  rw [toNat_smod_32, Nat.shiftLeft_eq, Nat.cast_mul, Nat.cast_pow] at hshift
  exact (modEq_of_bmod hshift).trans (hword.mul_right _)

theorem toInt_shiftRight (x y : Int32) : (x >>> y).toInt = x.toInt / 2 ^ shiftPlaces y := by
  have hshift : (x >>> y).toInt = x.toInt >>> (y.toBitVec.smod 32).toNat :=
    BitVec.toInt_sshiftRight'
  rw [hshift, toNat_smod_32, Int.shiftRight_eq_div_pow]
  norm_cast

/-- The quotient times the divisor and the remainder make the dividend, also where the quotient is
out of range. -/
theorem div_mul_add_mod_modEq (x y : Int32) :
    (x / y).toInt * y.toInt + (x % y).toInt ≡ x.toInt [ZMOD 2 ^ 32] := by
  have hdiv : (x / y).toInt ≡ x.toInt.tdiv y.toInt [ZMOD 2 ^ 32] :=
    modEq_of_bmod (Int32.toInt_div x y)
  calc (x / y).toInt * y.toInt + (x % y).toInt
      ≡ x.toInt.tdiv y.toInt * y.toInt + (x % y).toInt [ZMOD 2 ^ 32] :=
      (hdiv.mul_right _).add_right _
    _ = x.toInt := by rw [Int32.toInt_mod, Int.tdiv_mul_add_tmod]

/-! ### Operations -/

/-- Two integers are refused for a division by zero only; other operations give the exact result. -/
theorem BinaryOp.onIntegers_computes {code : Opcode} {op : BinaryOp}
    (hop : BinaryOp.ofOpcode? code = some op)
    (hzero : code = .divide ∨ code = .modulo → y ≠ 0) :
    ∃ z, op.onIntegers x y = .ok (.integer z) ∧ code.Computes x y z := by
  cases code with
  | add =>
    cases hop
    exact ⟨x + y, rfl, modEq_of_bmod (Int32.toInt_add x y)⟩
  | subtract =>
    cases hop
    exact ⟨x - y, rfl, modEq_of_bmod (Int32.toInt_sub x y)⟩
  | multiply =>
    cases hop
    exact ⟨x * y, rfl, modEq_of_bmod (Int32.toInt_mul x y)⟩
  | divide =>
    cases hop
    have hy := hzero (Or.inl rfl)
    exact ⟨x / y, if_neg hy, hy, modEq_of_bmod (Int32.toInt_div x y)⟩
  | modulo =>
    cases hop
    have hy := hzero (Or.inr rfl)
    exact ⟨x % y, if_neg hy, hy, Int32.toInt_mod x y⟩
  | bitshiftLeft =>
    cases hop
    exact ⟨x <<< y, rfl, shiftLeft_modEq x y⟩
  | bitshiftRight =>
    cases hop
    exact ⟨x >>> y, rfl, toInt_shiftRight x y⟩
  | bitAnd =>
    cases hop
    exact ⟨x &&& y, rfl, fun i hi => BitVec.getLsbD_and⟩
  | bitOr =>
    cases hop
    exact ⟨x ||| y, rfl, fun i hi => BitVec.getLsbD_or⟩
  | bitXor =>
    cases hop
    exact ⟨x ^^^ y, rfl, fun i hi => BitVec.getLsbD_xor⟩
  | logicalAnd | logicalOr =>
    cases hop
    refine ⟨_, rfl, ?_⟩
    simp [Opcode.Computes, toInt_eq_zero_iff]
  | less | greater =>
    cases hop
    refine ⟨_, rfl, ?_⟩
    simp [Opcode.Computes, Int32.lt_iff_toInt_lt]
  | lessEqual | greaterEqual =>
    cases hop
    refine ⟨_, rfl, ?_⟩
    simp [Opcode.Computes, Int32.le_iff_toInt_le]
  | _ => cases hop

theorem UnaryOp.onInteger_computes {code : Opcode} {op : UnaryOp}
    (hop : UnaryOp.ofOpcode? code = some op) :
    ∃ z, op.onInteger x = .integer z ∧ code.ComputesOne x z := by
  cases code with
  | negate =>
    cases hop
    exact ⟨-x, rfl, modEq_of_bmod (Int32.toInt_neg x)⟩
  | increment =>
    cases hop
    exact ⟨x + 1, rfl, modEq_of_bmod (Int32.toInt_add x 1)⟩
  | decrement =>
    cases hop
    exact ⟨x - 1, rfl, modEq_of_bmod (Int32.toInt_sub x 1)⟩
  | bitNot =>
    cases hop
    refine ⟨~~~x, rfl, fun i hi => ?_⟩
    unfold bitOf
    rw [Int32.toBitVec_not, BitVec.getLsbD_not, decide_eq_true hi, Bool.true_and]
  | logicalNot =>
    cases hop
    refine ⟨_, rfl, ?_⟩
    simp [Opcode.ComputesOne, toInt_eq_zero_iff]
  | _ => cases hop

end ScriptVm
