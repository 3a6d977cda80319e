import Mathlib.Tactic.Common
import ScriptVm.Decimal

/-!
# Decimals that are zero

Two decimals compare as zero, and the integer that is made into one of them is zero.

* `Blank` are the bits of the two zeros, by their fields. `unpack_cases` is what the others are read
  as.
* `blank_pack_unpack` says that a decimal which is read and stored is a zero only if it was one.
* `Decimal.isZero_iff` and `Decimal.isZero_ofInt32` are the two results.
-/

namespace ScriptVm

open Float.Model

/-! ### Zeros by their bits -/

/-- The exponent and the mantissa of a decimal are zero. -/
def Blank (b : BitVec 32) : Prop :=
  @UnpackedFloat.unpackExponent Format.binary32 b = 0 ∧
    @UnpackedFloat.unpackMantissa Format.binary32 b = 0

theorem blank_iff {b : BitVec 32} : Blank b ↔ b = 0 ∨ b = 0x80000000#32 := by
  have hb := b.isLt
  simp only [Blank, UnpackedFloat.unpackExponent, UnpackedFloat.unpackMantissa,
    ← BitVec.toNat_inj, BitVec.toNat_cast, BitVec.extractLsb_toNat, Nat.shiftRight_eq_div_pow]
  simp only [BitVec.ofNat_eq_ofNat, BitVec.toNat_ofNat]
  omega

@[simp] theorem blank_packComponents {s : UnpackedFloat.Sign} {e : BitVec 8} {m : BitVec 23} :
    Blank (UnpackedFloat.packComponents Format.binary32 s e m) ↔ e = 0 ∧ m = 0 := by
  unfold Blank
  rw [UnpackedFloat.unpackExponent_packComponents, UnpackedFloat.unpackMantissa_packComponents]

/-- A decimal is read as a zero if its fields are zero. Otherwise it is read as no number at all or
as one whose last place is one of a decimal. -/
theorem unpack_cases (b : BitVec 32) :
    (Blank b ∧ ∃ s, UnpackedFloat.unpack Format.binary32 b = .zero s) ∨
      ¬ Blank b ∧ ((∃ s, UnpackedFloat.unpack Format.binary32 b = .infinity s) ∨
        UnpackedFloat.unpack Format.binary32 b = .notANumber ∨
          ∃ s m e hm, UnpackedFloat.unpack Format.binary32 b = .finite s m e hm ∧
            m < 16777216 ∧ -149 ≤ e) := by
  have hbias : Format.binary32.exponentBias = 127 := by decide
  have hbits : Format.binary32.mantissaBitsWithoutImplicit = 23 := by decide
  by_cases hall : @UnpackedFloat.unpackExponent Format.binary32 b = -1#8
  · have hb : ¬ Blank b := fun h => absurd (hall.symm.trans h.1) (by decide)
    refine Or.inr ⟨hb, ?_⟩
    by_cases hm : @UnpackedFloat.unpackMantissa Format.binary32 b = 0
    · exact Or.inl ⟨_, (if_pos hall).trans (if_pos hm)⟩
    · exact Or.inr (Or.inl ((if_pos hall).trans (if_neg hm)))
  · by_cases he : @UnpackedFloat.unpackExponent Format.binary32 b = 0
    · by_cases hm : @UnpackedFloat.unpackMantissa Format.binary32 b = 0
      · exact Or.inl ⟨⟨he, hm⟩, _, (if_neg hall).trans ((if_pos he).trans (dif_pos hm))⟩
      · refine Or.inr ⟨fun h => hm h.2, Or.inr (Or.inr ⟨_, _, _, _,
          (if_neg hall).trans ((if_pos he).trans (dif_neg hm)), ?_, ?_⟩)⟩
        · exact Nat.lt_trans (BitVec.isLt _) (by decide)
        · rw [he, hbias]
          decide
    · refine Or.inr ⟨fun h => he h.1, Or.inr (Or.inr ⟨_, _, _, _,
        (if_neg hall).trans (if_neg he), BitVec.isLt _, ?_⟩)⟩
      have hpos : 0 < (@UnpackedFloat.unpackExponent Format.binary32 b).toNat :=
        (BitVec.toNat_pos _).2 ((BitVec.pos_iff_ne_zero _).2 he)
      rw [hbias, hbits]
      omega

theorem unpack_eq_zero_iff {b : BitVec 32} :
    (∃ s, UnpackedFloat.unpack Format.binary32 b = .zero s) ↔ Blank b := by
  rcases unpack_cases b with ⟨hb, hzero⟩ | ⟨hb, ⟨_, h⟩ | h | ⟨_, _, _, _, h, -⟩⟩
  · exact iff_of_true hzero hb
  all_goals
    refine iff_of_false ?_ hb
    rw [h]
    rintro ⟨_, ⟨⟩⟩

theorem beq_zero_iff {u : UnpackedFloat} : u.beq (.zero .positive) = true ↔ ∃ s, u = .zero s := by
  cases u with
  | infinity s => exact iff_of_false (by cases s <;> decide) (by rintro ⟨_, ⟨⟩⟩)
  | notANumber => exact iff_of_false (by decide) (by rintro ⟨_, ⟨⟩⟩)
  | zero s => exact iff_of_true rfl ⟨s, rfl⟩
  | finite s m e h =>
    exact iff_of_false (by cases s <;> exact Bool.false_ne_true) (by rintro ⟨_, ⟨⟩⟩)

/-! ### Storing what was read -/

theorem not_blank_packedInfinity (s : UnpackedFloat.Sign) :
    ¬ Blank (UnpackedFloat.packedInfinity Format.binary32 s) := by
  unfold UnpackedFloat.packedInfinity
  rw [blank_packComponents]
  exact fun h => absurd h.1 (by decide)

/-- A number whose last place is one of a decimal is not stored as a zero: the exponent is kept with
the implicit bit, the mantissa without it. -/
theorem not_blank_pack_finite {s : UnpackedFloat.Sign} {m : Nat} {e : Int} (hm : 0 < m)
    (hlt : m < 16777216) (he : -149 ≤ e) :
    ¬ Blank (UnpackedFloat.pack Format.binary32 (.finite s m e hm)) := by
  have hbias : Format.binary32.exponentBias = 127 := by decide
  have hbits : Format.binary32.mantissaBits = 24 := by decide
  unfold UnpackedFloat.pack
  dsimp only
  rw [hbias, hbits]
  split
  · exact not_blank_packedInfinity s
  · rename_i hfits
    split
    · intro h
      have hexponent := congrArg BitVec.toNat (blank_packComponents.1 h).1
      rw [BitVec.toNat_ofNat] at hexponent
      simp only [BitVec.ofNat_eq_ofNat, BitVec.toNat_ofNat] at hexponent
      omega
    · rename_i hlog
      intro h
      have hmantissa := congrArg BitVec.toNat (blank_packComponents.1 h).2
      have hlog' : m.log2 < 24 := (Nat.log2_lt (by omega)).2 hlt
      have hsmall : m < 2 ^ 23 := (Nat.log2_lt (by omega)).1 (by omega)
      rw [BitVec.toNat_ofNat, Nat.mod_eq_of_lt hsmall] at hmantissa
      simp only [BitVec.ofNat_eq_ofNat, BitVec.toNat_ofNat] at hmantissa
      omega

theorem blank_pack_unpack {b : BitVec 32} : Blank (UnpackedFloat.pack Format.binary32
    (UnpackedFloat.unpack Format.binary32 b)) ↔ Blank b := by
  rcases unpack_cases b with ⟨hb, _, h⟩ | ⟨hb, ⟨_, h⟩ | h | ⟨_, _, _, hm, h, hlt, he⟩⟩
  · rw [h]
    exact iff_of_true (blank_packComponents.2 ⟨rfl, rfl⟩) hb
  · rw [h]
    exact iff_of_false (not_blank_packedInfinity _) hb
  · rw [h]
    exact iff_of_false (fun h => absurd (blank_packComponents.1 h).1 (by decide)) hb
  · rw [h]
    exact iff_of_false (not_blank_pack_finite hm hlt he) hb

/-! ### Decimals -/

namespace Decimal

theorem isZero_eq (d : Decimal) : d.isZero =
    (UnpackedFloat.unpack Format.binary32 (UnpackedFloat.pack Format.binary32
      (UnpackedFloat.unpack Format.binary32 d.bits.toBitVec))).beq (.zero .positive) := by
  rfl

/-- The decimals that compare as zero are the two zeros. -/
theorem isZero_iff {d : Decimal} : d.isZero = true ↔ d = zero false ∨ d = zero true := by
  obtain ⟨bits⟩ := d
  rw [isZero_eq, beq_zero_iff, unpack_eq_zero_iff, blank_pack_unpack, blank_iff]
  simp only [zero, Decimal.mk.injEq, ← UInt32.toBitVec_inj]
  rfl

/-- A magnitude with a sign is a zero only if it is none. -/
theorem magnitude_ne_zero {k : Nat} (hk : 0 < k) (hlt : k < 2147483648) (s s' : Bool) :
    (⟨k.toUInt32 ||| (zero s).bits⟩ : Decimal) ≠ zero s' := by
  have hnat : k.toUInt32.toNat = k := by
    rw [Nat.toUInt32_eq, UInt32.toNat_ofNat']
    exact Nat.mod_eq_of_lt (Nat.lt_trans hlt (by decide))
  have hpow : k < 2 ^ 31 := by omega
  have hor : 2 ^ 31 ||| k = 2 ^ 31 + k := by
    simpa using (Nat.two_pow_add_eq_or_of_lt hpow 1).symm
  intro h
  have hbits := congrArg (fun d => d.bits.toNat) h
  simp only [UInt32.toNat_or, hnat] at hbits
  cases s with
  | false =>
    have hzero : (zero false).bits.toNat = 0 := rfl
    rw [hzero, Nat.or_zero] at hbits
    cases s' with
    | false => exact absurd hbits (Nat.ne_of_gt hk)
    | true => exact absurd hbits (Nat.ne_of_lt hlt)
  | true =>
    have hsign : (zero true).bits.toNat = 2 ^ 31 := rfl
    rw [hsign, Nat.or_comm, hor] at hbits
    cases s' with
    | false => exact absurd hbits (Nat.ne_of_gt (Nat.add_pos_left (Nat.two_pow_pos 31) k))
    | true =>
      rw [hsign] at hbits
      omega

/-- A number with a last place above the least one is not rounded to a zero. -/
theorem not_isZero_ofDyadic {negative : Bool} {m : Nat} {e : Int} (hm : m ≠ 0)
    (hplace : -149 < lastPlace m e) : (ofDyadic negative m e).isZero = false := by
  rw [Bool.eq_false_iff, Ne, isZero_iff]
  have hzero : ∀ s', ofDyadic negative m e ≠ zero s' := by
    intro s'
    unfold ofDyadic
    rw [if_neg hm]
    dsimp only
    generalize (if lastPlace m e ≤ e then _ else _ : Nat) = significand
    split
    · cases negative <;> cases s' <;> decide
    · rename_i hlt
      have hexponent : 1 ≤ (lastPlace m e + 149).toNat := by omega
      have hpos : 1 * twoTo 23 ≤ (lastPlace m e + 149).toNat * twoTo 23 :=
        Nat.mul_le_mul_right _ hexponent
      refine magnitude_ne_zero ?_ ?_ negative s'
      · exact Nat.lt_of_lt_of_le (by decide) (Nat.le_add_right_of_le hpos)
      · omega
  exact not_or.2 ⟨hzero false, hzero true⟩

/-- The integer zero is the only one that is a zero as a decimal. -/
theorem isZero_ofInt32 {n : Int32} : (ofInt32 n).isZero = true ↔ n = 0 := by
  constructor
  · intro h
    by_contra hn
    have hm : n.toInt.natAbs ≠ 0 := fun h => hn (Int32.toInt_inj.1 (Int.natAbs_eq_zero.1 h))
    have hplace : -149 < lastPlace n.toInt.natAbs 0 := by
      unfold lastPlace
      omega
    exact absurd h (Bool.eq_false_iff.1 (not_isZero_ofDyadic hm hplace))
  · rintro rfl
    exact isZero_iff.2 (Or.inl rfl)

end Decimal
end ScriptVm
