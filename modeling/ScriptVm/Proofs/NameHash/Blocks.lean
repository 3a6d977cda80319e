import Mathlib.Data.Set.Function
import Mathlib.Tactic.Common
import ScriptVm.Proofs.Bytes.Reading

/-!
# Names that differ in one block

The hash takes in four bytes at a time, and every step on the way can be undone as long as the other
blocks are known. So a difference in one block reaches the end.

* `mul_multiplier_injective` and `xor_shiftRight_injective` are the two kinds of mixing. From
  them come `scramble_injective`, `absorb_injective` and `finish_injective`, one for each part
  of the hash.
* `AgreeOutside` says that two byte sequences of one length differ in one block at most.
* `run_injective` carries a difference through the blocks that follow, `eq_of_run` through
  those before.
* `hash_separates_blocks` is the result.
-/

namespace ScriptVm
namespace NameHash

open Bytes

variable {h k : UInt32} {a b c d : UInt8} {s t : List UInt8} {i : Nat}

/-! ### Mixing -/

/-- The multiplier is odd, so it has an inverse among the words. -/
theorem mul_multiplier_injective : Function.Injective (· * multiplier) := by
  intro x y hxy
  have hunit : multiplier * 0xe59b19bd = 1 := by decide
  have hback := congrArg (· * 0xe59b19bd) hxy
  simpa only [UInt32.mul_assoc, hunit, UInt32.mul_one] using hback

/-- A word that is its own shift is zero. -/
theorem eq_zero_of_shiftRight {x n : UInt32} (hn : 0 < n.toNat % 32) (hx : x >>> n = x) :
    x = 0 := by
  have hnat : x.toNat / 2 ^ (n.toNat % 32) = x.toNat := by
    rw [← Nat.shiftRight_eq_div_pow, ← UInt32.toNat_shiftRight, hx]
  refine UInt32.toNat_inj.1 (Nat.eq_zero_of_not_pos fun hpos => ?_)
  exact Nat.ne_of_lt (Nat.div_lt_self hpos (Nat.one_lt_two_pow hn.ne')) hnat

theorem xor_shiftRight_injective {n : UInt32} (hn : 0 < n.toNat % 32) :
    Function.Injective fun x : UInt32 => x ^^^ (x >>> n) := by
  intro x y hxy
  have hsum : (x ^^^ y) ^^^ ((x ^^^ y) >>> n) = 0 := by
    calc (x ^^^ y) ^^^ ((x ^^^ y) >>> n) = (x ^^^ (x >>> n)) ^^^ (y ^^^ (y >>> n)) := by
          rw [UInt32.shiftRight_xor]
          ac_rfl
      _ = 0 := UInt32.xor_eq_zero_iff.2 hxy
  exact UInt32.xor_eq_zero_iff.1 (eq_zero_of_shiftRight hn (UInt32.xor_eq_zero_iff.1 hsum).symm)

theorem scramble_injective : Function.Injective scramble :=
  mul_multiplier_injective.comp
    ((xor_shiftRight_injective (n := 24) (by decide)).comp mul_multiplier_injective)

theorem finish_injective : Function.Injective finish :=
  (xor_shiftRight_injective (n := 15) (by decide)).comp
    (mul_multiplier_injective.comp (xor_shiftRight_injective (n := 13) (by decide)))

/-- For a known block, the running hash can be had back. -/
theorem absorb_injective (k : UInt32) : Function.Injective (absorb · k) := by
  intro x y hxy
  exact mul_multiplier_injective ((UInt32.xor_left_inj _).1 hxy)

/-- For a known running hash, the block can be had back. -/
theorem absorb_block_injective (h : UInt32) : Function.Injective (absorb h) := by
  intro x y hxy
  exact scramble_injective ((UInt32.xor_right_inj _).1 hxy)

/-! ### The last block -/

theorem word32_inj {a' b' c' d' : UInt8} :
    word32 a b c d = word32 a' b' c' d' ↔ a = a' ∧ b = b' ∧ c = c' ∧ d = d' := by
  constructor
  · intro heq
    have hbytes := congrArg bytes32 heq
    simpa only [bytes32_word32, List.cons.injEq, and_true] using hbytes
  · rintro ⟨rfl, rfl, rfl, rfl⟩
    rfl

/-- The bytes left over do not overlap, so they come together as one word. -/
theorem xor_shiftLeft_eq_word32 (a b c : UInt8) :
    (c.toUInt32 <<< 16) ^^^ (b.toUInt32 <<< 8) ^^^ a.toUInt32 = word32 a b c 0 := by
  refine UInt32.toBitVec_inj.1 ?_
  ext i hi
  have ha : 8 ≤ i → a.toBitVec.getLsbD i = false := BitVec.getLsbD_of_ge _ _
  have hb : 16 ≤ i → b.toBitVec.getLsbD (i - 8) = false := fun h =>
    BitVec.getLsbD_of_ge _ _ (by omega)
  rcases Nat.lt_or_ge i 8 with h8 | h8
  · have h16 : i < 16 := by omega
    simp [word32, h8, h16]
  · rcases Nat.lt_or_ge i 16 with h16 | h16
    · simp [word32, h16, ha h8]
    · simp [word32, ha h8, hb h16]

theorem run_three : run h [a, b, c] = (h ^^^ word32 a b c 0) * multiplier := by
  rw [← xor_shiftLeft_eq_word32, ← UInt32.xor_assoc, ← UInt32.xor_assoc]
  rfl

theorem run_two : run h [a, b] = (h ^^^ word32 a b 0 0) * multiplier := by
  rw [← xor_shiftLeft_eq_word32, ← UInt32.xor_assoc, ← UInt32.xor_assoc]
  simp [run]

theorem run_one : run h [a] = (h ^^^ word32 a 0 0 0) * multiplier := by
  rw [← xor_shiftLeft_eq_word32, ← UInt32.xor_assoc, ← UInt32.xor_assoc]
  simp [run]

/-- What the bytes left over make of the running hash can be undone. -/
theorem close_injective (k : UInt32) :
    Function.Injective fun h : UInt32 => (h ^^^ k) * multiplier := by
  intro x y hxy
  exact (UInt32.xor_left_inj k).1 (mul_multiplier_injective hxy)

/-- For a known running hash, the bytes left over can be had back. -/
theorem close_word_injective (h : UInt32) :
    Function.Injective fun k : UInt32 => (h ^^^ k) * multiplier := by
  intro x y hxy
  exact (UInt32.xor_right_inj h).1 (mul_multiplier_injective hxy)

/-! ### Whole runs -/

/-- For known bytes, the running hash can be had back. -/
theorem run_injective (s : List UInt8) : Function.Injective (run · s) := by
  intro x y hxy
  dsimp only at hxy
  fun_induction run x s generalizing y with
  | case1 h a b c d rest ih => exact absorb_injective _ (ih hxy)
  | case2 h a b c =>
    rw [← run, run_three, run_three] at hxy
    exact close_injective _ hxy
  | case3 h a b =>
    rw [← run, run_two, run_two] at hxy
    exact close_injective _ hxy
  | case4 h a =>
    rw [← run, run_one, run_one] at hxy
    exact close_injective _ hxy
  | case5 h => exact hxy

/-- Two byte sequences of one length have the same bytes outside of block `n`: outside of four bytes
at a multiple of four, or outside of the one to three bytes left over. -/
structure AgreeOutside (n : Nat) (s t : List UInt8) : Prop where
  length : s.length = t.length
  bytes : ∀ i, i / 4 ≠ n → s[i]? = t[i]?

theorem agreeOutside_iff {n : Nat} : AgreeOutside n s t ↔
    s.length = t.length ∧ ∀ i < s.length, i / 4 ≠ n → s[i]? = t[i]? := by
  constructor
  · intro hst
    exact ⟨hst.length, fun i _ => hst.bytes i⟩
  · rintro ⟨hlength, hbytes⟩
    refine ⟨hlength, fun i hi => ?_⟩
    rcases Nat.lt_or_ge i s.length with hlt | hge
    · exact hbytes i hlt hi
    · rw [List.getElem?_eq_none hge, List.getElem?_eq_none (hlength ▸ hge)]

instance (n : Nat) (s t : List UInt8) : Decidable (AgreeOutside n s t) :=
  decidable_of_iff' _ agreeOutside_iff

namespace AgreeOutside

variable {n : Nat} {a' b' c' d' : UInt8}

/-- A difference in the first block leaves all bytes behind it. -/
theorem tail_eq (hst : AgreeOutside 0 (a :: b :: c :: d :: s) (a' :: b' :: c' :: d' :: t)) :
    s = t := by
  refine List.ext_getElem? fun i => ?_
  simpa using hst.bytes (i + 4) (by omega)

/-- A difference in a later block leaves the first. -/
theorem head_eq (hst : AgreeOutside (n + 1) (a :: b :: c :: d :: s) (a' :: b' :: c' :: d' :: t)) :
    a = a' ∧ b = b' ∧ c = c' ∧ d = d' := by
  have hbyte (i : Nat) (hi : i < 4) := hst.bytes i (by omega)
  refine ⟨?_, ?_, ?_, ?_⟩
  · simpa using hbyte 0 (by decide)
  · simpa using hbyte 1 (by decide)
  · simpa using hbyte 2 (by decide)
  · simpa using hbyte 3 (by decide)

theorem tail (hst : AgreeOutside (n + 1) (a :: b :: c :: d :: s) (a' :: b' :: c' :: d' :: t)) :
    AgreeOutside n s t where
  length := by simpa using hst.length
  bytes i hi := by simpa using hst.bytes (i + 4) (by omega)

/-- Up to four bytes are one block. -/
theorem of_short (hlength : s.length = t.length) (hshort : s.length ≤ 4) : AgreeOutside 0 s t :=
  agreeOutside_iff.2 ⟨hlength, fun i hlt hi => absurd (by omega) hi⟩

end AgreeOutside

theorem exists_block (ht : 4 ≤ t.length) : ∃ a b c d rest, t = a :: b :: c :: d :: rest := by
  match t, ht with
  | a :: b :: c :: d :: rest, _ => exact ⟨a, b, c, d, rest, rfl⟩

/-- Bytes of which only one block is unknown can be had back from the hash. -/
theorem eq_of_run {n : Nat} (hst : AgreeOutside n s t) (hrun : run h s = run h t) : s = t := by
  have hlength := hst.length
  fun_induction run h s generalizing n t with
  | case1 h a b c d rest ih =>
    have hblock : 4 ≤ t.length := by simp [← hlength]
    obtain ⟨a', b', c', d', rest', rfl⟩ := exists_block hblock
    cases n with
    | zero =>
      obtain rfl := hst.tail_eq
      obtain ⟨rfl, rfl, rfl, rfl⟩ :=
        word32_inj.1 (absorb_block_injective h (run_injective rest hrun))
      rfl
    | succ n =>
      obtain ⟨rfl, rfl, rfl, rfl⟩ := hst.head_eq
      rw [ih hst.tail hrun hst.tail.length]
  | case2 h a b c =>
    obtain ⟨a', b', c', rfl⟩ := List.length_eq_three.1 hlength.symm
    rw [← run, run_three, run_three] at hrun
    obtain ⟨rfl, rfl, rfl, -⟩ := word32_inj.1 (close_word_injective h hrun)
    rfl
  | case3 h a b =>
    obtain ⟨a', b', rfl⟩ := List.length_eq_two.1 hlength.symm
    rw [← run, run_two, run_two] at hrun
    obtain ⟨rfl, rfl, -⟩ := word32_inj.1 (close_word_injective h hrun)
    rfl
  | case4 h a =>
    obtain ⟨a', rfl⟩ := List.length_eq_one_iff.1 hlength.symm
    rw [← run, run_one, run_one] at hrun
    obtain ⟨rfl, -⟩ := word32_inj.1 (close_word_injective h hrun)
    rfl
  | case5 h => exact (List.eq_nil_of_length_eq_zero hlength.symm).symm

theorem eq_of_murmur {n : Nat} {seed : UInt32} (hst : AgreeOutside n s t)
    (heq : murmur seed s = murmur seed t) : s = t := by
  have hrun := finish_injective heq
  rw [hst.length] at hrun
  exact eq_of_run hst hrun

theorem utf8_injective : Function.Injective utf8 := by
  intro x y hxy
  have hx := ofUtf8?_eq_some_iff.2 (Eq.refl (utf8 x))
  rw [hxy, ofUtf8?_eq_some_iff.2 rfl] at hx
  exact (Option.some.inj hx).symm

/-- **One block.** Byte sequences of one length that differ in one block only have different hashes
under every seed, so a block can be had back from the hash. -/
theorem hash_separates_blocks :
    (∀ seed n s t, AgreeOutside n s t → s ≠ t → murmur seed s ≠ murmur seed t) ∧
      (∀ seed length, length ≤ 4 → Set.InjOn (murmur seed) {s | s.length = length}) ∧
      ∀ n name other, AgreeOutside n (utf8 name) (utf8 other) → name ≠ other →
        hashName name ≠ hashName other := by
  refine ⟨fun seed n s t hst hne heq => hne (eq_of_murmur hst heq), ?short, ?names⟩
  case short =>
    intro seed length hlength s (hs : s.length = length) t (ht : t.length = length) heq
    exact eq_of_murmur (.of_short (hs.trans ht.symm) (hs.trans_le hlength)) heq
  case names =>
    intro n name other hst hne heq
    exact hne (utf8_injective (eq_of_murmur hst heq))

/-- Doors whose names differ inside of the second block of four, and turrets whose names differ in
the three bytes left over. -/
theorem hash_separates_blocks_doors :
    AgreeOutside 1 (utf8 "Door12Open") (utf8 "Door34Open") ∧
      murmur 0 (utf8 "Door12Open") ≠ murmur 0 (utf8 "Door34Open") ∧
      AgreeOutside 1 (utf8 "Turret7") (utf8 "Turret8") ∧
      hashName "Turret7" ≠ hashName "Turret8" := by
  have hdoors : AgreeOutside 1 (utf8 "Door12Open") (utf8 "Door34Open") := by decide +kernel
  have hturrets : AgreeOutside 1 (utf8 "Turret7") (utf8 "Turret8") := by decide +kernel
  exact ⟨hdoors, hash_separates_blocks.1 0 1 _ _ hdoors (by decide +kernel), hturrets,
    hash_separates_blocks.2.2 1 _ _ hturrets (by decide)⟩

end NameHash
end ScriptVm
