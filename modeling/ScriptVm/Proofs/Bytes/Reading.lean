import Mathlib.Data.List.Forall2
import Mathlib.Data.Nat.Bitwise
import Mathlib.Tactic.Common
import ScriptVm.Container

/-!
# What decoders read

A decoder is described by the forms in which its results stand in a file.

* `word32_bytes32`, `bytes32_word32` and `ofUtf8?_eq_some_iff` are the two directions between
  numbers or texts and their bytes.
* `Reads d W` says that the decoder `d` gives a result exactly where the bytes left begin with one
  of its forms, and takes that form and nothing else. So one statement is both about what is
  accepted and about what is written.
* `reads_bind` puts formats one after the other, `reads_times` repeats one.
-/

namespace ScriptVm

namespace Bytes

/-! ### Words -/

/-- Joining bits that do not overlap is adding. -/
theorem or_shiftLeft_of_lt {a k : Nat} (ha : a < 2 ^ k) (b : Nat) :
    a ||| b <<< k = a + b * 2 ^ k := by
  rw [Nat.lor_comm, ← Nat.shiftLeft_add_eq_or_of_lt ha, Nat.shiftLeft_eq, Nat.add_comm]

theorem toNat_word32 (a b c d : UInt8) :
    (word32 a b c d).toNat = a.toNat + b.toNat * 2 ^ 8 + c.toNat * 2 ^ 16 + d.toNat * 2 ^ 24 := by
  have ha := a.toNat_lt
  have hb := b.toNat_lt
  have hc := c.toNat_lt
  have hd := d.toNat_lt
  have hfits : ∀ k ≤ 24, ∀ n < 2 ^ 8, n <<< k % 2 ^ 32 = n <<< k := by
    intro k hk n hn
    refine Nat.mod_eq_of_lt ?_
    calc n <<< k = n * 2 ^ k := Nat.shiftLeft_eq n k
      _ < 2 ^ 8 * 2 ^ k := Nat.mul_lt_mul_of_pos_right hn (Nat.two_pow_pos k)
      _ ≤ 2 ^ 8 * 2 ^ 24 := Nat.mul_le_mul_left _ (Nat.pow_le_pow_right (by decide) hk)
      _ = 2 ^ 32 := by decide
  simp only [word32, UInt32.toNat_or, UInt32.toNat_shiftLeft, UInt8.toNat_toUInt32,
    UInt32.reduceToNat, Nat.reduceMod]
  rw [hfits 8 (by decide) _ hb, hfits 16 (by decide) _ hc, hfits 24 (by decide) _ hd,
    or_shiftLeft_of_lt ha]
  rw [or_shiftLeft_of_lt (a := a.toNat + b.toNat * 2 ^ 8) (by omega)]
  rw [or_shiftLeft_of_lt (by omega)]

/-- Taking a word apart and putting it together. -/
theorem word32_bytes32 (n : UInt32) :
    word32 n.toUInt8 (n >>> 8).toUInt8 (n >>> 16).toUInt8 (n >>> 24).toUInt8 = n := by
  have hn := n.toNat_lt
  refine UInt32.toNat_inj.1 ?_
  simp only [toNat_word32, UInt32.toNat_toUInt8, UInt32.toNat_shiftRight, UInt32.reduceToNat,
    Nat.reduceMod, Nat.shiftRight_eq_div_pow]
  omega

/-- Taking a short word apart and putting it together. -/
theorem word16_bytes16 (n : UInt16) : word16 n.toUInt8 (n >>> 8).toUInt8 = n := by
  have hn := n.toNat_lt
  refine UInt16.toNat_inj.1 ?_
  simp only [word16, UInt16.toNat_or, UInt16.toNat_shiftLeft, UInt8.toNat_toUInt16,
    UInt16.toNat_toUInt8, UInt16.toNat_shiftRight, UInt16.reduceToNat, Nat.reduceMod,
    Nat.shiftRight_eq_div_pow]
  rw [Nat.mod_eq_of_lt (a := (n.toNat / 2 ^ 8 % 2 ^ 8) <<< 8) (by rw [Nat.shiftLeft_eq]; omega),
    or_shiftLeft_of_lt (by omega)]
  omega

/-- Putting a word together and taking it apart. -/
theorem bytes32_word32 (a b c d : UInt8) : bytes32 (word32 a b c d) = [a, b, c, d] := by
  have ha := a.toNat_lt
  have hb := b.toNat_lt
  have hc := c.toNat_lt
  have hd := d.toNat_lt
  simp only [bytes32, List.cons.injEq, and_true, ← UInt8.toNat_inj, UInt32.toNat_toUInt8,
    UInt32.toNat_shiftRight, UInt32.reduceToNat, Nat.reduceMod, Nat.shiftRight_eq_div_pow,
    toNat_word32]
  omega

/-! ### Texts -/

/-- Bytes spell a text if they are its bytes. -/
theorem ofUtf8?_eq_some_iff {bytes : List UInt8} {s : String} :
    ofUtf8? bytes = some s ↔ bytes = utf8 s := by
  unfold ofUtf8? utf8 String.fromUTF8?
  constructor
  · intro h
    split at h
    · cases h
      rfl
    · cases h
  · rintro rfl
    rw [dif_pos s.isValidUTF8]
    rfl

end Bytes

namespace Decoder

variable {α β : Type} {d : Decoder α} {f : α → Decoder β} {W V : α → List UInt8 → Prop}
  {U : α → β → List UInt8 → Prop} {c c' : Cursor}

/-- A decoder gives a result exactly where the bytes left begin with one of its forms, and takes
these bytes. -/
def Reads (d : Decoder α) (W : α → List UInt8 → Prop) : Prop :=
  ∀ (c c' : Cursor) (a : α), d c = .ok (a, c') ↔
    ∃ w, W a w ∧ c.rest = w ++ c'.rest ∧ c'.offset = c.offset + w.length

/-- The same forms said otherwise. -/
theorem Reads.congr (hd : d.Reads W) (hw : ∀ a w, W a w ↔ V a w) : d.Reads V := by
  intro c c' a
  simp only [hd c c' a, hw]

/-! ### Rules -/

theorem bind_eq_ok {b : β} : (d >>= f) c = .ok (b, c') ↔
    ∃ a c₁, d c = .ok (a, c₁) ∧ f a c₁ = .ok (b, c') := by
  show StateT.bind d f c = _ ↔ _
  unfold StateT.bind
  cases hrun : d c with
  | error e => simp [bind, Except.bind]
  | ok r =>
    obtain ⟨a, c₁⟩ := r
    simp [bind, Except.bind]

theorem reads_pure (a : α) : Reads (pure a) fun b w => b = a ∧ w = [] := by
  intro c c' b
  show (Except.ok (a, c) : Except FormatError _) = .ok (b, c') ↔ _
  obtain ⟨offset, rest⟩ := c
  obtain ⟨offset', rest'⟩ := c'
  simp only [Except.ok.injEq, Prod.mk.injEq, Cursor.mk.injEq]
  constructor
  · rintro ⟨rfl, rfl, rfl⟩
    exact ⟨[], ⟨rfl, rfl⟩, rfl, rfl⟩
  · rintro ⟨w, ⟨rfl, rfl⟩, hrest, hoffset⟩
    exact ⟨rfl, hoffset.symm, hrest⟩

theorem reads_fail (e : FormatError) : Reads (fail e : Decoder α) fun _ _ => False := by
  intro c c' a
  simp [fail]

/-- A condition under which nothing is accepted. -/
theorem reads_unless (hd : d.Reads W) (p : Prop) [Decidable p] (e : FormatError) :
    Reads (if p then fail e else d) fun a w => ¬ p ∧ W a w := by
  split
  · rename_i hp
    exact (reads_fail e).congr fun a w => ⟨False.elim, fun h => h.1 hp⟩
  · rename_i hp
    exact hd.congr fun a w => ⟨fun h => ⟨hp, h⟩, fun h => h.2⟩

/-- One format after another; the second may depend on what was read. -/
theorem reads_bind (hd : d.Reads W) (hf : ∀ a, (f a).Reads (U a)) :
    (d >>= f).Reads fun b w => ∃ a u v, W a u ∧ U a b v ∧ w = u ++ v := by
  intro c c' b
  rw [bind_eq_ok]
  constructor
  · rintro ⟨a, c₁, hrun, hnext⟩
    obtain ⟨u, hu, hrest, hoffset⟩ := (hd c c₁ a).1 hrun
    obtain ⟨v, hv, hrest', hoffset'⟩ := (hf a c₁ c' b).1 hnext
    refine ⟨u ++ v, ⟨a, u, v, hu, hv, rfl⟩, ?_, ?_⟩
    · rw [hrest, hrest', List.append_assoc]
    · rw [hoffset', hoffset, List.length_append, Nat.add_assoc]
  · rintro ⟨w, ⟨a, u, v, hu, hv, rfl⟩, hrest, hoffset⟩
    refine ⟨a, ⟨c.offset + u.length, v ++ c'.rest⟩, ?_, ?_⟩
    · exact (hd c _ a).2 ⟨u, hu, by rw [hrest, List.append_assoc], rfl⟩
    · refine (hf a _ c' b).2 ⟨v, hv, rfl, ?_⟩
      rw [hoffset, List.length_append, Nat.add_assoc]

/-- The position is known without taking anything. -/
theorem reads_offset_bind {f : Nat → Decoder β} {U : β → List UInt8 → Prop}
    (hf : ∀ n, (f n).Reads U) : (offset >>= f).Reads U := by
  intro c c' b
  exact hf c.offset c c' b

/-- A value made from what was read. -/
theorem reads_return (hd : d.Reads W) (g : α → β) :
    (d >>= fun a => pure (g a)).Reads fun b w => ∃ a, W a w ∧ b = g a := by
  refine (reads_bind hd fun a => reads_pure (g a)).congr fun b w => ?_
  constructor
  · rintro ⟨a, u, v, hu, ⟨rfl, rfl⟩, rfl⟩
    exact ⟨a, by rwa [List.append_nil], rfl⟩
  · rintro ⟨a, hw, rfl⟩
    exact ⟨a, w, [], hw, ⟨rfl, rfl⟩, (List.append_nil w).symm⟩

theorem reads_map (hd : d.Reads W) (g : α → β) :
    (g <$> d).Reads fun b w => ∃ a, W a w ∧ b = g a := by
  rw [← bind_pure_comp]
  exact reads_return hd g

/-! ### Bytes and words -/

theorem split_eq_some {n : Nat} {taken rest bytes rest' : List UInt8} :
    split n taken rest = some (bytes, rest') ↔
      ∃ w, w.length = n ∧ bytes = taken.reverse ++ w ∧ rest = w ++ rest' := by
  induction n generalizing taken rest with
  | zero =>
    simp only [split, Option.some.injEq, Prod.mk.injEq, List.length_eq_zero_iff]
    constructor
    · rintro ⟨rfl, rfl⟩
      exact ⟨[], rfl, by simp, rfl⟩
    · rintro ⟨w, rfl, rfl, rfl⟩
      exact ⟨by simp, rfl⟩
  | succ n ih =>
    cases rest with
    | nil =>
      simp only [split, reduceCtorEq, false_iff]
      rintro ⟨w, hlength, -, hrest⟩
      have hnil := (List.append_eq_nil_iff.1 hrest.symm).1
      rw [hnil] at hlength
      cases hlength
    | cons b rest =>
      simp only [split, ih, List.reverse_cons]
      constructor
      · rintro ⟨w, rfl, rfl, rfl⟩
        exact ⟨b :: w, rfl, by simp, rfl⟩
      · rintro ⟨w, hlength, rfl, hrest⟩
        cases w with
        | nil => cases hlength
        | cons b' w =>
          cases hrest
          exact ⟨w, Nat.succ.inj hlength, by simp, rfl⟩

theorem reads_take (n : Nat) : (take n).Reads fun bytes w => w = bytes ∧ bytes.length = n := by
  rintro ⟨offset, rest⟩ ⟨offset', rest'⟩ bytes
  unfold take
  constructor
  · intro h
    split at h
    · rename_i taken left hsplit
      cases h
      obtain ⟨w, hlength, hbytes, hrest⟩ := split_eq_some.1 hsplit
      exact ⟨w, ⟨hbytes.symm, hbytes ▸ hlength⟩, hrest, by rw [hlength]⟩
    · cases h
  · rintro ⟨w, ⟨rfl, hlength⟩, hrest, rfl⟩
    have hsplit : split n [] rest = some (w, rest') := split_eq_some.2 ⟨w, hlength, rfl, hrest⟩
    simp only [hsplit, hlength]

theorem reads_byte : byte.Reads fun b w => w = [b] := by
  rintro ⟨offset, rest⟩ ⟨offset', rest'⟩ b
  unfold byte
  cases rest with
  | nil => simp
  | cons b' rest =>
    simp only [Except.ok.injEq, Prod.mk.injEq, Cursor.mk.injEq]
    constructor
    · rintro ⟨rfl, rfl, rfl⟩
      exact ⟨[b'], rfl, rfl, rfl⟩
    · rintro ⟨w, rfl, hrest, rfl⟩
      cases hrest
      exact ⟨rfl, rfl, rfl⟩

theorem reads_word : word.Reads fun n w => w = Bytes.bytes32 n := by
  rintro ⟨offset, rest⟩ ⟨offset', rest'⟩ n
  unfold word
  constructor
  · intro h
    split at h
    · rename_i b0 b1 b2 b3 left hrest
      cases h
      exact ⟨[b0, b1, b2, b3], (Bytes.bytes32_word32 b0 b1 b2 b3).symm, hrest, rfl⟩
    · cases h
  · rintro ⟨w, rfl, hrest, hoffset⟩
    dsimp only at hrest hoffset
    subst hrest hoffset
    show Except.ok (Bytes.word32 _ _ _ _, _) = _
    rw [Bytes.word32_bytes32]
    rfl

theorem reads_signedWord : signedWord.Reads fun n w => w = Bytes.bytes32 n.toUInt32 := by
  refine (reads_return reads_word UInt32.toInt32).congr fun n w => ?_
  constructor
  · rintro ⟨m, rfl, rfl⟩
    rw [UInt32.toUInt32_toInt32]
  · rintro rfl
    exact ⟨n.toUInt32, rfl, n.toInt32_toUInt32.symm⟩

/-- A word as a signed one. -/
theorem toInt_toInt32 (n : UInt32) :
    n.toInt32.toInt = if n.toNat < 2 ^ 31 then (n.toNat : Int) else n.toNat - 2 ^ 32 := by
  rw [← Int32.toInt_toBitVec, UInt32.toBitVec_toInt32, BitVec.toInt_eq_toNat_cond,
    UInt32.toNat_toBitVec]
  by_cases hn : n.toNat < 2 ^ 31
  · rw [if_pos hn, if_pos (by omega)]
  · rw [if_neg hn, if_neg (by omega)]
    rfl

/-- Counts are the words that are not negative as signed ones. -/
theorem reads_count (what : Counted) :
    (count what).Reads fun n w => n < 2 ^ 31 ∧ w = Container.encodeCount n := by
  refine (reads_bind reads_signedWord fun m => reads_unless (reads_pure m.toInt.toNat)
    (m.toInt < 0) (.invalidCount what m)).congr fun n w => ?_
  unfold Container.encodeCount
  constructor
  · rintro ⟨m, u, v, rfl, ⟨hge, rfl, rfl⟩, rfl⟩
    have hm := toInt_toInt32 m.toUInt32
    rw [Int32.toInt32_toUInt32] at hm
    split at hm
    · rename_i hlt
      rw [hm, Int.toNat_natCast, List.append_nil, Nat.toUInt32_eq, UInt32.ofNat_toNat]
      exact ⟨hlt, rfl⟩
    · have := m.toUInt32.toNat_lt
      omega
  · rintro ⟨hn, rfl⟩
    have hm := toInt_toInt32 n.toUInt32
    have htoNat : n.toUInt32.toNat = n := by
      rw [Nat.toUInt32_eq, UInt32.toNat_ofNat']
      exact Nat.mod_eq_of_lt (by omega)
    rw [htoNat, if_pos hn] at hm
    refine ⟨n.toUInt32.toInt32, _, [], rfl, ⟨by omega, ?_, rfl⟩, ?_⟩
    · rw [hm, Int.toNat_natCast]
    · rw [List.append_nil, UInt32.toUInt32_toInt32]

/-- Texts stand after their length. -/
theorem reads_string :
    string.Reads fun s w => (Bytes.utf8 s).length < 2 ^ 32 ∧ w = Container.encodeString s := by
  refine (reads_bind reads_word fun n => reads_offset_bind fun start =>
    reads_bind (reads_take n.toNat) fun bytes =>
      (?spelled : Reads _ fun s w => bytes = Bytes.utf8 s ∧ w = [])).congr fun s w => ?written
  case spelled =>
    cases hs : Bytes.ofUtf8? bytes with
    | some s =>
      refine (reads_pure s).congr fun t w => ?_
      rw [← Bytes.ofUtf8?_eq_some_iff, hs, Option.some.injEq, eq_comm]
    | none =>
      refine (reads_fail _).congr fun t w => ?_
      rw [← Bytes.ofUtf8?_eq_some_iff, hs]
      simp
  case written =>
    unfold Container.encodeString Container.encodeCount
    constructor
    · rintro ⟨n, u, v, rfl, ⟨bytes, u', v', ⟨rfl, hlength⟩, ⟨rfl, rfl⟩, rfl⟩, rfl⟩
      refine ⟨hlength ▸ n.toNat_lt, ?_⟩
      dsimp only
      rw [hlength, List.append_nil, Nat.toUInt32_eq, UInt32.ofNat_toNat]
    · rintro ⟨hlt, rfl⟩
      refine ⟨(Bytes.utf8 s).length.toUInt32, _, _, rfl,
        ⟨Bytes.utf8 s, _, [], ⟨rfl, ?_⟩, ⟨rfl, rfl⟩, rfl⟩, ?_⟩
      · rw [Nat.toUInt32_eq, UInt32.toNat_ofNat', Nat.mod_eq_of_lt hlt]
      · rw [List.append_nil]

/-! ### Repetition -/

theorem timesFrom_eq_ok {n : Nat} {found result : Array α} (hd : d.Reads W) :
    timesFrom d n found c = .ok (result, c') ↔
      ∃ as ws, as.length = n ∧ result = found ++ as.toArray ∧ List.Forall₂ W as ws ∧
        c.rest = ws.flatten ++ c'.rest ∧ c'.offset = c.offset + ws.flatten.length := by
  induction n generalizing found c with
  | zero =>
    obtain ⟨offset, rest⟩ := c
    obtain ⟨offset', rest'⟩ := c'
    show (Except.ok (found, _) : Except FormatError _) = .ok (result, _) ↔ _
    simp only [Except.ok.injEq, Prod.mk.injEq, Cursor.mk.injEq, List.length_eq_zero_iff]
    constructor
    · rintro ⟨rfl, rfl, rfl⟩
      exact ⟨[], [], rfl, by simp, .nil, rfl, rfl⟩
    · rintro ⟨as, ws, rfl, rfl, hws, hrest, hoffset⟩
      cases hws
      exact ⟨by simp, hoffset.symm, hrest⟩
  | succ n ih =>
    constructor
    · intro hrun
      unfold timesFrom at hrun
      split at hrun
      · rename_i a c₁ ha
        obtain ⟨w, hw, hrest, hoffset⟩ := (hd c c₁ a).1 ha
        obtain ⟨as, ws, rfl, rfl, hws, hrest', hoffset'⟩ := ih.1 hrun
        refine ⟨a :: as, w :: ws, rfl, ?_, .cons hw hws, ?_, ?_⟩
        · simp
        · rw [hrest, hrest', List.flatten_cons, List.append_assoc]
        · rw [hoffset', hoffset, List.flatten_cons, List.length_append, Nat.add_assoc]
      · cases hrun
    · rintro ⟨as, ws, hlength, rfl, hws, hrest, hoffset⟩
      cases hws with
      | nil => cases hlength
      | @cons a w as ws hw hws =>
        rw [List.flatten_cons, List.append_assoc] at hrest
        rw [List.flatten_cons, List.length_append] at hoffset
        have ha : d c = .ok (a, ⟨c.offset + w.length, ws.flatten ++ c'.rest⟩) :=
          (hd c _ a).2 ⟨w, hw, hrest, rfl⟩
        unfold timesFrom
        rw [ha]
        refine ih.2 ⟨as, ws, Nat.succ.inj hlength, ?_, hws, rfl, ?_⟩
        · simp
        · rw [hoffset, Nat.add_assoc]

/-- A format that writes each value in one way, a number of times. -/
theorem reads_times {P : α → Prop} {e : α → List UInt8} (hd : d.Reads fun a w => P a ∧ w = e a)
    (n : Nat) : (times n d).Reads fun found w =>
      found.size = n ∧ (∀ a ∈ found.toList, P a) ∧ w = found.toList.flatMap e := by
  intro c c' found
  unfold times
  rw [timesFrom_eq_ok hd]
  have hforms : ∀ {as : List α} {ws : List (List UInt8)},
      List.Forall₂ (fun a w => P a ∧ w = e a) as ws ↔ (∀ a ∈ as, P a) ∧ ws = as.map e := by
    intro as
    induction as with
    | nil => simp [List.forall₂_nil_left_iff]
    | cons a as ih =>
      intro ws
      cases ws with
      | nil => simp [List.forall₂_nil_right_iff]
      | cons w ws =>
        simp only [List.forall₂_cons, ih, List.forall_mem_cons, List.map_cons, List.cons.injEq]
        tauto
  simp only [hforms, List.flatMap_def]
  constructor
  · rintro ⟨as, ws, rfl, rfl, ⟨hp, rfl⟩, hrest, hoffset⟩
    exact ⟨_, ⟨by simp, by simpa using hp, by simp⟩, hrest, hoffset⟩
  · rintro ⟨w, ⟨rfl, hp, rfl⟩, hrest, hoffset⟩
    exact ⟨found.toList, _, rfl, by simp, ⟨hp, rfl⟩, hrest, hoffset⟩

end Decoder
end ScriptVm
