import ScriptVm.ClassMap
import ScriptVm.Proofs.Bytes.Delimiting

/-!
# Class maps and their bytes

A class map is read from its bytes, whatever follows them and whatever version they name, and from
nothing else.

* `Fits` bounds the counts that have to fit in a word. Classes and files may be repeated.
* `Begins` says that bytes begin with those of a class map, but for the version.
* `reads_decoder` is the format. `delimits_decoder` says where it ends, and `byWords_decoder` that
  it is read word by word, so that a cut is noticed at the word in which it falls.
* `decode_faithful` is the result.
-/

namespace ScriptVm

open Decoder

/-! ### Reading word by word -/

namespace Decoder

variable {α β : Type} {d : Decoder α} {f : α → Decoder β}

/-- Started at a word boundary, the decoder ends at one, and what it misses is a word at one. -/
structure ByWords (d : Decoder α) : Prop where
  accepts : ∀ {c c' a}, 4 ∣ c.offset → d c = .ok (a, c') → 4 ∣ c'.offset
  refuses : ∀ {c offset needed}, 4 ∣ c.offset → d c = .error (.truncated offset needed) →
    4 ∣ offset ∧ needed = 4

theorem byWords_pure (a : α) : (pure a : Decoder α).ByWords := by
  refine ⟨fun {c c' b} hc h => ?_, fun hc h => nomatch h⟩
  cases h
  exact hc

theorem ByWords.bind (hd : d.ByWords) (hf : ∀ a, (f a).ByWords) : (d >>= f).ByWords := by
  constructor
  · intro c c' b hc h
    obtain ⟨a, c₁, ha, hb⟩ := bind_eq_ok.1 h
    exact (hf a).accepts (hd.accepts hc ha) hb
  · intro c offset needed hc h
    cases hrun : d c with
    | error e =>
      rw [bind_of_error hrun] at h
      cases h
      exact hd.refuses hc hrun
    | ok r =>
      rw [bind_of_ok hrun] at h
      exact (hf r.1).refuses (hd.accepts hc hrun) h

/-- A condition under which the file is refused, but not for its length. -/
theorem ByWords.unless (hd : d.ByWords) (p : Prop) [Decidable p] {e : FormatError}
    (he : ∀ offset needed, e ≠ .truncated offset needed) :
    (if p then fail e else d).ByWords := by
  by_cases hp : p
  · rw [if_pos hp]
    refine ⟨(fun hc h => nomatch h), fun {c offset needed} hc h => ?_⟩
    cases h
    exact absurd rfl (he offset needed)
  · rwa [if_neg hp]

theorem byWords_take : (take 4).ByWords := by
  constructor
  · intro c c' bytes hc h
    obtain ⟨w, ⟨rfl, hlength⟩, -, hoffset⟩ := (reads_take 4 c c' bytes).1 h
    rw [hoffset, hlength]
    exact Nat.dvd_add hc (Nat.dvd_refl 4)
  · intro c offset needed hc h
    unfold take at h
    split at h
    · cases h
    · cases h
      exact ⟨hc, rfl⟩

theorem byWords_word : word.ByWords := by
  rw [word_eq, ← bind_pure_comp]
  exact byWords_take.bind fun bytes => byWords_pure _

theorem byWords_timesFrom (hd : d.ByWords) (n : Nat) (found : Array α) :
    (timesFrom d n found).ByWords := by
  induction n generalizing found with
  | zero => exact byWords_pure found
  | succ n ih =>
    rw [timesFrom_succ]
    exact hd.bind fun a => ih (found.push a)

theorem byWords_times (hd : d.ByWords) (n : Nat) : (times n d).ByWords :=
  byWords_timesFrom hd n #[]

end Decoder

namespace ClassMap

variable {m : ClassMap} {bytes : List UInt8}

/-! ### Class maps that can be written -/

/-- What is counted in a class map can be counted by a word. -/
structure Fits (m : ClassMap) : Prop where
  count : m.entries.length < 2 ^ 32
  files : ∀ e ∈ m.entries, e.files.length < 2 ^ 32

/-- The bytes begin with those of a class map, but for the version. -/
structure Begins (m : ClassMap) (bytes : List UInt8) : Prop where
  length_le : m.encode.length ≤ bytes.length
  others : ∀ i < m.encode.length, i < 4 ∨ 8 ≤ i → bytes[i]? = m.encode[i]?

/-- The bytes after the header. -/
def body (m : ClassMap) : List UInt8 :=
  Bytes.bytes32 m.entries.length.toUInt32 ++ m.entries.flatMap encodeEntry

theorem encode_eq (m : ClassMap) : m.encode = magic ++ versionBytes ++ m.body := by
  simp [encode, body]

theorem length_encode (m : ClassMap) : m.encode.length = 8 + m.body.length := by
  rw [encode_eq, List.length_append]
  rfl

/-- What a class map begins, as one sequence of bytes. -/
theorem begins_iff : m.Begins bytes ↔
    ∃ version rest, version.length = 4 ∧ bytes = magic ++ version ++ m.body ++ rest := by
  constructor
  · rintro ⟨hlength, hothers⟩
    rw [length_encode] at hlength hothers
    rw [encode_eq] at hothers
    have hmagic : magic <+: bytes := by
      refine List.prefix_iff_getElem?.2 fun i hi => ?_
      have hi4 : i < 4 := hi
      rw [hothers i (by omega) (Or.inl hi4), List.append_assoc, List.getElem?_append_left hi]
      exact List.getElem?_eq_getElem hi
    obtain ⟨left, rfl⟩ := hmagic
    have hleft : 4 + m.body.length ≤ left.length := by
      simp only [magic, List.length_append, List.length_cons, List.length_nil] at hlength
      omega
    have hbody : m.body <+: left.drop 4 := by
      refine List.prefix_iff_getElem?.2 fun i hi => ?_
      have hbyte := hothers (i + 8) (by omega) (Or.inr (by omega))
      rw [List.getElem?_drop, Nat.add_comm 4 i]
      exact hbyte.trans (List.getElem?_eq_getElem hi)
    obtain ⟨rest, hrest⟩ := hbody
    refine ⟨left.take 4, rest, ?_, ?_⟩
    · rw [List.length_take]
      omega
    · rw [List.append_assoc, List.append_assoc, hrest, List.take_append_drop]
  · rintro ⟨version, rest, hversion, rfl⟩
    obtain ⟨v0, v1, v2, v3, rfl⟩ : ∃ v0 v1 v2 v3, version = [v0, v1, v2, v3] := by
      rcases version with _ | ⟨v0, _ | ⟨v1, _ | ⟨v2, _ | ⟨v3, _ | ⟨v4, version⟩⟩⟩⟩⟩ <;>
        first | exact ⟨_, _, _, _, rfl⟩ | simp at hversion
    constructor
    · rw [length_encode]
      simp only [magic, List.length_append, List.length_cons, List.length_nil]
      omega
    · intro i hi hout
      rw [length_encode] at hi
      rw [encode_eq]
      rcases i with _ | _ | _ | _ | _ | _ | _ | _ | i
      case succ.succ.succ.succ.succ.succ.succ.succ =>
        have hbody : i < m.body.length := by omega
        show (m.body ++ rest)[i]? = m.body[i]?
        exact List.getElem?_append_left hbody
      all_goals first | rfl | omega

theorem begins_encode (m : ClassMap) (rest : List UInt8) : m.Begins (m.encode ++ rest) := by
  refine begins_iff.2 ⟨versionBytes, rest, rfl, ?_⟩
  rw [encode_eq]

/-! ### The format -/

theorem reads_decodeEntry : decodeEntry.Reads fun e w =>
    e.files.length < 2 ^ 32 ∧ w = encodeEntry e := by
  have hfile : word.Reads fun file w => True ∧ w = Bytes.bytes32 file :=
    reads_word.congr fun file w => (true_and _).symm ▸ Iff.rfl
  refine (reads_bind reads_word fun classHash => reads_bind reads_word fun fileCount =>
    reads_return (reads_times hfile fileCount.toNat) fun files => _).congr fun e w => ?_
  unfold encodeEntry
  constructor
  · rintro ⟨classHash, _, _, rfl, ⟨fileCount, _, _, rfl, ⟨files, ⟨hsize, -, rfl⟩, rfl⟩, rfl⟩, rfl⟩
    have hlength : files.toList.length = fileCount.toNat := hsize
    dsimp only
    refine ⟨hlength ▸ fileCount.toNat_lt, ?_⟩
    rw [hlength, Nat.toUInt32_eq, UInt32.ofNat_toNat, List.append_assoc]
  · obtain ⟨classHash, files⟩ := e
    rintro ⟨hlength, rfl⟩
    refine ⟨classHash, _, _, rfl, ⟨files.length.toUInt32, _, _, rfl,
      ⟨files.toArray, ⟨?_, fun _ _ => trivial, rfl⟩, rfl⟩, rfl⟩, ?_⟩
    · rw [Nat.toUInt32_eq, UInt32.toNat_ofNat', Nat.mod_eq_of_lt hlength]
      rfl
    · rw [List.append_assoc]

theorem decoder_eq : decoder = (do
    let found ← take 4
    if found ≠ magic then fail .badMagic else do
      let _ ← take 4
      let count ← word
      let entries ← times count.toNat decodeEntry
      return ⟨entries.toList⟩) := rfl

theorem reads_decoder : decoder.Reads fun m w =>
    m.Fits ∧ ∃ version, version.length = 4 ∧ w = magic ++ version ++ m.body := by
  rw [decoder_eq]
  refine (reads_bind (reads_take 4) fun found => reads_unless (reads_bind (reads_take 4)
    fun version => reads_bind reads_word fun count => reads_return
    (reads_times reads_decodeEntry count.toNat) fun entries => _) _ _).congr fun m w => ?_
  unfold body
  constructor
  · rintro ⟨_, found, _, ⟨rfl, -⟩, ⟨hmagic, ⟨_, version, _, ⟨rfl, hversion⟩, ⟨count, _, _, rfl,
      ⟨entries, ⟨hsize, hfiles, rfl⟩, rfl⟩, rfl⟩, rfl⟩⟩, rfl⟩
    have hlength : entries.toList.length = count.toNat := hsize
    refine ⟨⟨?_, hfiles⟩, version, hversion, ?_⟩
    · exact hlength ▸ count.toNat_lt
    · dsimp only
      rw [not_not.1 hmagic, hlength, Nat.toUInt32_eq, UInt32.ofNat_toNat, List.append_assoc]
  · obtain ⟨entries⟩ := m
    rintro ⟨⟨hcount, hfiles⟩, version, hversion, rfl⟩
    refine ⟨magic, _, _, ⟨rfl, rfl⟩, ⟨not_not.2 rfl, ⟨version, _, _, ⟨rfl, hversion⟩,
      ⟨entries.length.toUInt32, _, _, rfl, ⟨entries.toArray, ⟨?_, hfiles, rfl⟩, rfl⟩, rfl⟩, rfl⟩⟩,
      ?_⟩
    · rw [Nat.toUInt32_eq, UInt32.toNat_ofNat', Nat.mod_eq_of_lt hcount]
      rfl
    · rw [List.append_assoc]

theorem delimits_decodeEntry (least : Nat) : Delimits least decodeEntry :=
  (delimits_word least).bind fun _ => (delimits_word least).bind fun fileCount =>
    (delimits_times (delimits_word least) fileCount.toNat).bind fun _ => delimits_pure least _

theorem delimits_decoder (least : Nat) : Delimits least decoder := by
  rw [decoder_eq]
  refine (delimits_take least 4).bind fun found => Delimits.unless ?records _ fun _ _ => trivial
  exact (delimits_take least 4).bind fun version => (delimits_word least).bind fun count =>
    (delimits_times (delimits_decodeEntry least) count.toNat).bind fun entries =>
    delimits_pure least _

theorem byWords_decodeEntry : decodeEntry.ByWords :=
  byWords_word.bind fun _ => byWords_word.bind fun fileCount =>
    (byWords_times byWords_word fileCount.toNat).bind fun _ => byWords_pure _

theorem byWords_decoder : decoder.ByWords := by
  rw [decoder_eq]
  refine byWords_take.bind fun found => ByWords.unless ?records _ nofun
  exact byWords_take.bind fun version => byWords_word.bind fun count =>
    (byWords_times byWords_decodeEntry count.toNat).bind fun entries => byWords_pure _

/-! ### Files -/

theorem decode_of_ok {cursor : Cursor} (h : decoder ⟨0, bytes⟩ = .ok (m, cursor)) :
    decode bytes = .ok m := by
  unfold decode Decoder.run
  rw [h]

theorem decode_of_error {e : FormatError} (h : decoder ⟨0, bytes⟩ = .error e) :
    decode bytes = .error e := by
  unfold decode Decoder.run
  rw [h]

theorem decoder_of_decode (h : decode bytes = .ok m) :
    ∃ cursor, decoder ⟨0, bytes⟩ = .ok (m, cursor) := by
  cases hrun : decoder ⟨0, bytes⟩ with
  | error e => cases (decode_of_error hrun).symm.trans h
  | ok r =>
    cases (decode_of_ok hrun).symm.trans h
    exact ⟨r.2, rfl⟩

theorem decode_eq_ok_iff : decode bytes = .ok m ↔ m.Fits ∧ m.Begins bytes := by
  rw [begins_iff]
  constructor
  · intro h
    obtain ⟨cursor, hrun⟩ := decoder_of_decode h
    obtain ⟨w, ⟨hfits, version, hversion, rfl⟩, hbytes, -⟩ := (reads_decoder _ _ _).1 hrun
    exact ⟨hfits, version, cursor.rest, hversion, hbytes⟩
  · rintro ⟨hfits, version, rest, hversion, hbytes⟩
    have hrun : decoder ⟨0, bytes⟩ = .ok (m, ⟨0 + _, rest⟩) :=
      (reads_decoder _ _ _).2 ⟨_, ⟨hfits, version, hversion, rfl⟩, hbytes, rfl⟩
    exact decode_of_ok hrun

/-- The decoder stops after the bytes that the class map is written with. -/
theorem stops_encode (hm : m.Fits) : decoder.Stops 0 m.encode m := by
  have hrun : decoder ⟨0, m.encode⟩ = .ok (m, ⟨m.encode.length, []⟩) := by
    refine (reads_decoder _ _ _).2 ⟨m.encode, ⟨hm, versionBytes, rfl, encode_eq m⟩, ?_, ?_⟩
    · exact (List.append_nil _).symm
    · exact (Nat.zero_add _).symm
  obtain ⟨w, hw, -, hstops⟩ := (delimits_decoder 0).accepts le_rfl hrun
  rw [List.append_nil] at hw
  rwa [hw]

/-- A class map that is cut short is refused for the word in which the cut falls. -/
theorem decode_take_encode (hm : m.Fits) {k : Nat} (hk : k < m.encode.length) :
    ∃ offset, decode (m.encode.take k) = .error (.truncated offset 4) ∧
      4 ∣ offset ∧ offset ≤ k ∧ k < offset + 4 := by
  obtain ⟨offset, needed, hcut⟩ := (stops_encode hm).cut k hk
  obtain ⟨hword, rfl⟩ := byWords_decoder.refuses (Nat.dvd_zero 4) hcut
  obtain ⟨hoffset, hneeded⟩ := (delimits_decoder 0).refuses le_rfl hcut
  rw [List.length_take_of_le hk.le, Nat.zero_add] at hoffset hneeded
  exact ⟨offset, decode_of_error hcut, hword, hoffset, hneeded⟩

/-- A class map is read from the bytes it is written with, but for the version and what follows
them, and from no others; cut short, it misses the word of the cut. -/
theorem decode_faithful (m : ClassMap) :
    (∀ bytes, decode bytes = .ok m ↔ m.Fits ∧ m.Begins bytes) ∧
      (m.Fits → (∀ rest, decode (m.encode ++ rest) = .ok m) ∧
        ∀ k < m.encode.length, ∃ offset,
          decode (m.encode.take k) = .error (.truncated offset 4) ∧
            4 ∣ offset ∧ offset ≤ k ∧ k < offset + 4) := by
  refine ⟨fun bytes => decode_eq_ok_iff, fun hm => ⟨fun rest => ?_, fun k hk => ?_⟩⟩
  · exact decode_eq_ok_iff.2 ⟨hm, begins_encode m rest⟩
  · exact decode_take_encode hm hk

/-- A class with two records, one of them with a file twice, cut in the second record. -/
theorem decode_faithful_repeated :
    let m : ClassMap := ⟨[⟨7, [1, 1]⟩, ⟨7, [2]⟩]⟩
    m.Fits ∧ decode (m.encode ++ [0xFF]) = .ok m ∧
      (∃ offset, decode (m.encode.take 30) = .error (.truncated offset 4) ∧
        4 ∣ offset ∧ offset ≤ 30 ∧ 30 < offset + 4) ∧
      decode (m.encode.take 30) = .error (.truncated 28 4) ∧
      decode (magic ++ [9, 9, 9, 9] ++ m.body) = .ok m := by
  intro m
  have hfits : m.Fits := ⟨by decide, by decide⟩
  obtain ⟨haccepts, hwritten⟩ := decode_faithful m
  obtain ⟨hrest, hcut⟩ := hwritten hfits
  refine ⟨hfits, hrest [0xFF], hcut 30 (by decide), by decide +kernel, ?_⟩
  refine (haccepts _).2 ⟨hfits, begins_iff.2 ⟨[9, 9, 9, 9], [], rfl, ?_⟩⟩
  exact (List.append_nil _).symm

end ClassMap
end ScriptVm
