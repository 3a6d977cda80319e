import ScriptVm.Proofs.Bytes.Reading

/-!
# Where decoders stop

A decoder that gives a result has found the end of what it reads: what follows does not matter,
and a cut anywhere before that end is noticed as a cut.

* `FormatError.PointsInto` is what the offsets of a refusal say about the bytes refused.
* `Stops d start w a` says that `d`, started at an offset, reads `w` and nothing else, whatever
  follows, and refuses every shorter part of `w` as truncated.
* `Delimits least d` says that from an offset on every result of `d` stops so and every refusal
  points into the bytes. `Delimits.bind` and `delimits_times` carry it over the readers of
  records and loops.
-/

namespace ScriptVm

/-- The offsets of a refusal lie in the `length` bytes refused; if the bytes are truncated, they end
before what was needed. -/
def FormatError.PointsInto (length : Nat) : FormatError → Prop
  | .truncated offset needed => offset ≤ length ∧ length < offset + needed
  | .unknownConstantTag _ offset => offset ≤ length
  | .invalidString offset => offset ≤ length
  | _ => True

namespace Decoder

variable {α β : Type} {d : Decoder α} {f : α → Decoder β} {c c₁ : Cursor} {a : α} {b : β}
  {e : FormatError} {u v w : List UInt8} {start least : Nat}

/-- Refused as truncated. -/
def Truncates (d : Decoder α) (c : Cursor) : Prop :=
  ∃ offset needed, d c = .error (.truncated offset needed)

/-- The decoder reads exactly `w` from the offset, whatever follows, and no shorter part of it. -/
structure Stops (d : Decoder α) (start : Nat) (w : List UInt8) (a : α) : Prop where
  reads : ∀ rest, d ⟨start, w ++ rest⟩ = .ok (a, ⟨start + w.length, rest⟩)
  cut : ∀ k < w.length, d.Truncates ⟨start, w.take k⟩

/-- From an offset on, what is accepted has an end, and a refusal names a place in the bytes. -/
structure Delimits (least : Nat) (d : Decoder α) : Prop where
  accepts : ∀ {start bytes a c}, least ≤ start → d ⟨start, bytes⟩ = .ok (a, c) →
    ∃ w, bytes = w ++ c.rest ∧ c.offset = start + w.length ∧ d.Stops start w a
  refuses : ∀ {start bytes e}, least ≤ start → d ⟨start, bytes⟩ = .error e →
    e.PointsInto (start + bytes.length)

/-! ### Rules -/

theorem bind_of_ok (h : d c = .ok (a, c₁)) : (d >>= f) c = f a c₁ := by
  show StateT.bind d f c = _
  unfold StateT.bind
  rw [h]
  rfl

theorem bind_of_error (h : d c = .error e) : (d >>= f) c = .error e := by
  show StateT.bind d f c = _
  unfold StateT.bind
  rw [h]
  rfl

theorem Truncates.bind (h : d.Truncates c) : (d >>= f).Truncates c := by
  obtain ⟨offset, needed, h⟩ := h
  exact ⟨offset, needed, bind_of_error h⟩

/-- A cut in the second part is a cut that the first part does not notice. -/
theorem Stops.bind (hd : d.Stops start u a) (hf : (f a).Stops (start + u.length) v b) :
    (d >>= f).Stops start (u ++ v) b := by
  refine ⟨fun rest => ?_, fun k hk => ?_⟩
  · rw [List.append_assoc, bind_of_ok (hd.reads (v ++ rest)), hf.reads rest, List.length_append,
      Nat.add_assoc]
  · rw [List.length_append] at hk
    by_cases hcut : k < u.length
    · rw [List.take_append_of_le_length hcut.le]
      exact (hd.cut k hcut).bind
    · obtain ⟨offset, needed, htruncated⟩ := hf.cut (k - u.length) (by omega)
      refine ⟨offset, needed, ?_⟩
      rw [List.take_append, List.take_of_length_le (by omega), bind_of_ok (hd.reads _), htruncated]

theorem delimits_pure (least : Nat) (a : α) : Delimits least (pure a) := by
  refine ⟨fun {start bytes b c} hstart h => ?_, fun hstart h => nomatch h⟩
  cases h
  exact ⟨[], rfl, rfl, fun rest => rfl, fun k hk => absurd hk (Nat.not_lt_zero k)⟩

theorem delimits_fail (he : ∀ length, least ≤ length → e.PointsInto length) :
    Delimits least (fail e : Decoder α) := by
  refine ⟨(fun hstart h => nomatch h), fun {start bytes e'} hstart h => ?_⟩
  cases h
  exact he _ (hstart.trans (Nat.le_add_right _ _))

theorem Delimits.bind (hd : Delimits least d) (hf : ∀ a, Delimits least (f a)) :
    Delimits least (d >>= f) := by
  refine ⟨fun {start bytes b c} hstart h => ?_, fun {start bytes e} hstart h => ?_⟩
  · obtain ⟨a, ⟨offset, rest⟩, ha, hb⟩ := bind_eq_ok.1 h
    obtain ⟨u, rfl, rfl, hu⟩ := hd.accepts hstart ha
    obtain ⟨v, rfl, hoffset, hv⟩ := (hf a).accepts (hstart.trans (Nat.le_add_right _ _)) hb
    refine ⟨u ++ v, (List.append_assoc _ _ _).symm, ?_, hu.bind hv⟩
    rw [hoffset, List.length_append, Nat.add_assoc]
  · cases hrun : d ⟨start, bytes⟩ with
    | error e' =>
      rw [bind_of_error hrun] at h
      cases h
      exact hd.refuses hstart hrun
    | ok r =>
      obtain ⟨a, offset, rest⟩ := r
      rw [bind_of_ok hrun] at h
      obtain ⟨u, rfl, rfl, -⟩ := hd.accepts hstart hrun
      have hpoints := (hf a).refuses (hstart.trans (Nat.le_add_right _ _)) h
      rwa [Nat.add_assoc, ← List.length_append] at hpoints

/-- What is read after asking for the position may name that position in its refusals. -/
theorem delimits_offset_bind {f : Nat → Decoder β} (hf : ∀ n, Delimits n (f n)) :
    Delimits least (offset >>= f) := by
  have hrun : ∀ c : Cursor, (offset >>= f) c = f c.offset c := fun c => rfl
  refine ⟨fun {start bytes b c} hstart h => ?_, fun {start bytes e} hstart h => ?_⟩
  · obtain ⟨w, hbytes, hoffset, hw⟩ := (hf start).accepts le_rfl h
    exact ⟨w, hbytes, hoffset, hw.reads, hw.cut⟩
  · exact (hf start).refuses le_rfl h

theorem Delimits.unless (hd : Delimits least d) (p : Prop) [Decidable p]
    (he : ∀ length, least ≤ length → e.PointsInto length) :
    Delimits least (if p then fail e else d) := by
  split
  · exact delimits_fail he
  · exact hd

theorem Delimits.map (hd : Delimits least d) (g : α → β) : Delimits least (g <$> d) := by
  rw [← bind_pure_comp]
  exact hd.bind fun a => delimits_pure least (g a)

/-! ### Bytes and words -/

theorem split_eq_none {n : Nat} {taken rest : List UInt8} :
    split n taken rest = none ↔ rest.length < n := by
  induction n generalizing taken rest with
  | zero => simp [split]
  | succ n ih =>
    cases rest with
    | nil => simp [split]
    | cons b rest => simp [split, ih]

theorem delimits_take (least n : Nat) : Delimits least (take n) := by
  have hcut : ∀ {start bytes}, bytes.length < n →
      take n ⟨start, bytes⟩ = .error (.truncated start n) := by
    intro start bytes hlength
    have hsplit : split n [] bytes = none := split_eq_none.2 hlength
    unfold take
    rw [hsplit]
  refine ⟨fun {start bytes a c} hstart h => ?_, fun {start bytes e} hstart h => ?_⟩
  · obtain ⟨w, ⟨rfl, rfl⟩, hrest, hoffset⟩ := (reads_take n _ _ _).1 h
    refine ⟨w, hrest, hoffset, fun rest => ?_, fun k hk => ⟨start, _, hcut ?_⟩⟩
    · exact (reads_take w.length _ _ _).2 ⟨w, ⟨rfl, rfl⟩, rfl, rfl⟩
    · exact (List.length_take_le k w).trans_lt hk
  · by_cases hlength : bytes.length < n
    · rw [hcut hlength] at h
      cases h
      exact ⟨Nat.le_add_right _ _, Nat.add_lt_add_left hlength start⟩
    · obtain ⟨p, hp⟩ := Option.ne_none_iff_exists'.1 (mt split_eq_none.1 hlength)
      unfold take at h
      rw [hp] at h
      cases h

/-- One byte is taken as a sequence of one byte is. -/
theorem byte_eq : byte = (·.headD 0) <$> take 1 := by
  funext ⟨start, bytes⟩
  cases bytes <;> rfl

/-- A word is taken as a sequence of four bytes is. -/
theorem word_eq : word =
    (fun bytes =>
      Bytes.word32 (bytes.getD 0 0) (bytes.getD 1 0) (bytes.getD 2 0) (bytes.getD 3 0)) <$>
      take 4 := by
  funext ⟨start, bytes⟩
  rcases bytes with _ | ⟨_, _ | ⟨_, _ | ⟨_, _ | ⟨_, _⟩⟩⟩⟩ <;> rfl

theorem delimits_byte (least : Nat) : Delimits least byte := by
  rw [byte_eq]
  exact (delimits_take least 1).map _

theorem delimits_word (least : Nat) : Delimits least word := by
  rw [word_eq]
  exact (delimits_take least 4).map _

theorem delimits_signedWord (least : Nat) : Delimits least signedWord :=
  (delimits_word least).bind fun _ => delimits_pure least _

theorem delimits_count (least : Nat) (what : Counted) : Delimits least (count what) :=
  (delimits_signedWord least).bind fun _ =>
    (delimits_pure least _).unless _ fun _ _ => trivial

theorem delimits_string (least : Nat) : Delimits least string := by
  refine (delimits_word least).bind fun length => delimits_offset_bind fun start =>
    (delimits_take start _).bind fun bytes => ?_
  cases Bytes.ofUtf8? bytes with
  | some s => exact delimits_pure start s
  | none => exact delimits_fail fun length hlength => hlength

/-! ### Repetition -/

theorem timesFrom_succ (d : Decoder α) (n : Nat) (found : Array α) :
    timesFrom d (n + 1) found = d >>= fun a => timesFrom d n (found.push a) := by
  funext c
  cases hrun : d c with
  | error e =>
    rw [bind_of_error hrun]
    simp only [timesFrom, hrun]
  | ok r =>
    rw [bind_of_ok hrun]
    simp only [timesFrom, hrun]

theorem delimits_timesFrom (hd : Delimits least d) (n : Nat) (found : Array α) :
    Delimits least (timesFrom d n found) := by
  induction n generalizing found with
  | zero => exact delimits_pure least found
  | succ n ih =>
    rw [timesFrom_succ]
    exact hd.bind fun a => ih (found.push a)

theorem delimits_times (hd : Delimits least d) (n : Nat) : Delimits least (times n d) :=
  delimits_timesFrom hd n #[]

end Decoder
end ScriptVm
