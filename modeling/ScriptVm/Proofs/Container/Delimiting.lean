import ScriptVm.Proofs.Bytes.Delimiting
import ScriptVm.Proofs.Container.RoundTrip

/-!
# Where containers stop

A file says itself where its container ends.

* `delimits_decoder` puts the records of a container together: each of them delimits itself,
  whatever byte or text or count a cut falls into.
* `decode_selfDelimiting` is the result: the bytes of a container are accepted with anything behind
  them and with nothing cut off, and every refusal points into the bytes refused.
-/

namespace ScriptVm
namespace Container

open Decoder

variable {least : Nat}

/-! ### Records -/

theorem delimits_decodeConstant : Delimits least decodeConstant := by
  refine delimits_offset_bind fun start => (delimits_byte start).bind fun tag => ?_
  split
  · exact (delimits_signedWord start).bind fun n => delimits_pure start _
  · exact (delimits_word start).bind fun n => delimits_pure start _
  · exact (delimits_string start).bind fun s => delimits_pure start _
  · exact delimits_fail fun length hlength => hlength

theorem delimits_decodeLines (debugInfo : Bool) (length : Nat) :
    Delimits least (decodeLines debugInfo length) := by
  cases debugInfo with
  | false => exact delimits_pure least none
  | true => exact (delimits_times (delimits_signedWord least) length).map some

theorem delimits_decodeFunction (debugInfo : Bool) : Delimits least (decodeFunction debugInfo) := by
  rw [decodeFunction_eq]
  exact (delimits_count least _).bind fun length => (delimits_signedWord least).bind fun arity =>
    (delimits_word least).bind fun nameHash => (delimits_take least length).bind fun code =>
    (delimits_decodeLines debugInfo length).bind fun lines =>
    (delimits_count least _).bind fun constantCount =>
    (delimits_times delimits_decodeConstant constantCount).bind fun constants =>
    delimits_pure least _

theorem delimits_decodeHeader : Delimits least decodeHeader := by
  rw [decodeHeader_eq]
  refine (delimits_take least 4).bind fun found => Delimits.unless ?version _ fun _ _ => trivial
  refine (delimits_byte least).bind fun version => Delimits.unless ?options _ fun _ _ => trivial
  exact (delimits_byte least).bind fun options => (delimits_take least 1).bind fun reserved =>
    delimits_pure least (version, options)

theorem delimits_decodeTokens (debugInfo : Bool) : Delimits least (decodeTokens debugInfo) := by
  cases debugInfo with
  | false => exact delimits_pure least #[]
  | true =>
    exact (delimits_count least .tokens).bind fun n => delimits_times (delimits_string least) n

theorem delimits_decodeSource (present : Bool) : Delimits least (decodeSource present) := by
  cases present with
  | false => exact delimits_pure least none
  | true => exact (delimits_string least).map some

theorem delimits_decoder : Delimits least decoder := by
  rw [decoder_eq]
  refine delimits_decodeHeader.bind fun header => (delimits_count least .functions).bind fun n =>
    Delimits.unless ?records _ fun _ _ => trivial
  exact (delimits_times (delimits_decodeFunction _) n).bind fun functions =>
    (delimits_decodeTokens _).bind fun tokens => (delimits_decodeSource _).bind fun source =>
    delimits_pure least _

/-! ### Files -/

theorem decode_of_ok {bytes : List UInt8} {c : Container} {cursor : Cursor}
    (h : decoder ⟨0, bytes⟩ = .ok (c, cursor)) : decode bytes = .ok c := by
  unfold decode Decoder.run
  rw [h]

theorem decode_of_error {bytes : List UInt8} {e : FormatError} (h : decoder ⟨0, bytes⟩ = .error e) :
    decode bytes = .error e := by
  unfold decode Decoder.run
  rw [h]

/-- The forms of a container are as long as the bytes that it is written with. -/
theorem length_of_stops {c : Container} {w : List UInt8} (hw : decoder.Stops 0 w c) :
    w.length = c.encode.length := by
  obtain ⟨form, ⟨-, options, reserved, -, rfl⟩, hw, -⟩ := (reads_decoder _ _ _).1 (hw.reads [])
  rw [List.append_cancel_right hw, encode_eq]
  simp

/-- **Containers end where they are written to end.** What follows does not matter, every cut is
seen as one, and refusals name offsets in the file. -/
theorem decode_selfDelimiting (bytes : List UInt8) :
    (∀ c, decode bytes = .ok c → c.encode.length ≤ bytes.length ∧
      (∀ other, bytes.take c.encode.length <+: other → decode other = .ok c) ∧
      ∀ k < c.encode.length, ∃ offset needed,
        decode (bytes.take k) = .error (.truncated offset needed) ∧
          offset ≤ k ∧ k < offset + needed) ∧
    ∀ e, decode bytes = .error e → e.PointsInto bytes.length := by
  have hdelimits : Delimits 0 decoder := delimits_decoder
  have hrefused : ∀ {bytes e}, decode bytes = .error e → e.PointsInto bytes.length := by
    intro bytes e h
    cases hrun : decoder ⟨0, bytes⟩ with
    | ok r => cases (decode_of_ok hrun).symm.trans h
    | error e' =>
      cases (decode_of_error hrun).symm.trans h
      have hpoints := hdelimits.refuses le_rfl hrun
      rwa [Nat.zero_add] at hpoints
  refine ⟨fun c h => ?_, fun e h => hrefused h⟩
  obtain ⟨cursor, hrun⟩ : ∃ cursor, decoder ⟨0, bytes⟩ = .ok (c, cursor) := by
    cases hrun : decoder ⟨0, bytes⟩ with
    | error e => cases (decode_of_error hrun).symm.trans h
    | ok r =>
      cases (decode_of_ok hrun).symm.trans h
      exact ⟨r.2, rfl⟩
  obtain ⟨w, rfl, -, hw⟩ := hdelimits.accepts le_rfl hrun
  rw [← length_of_stops hw]
  refine ⟨by simp, fun other hother => ?_, fun k hk => ?_⟩
  · rw [List.take_left] at hother
    obtain ⟨rest, rfl⟩ := hother
    exact decode_of_ok (hw.reads rest)
  · obtain ⟨offset, needed, hcut⟩ := hw.cut k hk
    have htruncated := decode_of_error hcut
    obtain ⟨hoffset, hneeded⟩ := hrefused htruncated
    rw [List.length_take_of_le hk.le] at hoffset hneeded
    refine ⟨offset, needed, ?_, hoffset, hneeded⟩
    rw [List.take_append_of_le_length hk.le, htruncated]

/-- A file with a text constant and two bytes behind its container, which is read the same with
other bytes behind, and cut in the text. -/
theorem decode_selfDelimiting_text :
    let script : Container := ⟨0, false, [⟨0, 7, ⟨#[0x20], none, #[.string "ab"], 0⟩⟩], [], none⟩
    let bytes := script.encode ++ [0x01, 0x02]
    decode bytes = .ok script ∧ decode (script.encode ++ [0x03]) = .ok script ∧
      (∃ offset needed, decode (bytes.take 34) = .error (.truncated offset needed) ∧
        offset ≤ 34 ∧ 34 < offset + needed) ∧
      decode (bytes.take 34) = .error (.truncated 33 2) := by
  intro script bytes
  have hread : decode bytes = .ok script := by decide +kernel
  obtain ⟨-, hsame, hcut⟩ := (decode_selfDelimiting bytes).1 script hread
  refine ⟨hread, hsame _ ?_, hcut 34 (by decide), by decide +kernel⟩
  rw [List.take_left]
  exact List.prefix_append _ _

end Container
end ScriptVm
