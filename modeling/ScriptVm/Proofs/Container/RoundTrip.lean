import Mathlib.Data.FinEnum
import ScriptVm.Proofs.Bytes.Reading

/-!
# Containers and their bytes

Reading a container undoes writing it, and accepts nothing else.

* `Container.Fits` bounds the counts and the lengths of texts that have to fit in a word.
* `Container.normal` is what of a container is kept in a file: with debugging information every byte
  of code has a line, without it there are no lines and no names. `IsNormal` are the containers of
  which everything is kept.
* `Container.Same` is equality but for the line at which code would be emitted next, which is no
  part of a chunk's content.
* `reads_decoder` is the format; `decode_encode_normal` and `decode_accepts_iff` are the
  two results.
-/

namespace ScriptVm

open Decoder

/-! ### Containers that can be written -/

/-- The texts of a constant. -/
def Constant.texts : Constant → List String
  | .string s => [s]
  | _ => []

/-- The length of a text fits in a word. -/
def Bytes.Fits (s : String) : Prop := (utf8 s).length < 2 ^ 32

instance (s : String) : Decidable (Bytes.Fits s) := Nat.decLt _ _

/-- What is counted in a function can be counted by a signed word, and its texts fit. -/
structure Prototype.Fits (f : Prototype) : Prop where
  code : f.chunk.code.size < 2 ^ 31
  constants : f.chunk.constants.size < 2 ^ 31
  texts : ∀ k ∈ f.chunk.constants.toList, ∀ s ∈ k.texts, Bytes.Fits s

/-- What is counted in a container can be counted by a signed word, and its texts fit. -/
structure Container.Fits (c : Container) : Prop where
  count : c.functions.length < 2 ^ 31
  functions : ∀ f ∈ c.functions, f.Fits
  tokenCount : c.tokens.length < 2 ^ 31
  tokens : ∀ s ∈ c.tokens, Bytes.Fits s
  source : ∀ s, c.sourceFilename = some s → Bytes.Fits s

/-- The lines of the bytes of code: the first lines of the table, then zeros. -/
def Chunk.paddedLines (c : Chunk) : Array Int32 :=
  let lines := (c.lines.getD #[]).toList.take c.code.size
  (lines ++ List.replicate (c.code.size - lines.length) 0).toArray

/-- What of a function is kept in a file. -/
def Prototype.normal (debugInfo : Bool) (f : Prototype) : Prototype :=
  { f with
    chunk := { f.chunk with
      lines := if debugInfo then some f.chunk.paddedLines else none
      currentLine := 0 } }

/-- A function has as many lines as bytes of code, or none without debugging information. -/
def Prototype.IsNormal (debugInfo : Bool) (f : Prototype) : Prop :=
  if debugInfo then ∃ lines, f.chunk.lines = some lines ∧ lines.size = f.chunk.code.size
  else f.chunk.lines = none

/-- The function with nothing left of how it was emitted. -/
def Prototype.settled (f : Prototype) : Prototype :=
  { f with chunk := { f.chunk with currentLine := 0 } }

namespace Container

/-- What of a container is kept in a file. -/
def normal (c : Container) : Container :=
  { c with
    functions := c.functions.map (Prototype.normal c.debugInfo)
    tokens := if c.debugInfo then c.tokens else [] }

/-- All of a container is kept in a file. -/
structure IsNormal (c : Container) : Prop where
  functions : ∀ f ∈ c.functions, f.IsNormal c.debugInfo
  tokens : c.debugInfo = false → c.tokens = []

/-- The container with nothing left of how its code was emitted. -/
def settled (c : Container) : Container :=
  { c with functions := c.functions.map Prototype.settled }

/-- Two containers have the same content. -/
def Same (a b : Container) : Prop := a.settled = b.settled

/-- A file of the bytes is accepted with the content of a container. -/
def Accepted (bytes : List UInt8) (c : Container) : Prop :=
  ∃ found, decode bytes = .ok found ∧ found.Same c

/-- The bytes begin with those of a container, but for six bits of the options and for the byte
after them. -/
structure Begins (c : Container) (bytes : List UInt8) : Prop where
  length_le : c.encode.length ≤ bytes.length
  options : ∀ a b, c.encode[5]? = some a → bytes[5]? = some b → b &&& 3 = a
  others : ∀ i < c.encode.length, i ≠ 5 → i ≠ 6 → bytes[i]? = c.encode[i]?

/-! ### The format -/

theorem reads_decodeConstant : decodeConstant.Reads fun k w =>
    (∀ s ∈ k.texts, Bytes.Fits s) ∧ w = encodeConstant k := by
  refine (reads_offset_bind fun start => reads_bind reads_byte fun tag =>
    (?body : Reads _ fun k w => (∀ s ∈ k.texts, Bytes.Fits s) ∧ encodeConstant k = tag :: w)).congr
      fun k w => ?written
  case body =>
    split
    · refine (reads_return reads_signedWord Constant.integer).congr fun k w => ?_
      constructor
      · rintro ⟨n, rfl, rfl⟩
        exact ⟨fun s hs => absurd hs List.not_mem_nil, rfl⟩
      · rintro ⟨-, hk⟩
        cases k <;> cases hk
        exact ⟨_, rfl, rfl⟩
    · refine (reads_return reads_word fun n => Constant.decimal ⟨n⟩).congr fun k w => ?_
      constructor
      · rintro ⟨n, rfl, rfl⟩
        exact ⟨fun s hs => absurd hs List.not_mem_nil, rfl⟩
      · rintro ⟨-, hk⟩
        cases k <;> cases hk
        exact ⟨_, rfl, rfl⟩
    · refine (reads_return reads_string Constant.string).congr fun k w => ?_
      constructor
      · rintro ⟨s, ⟨hs, rfl⟩, rfl⟩
        exact ⟨List.forall_mem_singleton.2 hs, rfl⟩
      · rintro ⟨hfits, hk⟩
        cases k <;> cases hk
        exact ⟨_, ⟨hfits _ (List.mem_singleton.2 rfl), rfl⟩, rfl⟩
    · rename_i h1 h2 h3
      refine (reads_fail _).congr fun k w => ⟨False.elim, ?_⟩
      rintro ⟨-, hk⟩
      cases k with
      | integer n => exact h1 (List.cons.inj hk).1.symm
      | decimal d => exact h2 (List.cons.inj hk).1.symm
      | string s => exact h3 (List.cons.inj hk).1.symm
  case written =>
    constructor
    · rintro ⟨tag, u, v, rfl, ⟨hfits, hk⟩, rfl⟩
      exact ⟨hfits, hk.symm⟩
    · rintro ⟨hfits, rfl⟩
      cases k with
      | integer n => exact ⟨1, _, _, rfl, ⟨hfits, rfl⟩, rfl⟩
      | decimal d => exact ⟨2, _, _, rfl, ⟨hfits, rfl⟩, rfl⟩
      | string s => exact ⟨3, _, _, rfl, ⟨hfits, rfl⟩, rfl⟩

/-- A full line table is written as it is. -/
theorem lineTable_of_size {c : Chunk} {lines : Array Int32} (hlines : c.lines = some lines)
    (hsize : lines.size = c.code.size) : lineTable c = lines.toList := by
  refine List.ext_getElem? fun i => ?_
  simp only [lineTable, hlines, Option.bind_some, List.getElem?_map, ← hsize]
  by_cases hi : i < lines.size
  · simp [hi]
  · simp [hi]

/-- Reads the lines of a function. -/
def decodeLines (debugInfo : Bool) (length : Nat) : Decoder (Option (Array Int32)) :=
  if debugInfo then some <$> times length signedWord else pure none

theorem reads_decodeLines (debugInfo : Bool) (length : Nat) :
    (decodeLines debugInfo length).Reads fun lines w =>
      (if debugInfo then ∃ table, lines = some table ∧ table.size = length else lines = none) ∧
        w = (lines.getD #[]).toList.flatMap fun line => Bytes.bytes32 line.toUInt32 := by
  cases debugInfo with
  | false =>
    refine (reads_pure none).congr fun lines w => ?_
    simp only [Bool.false_eq_true, if_false]
    constructor
    · rintro ⟨rfl, rfl⟩
      exact ⟨rfl, rfl⟩
    · rintro ⟨rfl, rfl⟩
      exact ⟨rfl, rfl⟩
  | true =>
    have hline : signedWord.Reads fun line w => True ∧ w = Bytes.bytes32 line.toUInt32 :=
      reads_signedWord.congr fun line w => (true_and _).symm ▸ Iff.rfl
    refine (reads_map (reads_times hline length) some).congr fun lines w => ?_
    simp only [if_true]
    constructor
    · rintro ⟨table, ⟨hsize, -, rfl⟩, rfl⟩
      exact ⟨⟨table, rfl, hsize⟩, rfl⟩
    · rintro ⟨⟨table, rfl, hsize⟩, rfl⟩
      exact ⟨table, ⟨hsize, fun _ _ => trivial, rfl⟩, rfl⟩

theorem encodeLines_of_isNormal {debugInfo : Bool} {f : Prototype} (hf : f.IsNormal debugInfo) :
    (if debugInfo then encodeLines f.chunk else []) =
      (f.chunk.lines.getD #[]).toList.flatMap fun line => Bytes.bytes32 line.toUInt32 := by
  cases debugInfo with
  | false =>
    have hnone : f.chunk.lines = none := by simpa [Prototype.IsNormal] using hf
    simp [hnone]
  | true =>
    obtain ⟨lines, hlines, hsize⟩ : ∃ lines, f.chunk.lines = some lines ∧ _ := by
      simpa [Prototype.IsNormal] using hf
    simp [encodeLines, lineTable_of_size hlines hsize, hlines]

theorem decodeFunction_eq (debugInfo : Bool) : decodeFunction debugInfo = (do
    let length ← count .instructions
    let arity ← signedWord
    let nameHash ← word
    let code ← take length
    let lines ← decodeLines debugInfo length
    let constantCount ← count .constants
    let constants ← times constantCount decodeConstant
    return { arity, nameHash, chunk := ⟨code.toArray, lines, constants, 0⟩ }) := by
  cases debugInfo <;> rfl

theorem reads_decodeFunction (debugInfo : Bool) :
    (decodeFunction debugInfo).Reads fun f w =>
      (f.Fits ∧ f.IsNormal debugInfo ∧ f.chunk.currentLine = 0) ∧
        w = encodeFunction debugInfo f := by
  rw [decodeFunction_eq]
  refine (reads_bind (reads_count .instructions) fun length => reads_bind reads_signedWord
    fun arity => reads_bind reads_word fun nameHash => reads_bind (reads_take length) fun code =>
    reads_bind (reads_decodeLines debugInfo length) fun lines => reads_bind (reads_count .constants)
    fun constantCount => reads_return (reads_times reads_decodeConstant constantCount)
    fun constants => _).congr fun f w => ?_
  constructor
  · rintro ⟨length, _, _, ⟨hlength, rfl⟩, ⟨arity, _, _, rfl, ⟨nameHash, _, _, rfl, ⟨_, code, _,
      ⟨rfl, rfl⟩, ⟨lines, _, _, ⟨hlines, rfl⟩, ⟨constantCount, _, _, ⟨hcount, rfl⟩,
      ⟨constants, ⟨rfl, htexts, rfl⟩, rfl⟩, rfl⟩, rfl⟩, rfl⟩, rfl⟩, rfl⟩, rfl⟩
    have hnormal : Prototype.IsNormal debugInfo
        ⟨arity, nameHash, ⟨code.toArray, lines, constants, 0⟩⟩ := hlines
    refine ⟨⟨⟨hlength, hcount, htexts⟩, hnormal, rfl⟩, ?_⟩
    unfold encodeFunction
    rw [encodeLines_of_isNormal hnormal]
    simp
  · rintro ⟨⟨⟨hlength, hcount, htexts⟩, hlines, hline⟩, rfl⟩
    unfold encodeFunction
    rw [encodeLines_of_isNormal hlines]
    obtain ⟨arity, nameHash, ⟨code, lines, constants, line⟩⟩ := f
    obtain rfl : line = 0 := hline
    exact ⟨code.size, _, _, ⟨hlength, rfl⟩, ⟨arity, _, _, rfl, ⟨nameHash, _, _, rfl,
      ⟨code.toList, _, _, ⟨rfl, rfl⟩, ⟨lines, _, _, ⟨hlines, rfl⟩, ⟨constants.size, _, _,
      ⟨hcount, rfl⟩, ⟨constants, ⟨rfl, htexts, rfl⟩, rfl⟩, rfl⟩, rfl⟩, rfl⟩, rfl⟩, rfl⟩, by simp⟩

/-! ### The container -/

/-- The bytes after the header. -/
def body (c : Container) : List UInt8 :=
  encodeCount c.functions.length ++ c.functions.flatMap (encodeFunction c.debugInfo) ++
    c.encodeTokens ++ c.encodeSource

theorem encode_eq (c : Container) :
    c.encode = magic ++ [c.version, c.options, 0] ++ c.body := by
  simp [encode, body]

/-- The two option bits that count. -/
theorem and_options_iff (o : UInt8) (c : Container) : o &&& 3 = c.options ↔
    (o &&& 1 != 0) = c.debugInfo ∧ (o &&& 2 != 0) = c.sourceFilename.isSome := by
  have hbits : ∀ (o : UInt8) (a b : Bool), o &&& 3 = (if a then 1 else 0) ||| (if b then 2 else 0) ↔
      (o &&& 1 != 0) = a ∧ (o &&& 2 != 0) = b := by
    decide +kernel
  exact hbits o c.debugInfo c.sourceFilename.isSome

theorem decodeHeader_eq : decodeHeader = (do
    let found ← take 4
    if found ≠ magic then fail .badMagic else do
      let version ← byte
      if latestVersion < version then fail (.unsupportedVersion version) else do
        let options ← byte
        let _ ← take 1
        return (version, options)) := rfl

theorem reads_decodeHeader : decodeHeader.Reads fun p w =>
    p.1 = 0 ∧ ∃ reserved, w = magic ++ [p.1, p.2, reserved] := by
  rw [decodeHeader_eq]
  refine (reads_bind (reads_take 4) fun found => reads_unless (reads_bind reads_byte fun version =>
    reads_unless (reads_bind reads_byte fun options => reads_return (reads_take 1)
    fun _ => (version, options)) _ _) _ _).congr fun p w => ?_
  have hversion : ∀ version : UInt8, ¬ latestVersion < version ↔ version = 0 := by decide +kernel
  constructor
  · rintro ⟨_, found, _, ⟨rfl, -⟩, ⟨hmagic, ⟨version, _, _, rfl, ⟨hlatest, ⟨options, _, _, rfl,
      ⟨_, ⟨rfl, hone⟩, rfl⟩, rfl⟩⟩, rfl⟩⟩, rfl⟩
    obtain ⟨reserved, rfl⟩ := List.length_eq_one_iff.1 hone
    exact ⟨(hversion version).1 hlatest, reserved, by rw [not_not.1 hmagic]; rfl⟩
  · obtain ⟨version, options⟩ := p
    rintro ⟨hv, reserved, rfl⟩
    exact ⟨magic, _, _, ⟨rfl, rfl⟩, ⟨not_not.2 rfl, ⟨version, _, _, rfl, ⟨(hversion version).2 hv,
      ⟨options, _, _, rfl, ⟨[reserved], ⟨rfl, rfl⟩, rfl⟩, rfl⟩⟩, rfl⟩⟩, rfl⟩

/-- Reads the names. -/
def decodeTokens (debugInfo : Bool) : Decoder (Array String) :=
  if debugInfo then do
    let tokenCount ← count .tokens
    times tokenCount string
  else pure #[]

/-- Reads the name of the source file. -/
def decodeSource (present : Bool) : Decoder (Option String) :=
  if present then some <$> string else pure none

theorem decoder_eq : decoder = (do
    let header ← decodeHeader
    let functionCount ← count .functions
    if functionCount = 0 then fail .noFunctions
    else do
      let functions ← times functionCount (decodeFunction (header.2 &&& 1 != 0))
      let tokens ← decodeTokens (header.2 &&& 1 != 0)
      let sourceFilename ← decodeSource (header.2 &&& 2 != 0)
      return ⟨header.1, header.2 &&& 1 != 0, functions.toList, tokens.toList, sourceFilename⟩) := by
  unfold decoder decodeTokens decodeSource
  refine bind_congr fun header => bind_congr fun functionCount => ?_
  dsimp only
  generalize (header.2 &&& 1 != 0) = debugInfo
  generalize (header.2 &&& 2 != 0) = present
  split
  · rfl
  · refine bind_congr fun functions => ?_
    cases debugInfo <;> cases present <;> simp [bind_assoc]

theorem reads_decodeTokens (debugInfo : Bool) : (decodeTokens debugInfo).Reads fun tokens w =>
    (tokens.size < 2 ^ 31 ∧ ∀ s ∈ tokens.toList, Bytes.Fits s) ∧
      (debugInfo = false → tokens.toList = []) ∧
        w = if debugInfo then encodeCount tokens.size ++ tokens.toList.flatMap encodeString
          else [] := by
  cases debugInfo with
  | false =>
    refine (reads_pure #[]).congr fun tokens w => ?_
    simp only [Bool.false_eq_true, if_false, forall_const]
    constructor
    · rintro ⟨rfl, rfl⟩
      exact ⟨⟨by decide, fun s hs => absurd hs List.not_mem_nil⟩, rfl, rfl⟩
    · rintro ⟨-, hnil, rfl⟩
      exact ⟨Array.toList_inj.1 hnil, rfl⟩
  | true =>
    refine (reads_bind (reads_count .tokens) fun n => reads_times reads_string n).congr
      fun tokens w => ?_
    simp only [if_true]
    constructor
    · rintro ⟨_, _, _, ⟨hcount, rfl⟩, ⟨rfl, hfits, rfl⟩, rfl⟩
      exact ⟨⟨hcount, hfits⟩, nofun, rfl⟩
    · rintro ⟨⟨hcount, hfits⟩, -, rfl⟩
      exact ⟨tokens.size, _, _, ⟨hcount, rfl⟩, ⟨rfl, hfits, rfl⟩, rfl⟩

theorem encodeSource_eq (c : Container) :
    c.encodeSource = c.sourceFilename.elim [] encodeString := by
  unfold encodeSource
  cases c.sourceFilename <;> rfl

theorem reads_decodeSource (present : Bool) : (decodeSource present).Reads fun name w =>
    (∀ s, name = some s → Bytes.Fits s) ∧ present = name.isSome ∧
      w = name.elim [] encodeString := by
  cases present with
  | false =>
    refine (reads_pure none).congr fun name w => ?_
    cases name <;> simp
  | true =>
    refine (reads_map reads_string some).congr fun name w => ?_
    cases name with
    | none => simp
    | some s => simp [Bytes.Fits]

/-- A container comes out of a file as it was written, with all of it kept. -/
structure IsRead (c : Container) : Prop where
  version : c.version = 0
  functions : c.functions ≠ []
  fits : c.Fits
  normal : c.IsNormal
  settled : ∀ f ∈ c.functions, f.chunk.currentLine = 0

/-- The format of containers. -/
theorem reads_decoder : decoder.Reads fun c w => c.IsRead ∧
    ∃ options reserved, options &&& 3 = c.options ∧
      w = magic ++ [c.version, options, reserved] ++ c.body := by
  rw [decoder_eq]
  refine (reads_bind reads_decodeHeader fun header => reads_bind (reads_count .functions)
    fun functionCount => reads_unless (reads_bind
      (reads_times (reads_decodeFunction (header.2 &&& 1 != 0)) functionCount) fun functions =>
    reads_bind (reads_decodeTokens (header.2 &&& 1 != 0)) fun tokens =>
    reads_return (reads_decodeSource (header.2 &&& 2 != 0)) fun sourceFilename => _) _ _).congr
    fun c w => ?_
  constructor
  · rintro ⟨⟨version, options⟩, _, _, ⟨hversion, reserved, rfl⟩, ⟨_, _, _, ⟨hcount, rfl⟩,
      ⟨hne, ⟨functions, _, _, ⟨rfl, hfunctions, rfl⟩, ⟨tokens, _, _, ⟨htokens, hnone, rfl⟩,
      ⟨source, ⟨hsource, hpresent, rfl⟩, rfl⟩, rfl⟩, rfl⟩⟩, rfl⟩, rfl⟩
    refine ⟨⟨hversion, ?_, ⟨hcount, fun f hf => (hfunctions f hf).1, htokens.1, htokens.2, hsource⟩,
      ⟨fun f hf => (hfunctions f hf).2.1, hnone⟩, fun f hf => (hfunctions f hf).2.2⟩,
      options, reserved, (and_options_iff _ _).2 ⟨rfl, hpresent⟩, ?_⟩
    · intro hnil
      exact hne (by simpa using congrArg List.length hnil)
    · simp [body, encodeTokens, encodeSource_eq]
  · obtain ⟨version, debugInfo, functions, tokens, source⟩ := c
    rintro ⟨⟨hversion, hne, hfits, hnormal, hsettled⟩, options, reserved, hoptions, rfl⟩
    obtain ⟨hdebug, hpresent⟩ := (and_options_iff _ _).1 hoptions
    refine ⟨(version, options), _, _, ⟨hversion, reserved, rfl⟩, ⟨functions.length, _, _,
      ⟨hfits.count, rfl⟩, ⟨?_, ⟨functions.toArray, _, _, ⟨rfl, ?_, rfl⟩, ⟨tokens.toArray, _, _,
      ⟨⟨hfits.tokenCount, hfits.tokens⟩, ?_, rfl⟩,
      ⟨source, ⟨hfits.source, hpresent, rfl⟩, ?_⟩, rfl⟩,
      rfl⟩⟩, rfl⟩, ?_⟩
    · exact fun h => hne (List.length_eq_zero_iff.1 h)
    · intro f hf
      rw [hdebug]
      exact ⟨hfits.functions f hf, hnormal.functions f hf, hsettled f hf⟩
    · rw [hdebug]
      exact hnormal.tokens
    · dsimp only at hdebug ⊢
      rw [hdebug]
    · dsimp only at hdebug
      simp [body, encodeTokens, encodeSource_eq, hdebug]

/-- The bytes that begin as a container is written are its header, its body and a rest. -/
theorem exists_rest_of_begins {c : Container} {bytes : List UInt8} (hbegins : c.Begins bytes) :
    ∃ options reserved rest, options &&& 3 = c.options ∧
      bytes = magic ++ [c.version, options, reserved] ++ c.body ++ rest := by
  obtain ⟨hlength, hoptions, hothers⟩ := hbegins
  rw [encode_eq] at hlength hoptions hothers
  -- the header is there, so its bytes can be named
  obtain ⟨b0, b1, b2, b3, b4, options, reserved, rest, rfl⟩ : ∃ b0 b1 b2 b3 b4 b5 b6 rest,
      bytes = b0 :: b1 :: b2 :: b3 :: b4 :: b5 :: b6 :: rest := by
    rcases bytes with _ | ⟨_, _ | ⟨_, _ | ⟨_, _ | ⟨_, _ | ⟨_, _ | ⟨_, _ | ⟨_, _⟩⟩⟩⟩⟩⟩⟩
    case cons.cons.cons.cons.cons.cons.cons => exact ⟨_, _, _, _, _, _, _, _, rfl⟩
    all_goals
      simp only [magic, List.length_cons, List.length_append, List.length_nil] at hlength
      omega
  have hmagic : [b0, b1, b2, b3, b4] = magic ++ [c.version] := by
    have h0 := hothers 0 (by simp [magic]) (by decide) (by decide)
    have h1 := hothers 1 (by simp [magic]) (by decide) (by decide)
    have h2 := hothers 2 (by simp [magic]) (by decide) (by decide)
    have h3 := hothers 3 (by simp [magic]) (by decide) (by decide)
    have h4 := hothers 4 (by simp [magic]) (by decide) (by decide)
    cases h0
    cases h1
    cases h2
    cases h3
    cases h4
    rfl
  have hprefix : c.body <+: rest := by
    refine List.prefix_iff_getElem?.2 fun i hi => ?_
    have hbyte := hothers (i + 7) (by simp [magic]; omega) (by omega) (by omega)
    exact hbyte.trans (List.getElem?_eq_getElem hi)
  obtain ⟨rest, rfl⟩ := hprefix
  refine ⟨options, reserved, rest, hoptions _ _ rfl rfl, ?_⟩
  exact congrArg (· ++ (options :: reserved :: (c.body ++ rest))) hmagic

/-- The unused options, the reserved byte and what stands after the body are free. -/
theorem begins_append {c : Container} {options : UInt8} (hoptions : options &&& 3 = c.options)
    (reserved : UInt8) (rest : List UInt8) :
    c.Begins (magic ++ [c.version, options, reserved] ++ c.body ++ rest) := by
  refine ⟨?_, ?_, ?_⟩
  · simp [encode_eq]
  · rw [encode_eq]
    rintro a b ha hb
    cases ha
    cases hb
    exact hoptions
  · rw [encode_eq]
    intro i hi h5 h6
    rcases i with _ | _ | _ | _ | _ | _ | _ | i
    case succ.succ.succ.succ.succ.succ.succ =>
      have hbody : i < c.body.length := by
        simp only [magic, List.length_append, List.length_cons, List.length_nil] at hi
        omega
      show (c.body ++ rest)[i]? = c.body[i]?
      exact List.getElem?_append_left hbody
    all_goals first | rfl | contradiction

/-- What a container is accepted for, as one sequence of bytes. -/
theorem begins_iff {c : Container} {bytes : List UInt8} : c.Begins bytes ↔
    ∃ options reserved rest, options &&& 3 = c.options ∧
      bytes = magic ++ [c.version, options, reserved] ++ c.body ++ rest := by
  refine ⟨exists_rest_of_begins, ?_⟩
  rintro ⟨options, reserved, rest, hoptions, rfl⟩
  exact begins_append hoptions reserved rest

theorem decode_eq_ok_iff {bytes : List UInt8} {c : Container} :
    decode bytes = .ok c ↔ c.IsRead ∧ c.Begins bytes := by
  have hrun : decode bytes = .ok c ↔ ∃ rest, decoder ⟨0, bytes⟩ = .ok (c, rest) := by
    unfold decode Decoder.run
    cases decoder ⟨0, bytes⟩ with
    | error e => simp
    | ok r => simp [Prod.ext_iff]
  rw [hrun, begins_iff]
  constructor
  · rintro ⟨cursor, h⟩
    obtain ⟨w, ⟨hread, options, reserved, hoptions, rfl⟩, hbytes, -⟩ := (reads_decoder _ _ _).1 h
    exact ⟨hread, options, reserved, cursor.rest, hoptions, hbytes⟩
  · rintro ⟨hread, options, reserved, rest, hoptions, hbytes⟩
    exact ⟨⟨0 + _, rest⟩, (reads_decoder _ _ _).2
      ⟨_, ⟨hread, options, reserved, hoptions, rfl⟩, hbytes, rfl⟩⟩

/-! ### Content -/

/-- A container of which all is kept, however its code was emitted. -/
def IsWritten (c : Container) : Prop :=
  c.version = 0 ∧ c.functions ≠ [] ∧ c.Fits ∧ c.IsNormal

theorem encode_settled (c : Container) : c.settled.encode = c.encode := by
  have hfunctions : (c.functions.map Prototype.settled).flatMap (encodeFunction c.debugInfo) =
      c.functions.flatMap (encodeFunction c.debugInfo) := by
    rw [List.flatMap_map]
    rfl
  simp only [encode, settled, hfunctions, List.length_map]
  rfl

theorem settled_of_isRead {c : Container} (hc : c.IsRead) : c.settled = c := by
  have hfunctions : c.functions.map Prototype.settled = c.functions := by
    refine (List.map_congr_left fun f hf => ?_).trans (List.map_id c.functions)
    show { f with chunk := { f.chunk with currentLine := 0 } } = f
    rw [← hc.settled f hf]
  simp only [settled, hfunctions]

theorem isRead_settled {c : Container} : c.settled.IsRead ↔ c.IsWritten := by
  have hall : ∀ {P : Prototype → Prop}, (∀ f ∈ c.functions.map Prototype.settled, P f) ↔
      ∀ f ∈ c.functions, P f.settled := List.forall_mem_map
  constructor
  · rintro ⟨hversion, hne, hfits, hnormal, -⟩
    refine ⟨hversion, fun h => hne (by simp [settled, h]), ?_, ?_⟩
    · refine ⟨by simpa [settled] using hfits.count, fun f hf => ?_, hfits.tokenCount, hfits.tokens,
        hfits.source⟩
      obtain ⟨hcode, hconstants, htexts⟩ := hall.1 hfits.functions f hf
      exact ⟨hcode, hconstants, htexts⟩
    · exact ⟨fun f hf => hall.1 hnormal.functions f hf, hnormal.tokens⟩
  · rintro ⟨hversion, hne, hfits, hnormal⟩
    refine ⟨hversion, fun h => hne (List.map_eq_nil_iff.1 h), ?_, ?_, hall.2 fun f hf => rfl⟩
    · refine ⟨by simpa [settled] using hfits.count, hall.2 fun f hf => ?_, hfits.tokenCount,
        hfits.tokens, hfits.source⟩
      obtain ⟨hcode, hconstants, htexts⟩ := hfits.functions f hf
      exact ⟨hcode, hconstants, htexts⟩
    · exact ⟨hall.2 fun f hf => hnormal.functions f hf, hnormal.tokens⟩

theorem begins_settled {c : Container} {bytes : List UInt8} :
    c.settled.Begins bytes ↔ c.Begins bytes := by
  constructor
  · rintro ⟨hlength, hoptions, hothers⟩
    rw [encode_settled] at hlength hoptions hothers
    exact ⟨hlength, hoptions, hothers⟩
  · rintro ⟨hlength, hoptions, hothers⟩
    rw [← encode_settled] at hlength hoptions hothers
    exact ⟨hlength, hoptions, hothers⟩

theorem accepted_iff {bytes : List UInt8} {c : Container} :
    Accepted bytes c ↔ c.IsWritten ∧ c.Begins bytes := by
  rw [← isRead_settled, ← begins_settled, ← decode_eq_ok_iff]
  constructor
  · rintro ⟨found, hfound, hsame⟩
    have hsettled := settled_of_isRead (decode_eq_ok_iff.1 hfound).1
    rw [hfound, ← hsettled, hsame]
  · intro h
    refine ⟨c.settled, h, ?_⟩
    exact settled_of_isRead (decode_eq_ok_iff.1 h).1

/-! ### Normal forms -/

/-- The lines that are written are those of the code, filled up with zeros. -/
theorem lineTable_eq (c : Chunk) : lineTable c = c.paddedLines.toList := by
  have hline : ∀ i : Nat, c.lines.bind (·[i]?) = (c.lines.getD #[]).toList[i]? := by
    intro i
    cases c.lines <;> simp
  refine List.ext_getElem? fun i => ?_
  simp only [lineTable, Chunk.paddedLines, hline, List.getElem?_map, List.getElem?_append,
    List.getElem?_take, List.getElem?_replicate, List.length_take]
  generalize (c.lines.getD #[]).toList = lines
  by_cases hcode : i < c.code.size
  · by_cases hline : i < lines.length
    · simp [hcode, hline]
    · have hpad : i - min c.code.size lines.length <
          c.code.size - min c.code.size lines.length := by
        omega
      simp [hcode, hline, hpad]
  · have hpad : ¬ i - min c.code.size lines.length <
        c.code.size - min c.code.size lines.length := by
      omega
    simp [hcode, hpad]

theorem size_paddedLines (c : Chunk) : c.paddedLines.size = c.code.size := by
  simp [Chunk.paddedLines]

theorem isNormal_normal (debugInfo : Bool) (f : Prototype) :
    (f.normal debugInfo).IsNormal debugInfo := by
  cases debugInfo with
  | false => exact rfl
  | true => exact ⟨_, rfl, size_paddedLines f.chunk⟩

theorem encodeFunction_normal (debugInfo : Bool) (f : Prototype) :
    encodeFunction debugInfo (f.normal debugInfo) = encodeFunction debugInfo f := by
  cases debugInfo with
  | false => rfl
  | true =>
    have hlines : lineTable (f.normal true).chunk = lineTable f.chunk := by
      rw [lineTable_eq f.chunk]
      exact lineTable_of_size rfl (size_paddedLines f.chunk)
    simp only [encodeFunction, encodeLines, hlines]
    rfl

/-- What is not kept is not written. -/
theorem encode_normal (c : Container) : c.normal.encode = c.encode := by
  have hfunctions : (c.functions.map (Prototype.normal c.debugInfo)).flatMap
      (encodeFunction c.debugInfo) = c.functions.flatMap (encodeFunction c.debugInfo) := by
    rw [List.flatMap_map]
    simp only [encodeFunction_normal]
  have htokens : c.normal.encodeTokens = c.encodeTokens := by
    unfold encodeTokens normal
    cases c.debugInfo <;> rfl
  simp only [encode, htokens]
  simp only [normal, hfunctions, List.length_map]
  rfl

theorem begins_encode (c : Container) : c.Begins c.encode := by
  refine begins_iff.2 ⟨c.options, 0, [], ?_, by rw [encode_eq, List.append_nil]⟩
  unfold options
  generalize c.sourceFilename.isSome = present
  cases c.debugInfo <;> cases present <;> decide

theorem isRead_normal {c : Container} (hversion : c.version = 0) (hfunctions : c.functions ≠ [])
    (hfits : c.Fits) : c.normal.IsRead := by
  have hall : ∀ {P : Prototype → Prop}, (∀ f ∈ c.normal.functions, P f) ↔
      ∀ f ∈ c.functions, P (f.normal c.debugInfo) := List.forall_mem_map
  obtain ⟨hcount, hfits', htokenCount, htokens, hsource⟩ := hfits
  refine ⟨hversion, fun h => hfunctions (List.map_eq_nil_iff.1 h), ⟨?_, ?_, ?_, ?_, hsource⟩,
    ⟨?_, ?_⟩, hall.2 fun f hf => rfl⟩
  · simpa [normal] using hcount
  · refine hall.2 fun f hf => ?_
    obtain ⟨hcode, hconstants, htexts⟩ := hfits' f hf
    exact ⟨hcode, hconstants, htexts⟩
  · unfold normal
    cases c.debugInfo
    · exact Nat.two_pow_pos 31
    · exact htokenCount
  · unfold normal
    cases c.debugInfo
    · exact fun s hs => absurd hs List.not_mem_nil
    · exact htokens
  · exact hall.2 fun f hf => isNormal_normal c.debugInfo f
  · intro hdebug
    have hdebug : c.debugInfo = false := hdebug
    simp [normal, hdebug]

/-- Reading what was written gives what is kept of a container, and so the container itself exactly
if all of it is kept. -/
theorem decode_encode_normal (c : Container) (hversion : c.version = 0)
    (hfunctions : c.functions ≠ []) (hfits : c.Fits) :
    decode c.encode = .ok c.normal ∧ (Accepted c.encode c ↔ c.IsNormal) := by
  constructor
  · have hbegins : c.normal.Begins c.encode := encode_normal c ▸ begins_encode c.normal
    exact decode_eq_ok_iff.2 ⟨isRead_normal hversion hfunctions hfits, hbegins⟩
  · rw [accepted_iff]
    constructor
    · rintro ⟨⟨-, -, -, hnormal⟩, -⟩
      exact hnormal
    · intro hnormal
      exact ⟨⟨hversion, hfunctions, hfits, hnormal⟩, begins_encode c⟩

/-- A script with debugging information whose first function has a line for one of its two bytes of
code and whose second has no lines. -/
def partlyLined : Container where
  version := 0
  debugInfo := true
  functions := [⟨0, 7, ⟨#[0x1F, 0x20], some #[5], #[.string "é", .decimal ⟨0x7FC00001⟩], 9⟩⟩,
    ⟨-1, 8, ⟨#[0x20], none, #[], 0⟩⟩]
  tokens := ["main"]
  sourceFilename := some ""

/-- The missing lines are read as zeros, so it is not the same script. -/
theorem decode_encode_partlyLined : partlyLined.Fits ∧
    decode partlyLined.encode = .ok
      { partlyLined with
        functions := [
          ⟨0, 7, ⟨#[0x1F, 0x20], some #[5, 0], #[.string "é", .decimal ⟨0x7FC00001⟩], 0⟩⟩,
          ⟨-1, 8, ⟨#[0x20], some #[0], #[], 0⟩⟩] } ∧
    ¬ Accepted partlyLined.encode partlyLined := by
  have hfits : partlyLined.Fits := by
    refine ⟨by decide, List.forall_mem_cons.2 ⟨⟨by decide, by decide, by decide⟩,
      List.forall_mem_singleton.2 ⟨by decide, by decide, by decide⟩⟩, by decide, by decide, ?_⟩
    rintro s ⟨⟩
    decide
  obtain ⟨hread, hsame⟩ := decode_encode_normal partlyLined rfl nofun hfits
  refine ⟨hfits, hread, fun haccepted => ?_⟩
  obtain ⟨lines, hlines, hsize⟩ := (hsame.1 haccepted).functions _ List.mem_cons_self
  cases hlines
  cases hsize

/-- What is accepted are the bytes of containers of which all is kept, with free option bits, a free
byte and anything behind; so what was read is written as it stood. -/
theorem decode_accepts_iff (bytes : List UInt8) (c : Container) :
    (Accepted bytes c ↔ c.IsWritten ∧ c.Begins bytes) ∧
      ∀ found, decode bytes = .ok found →
        found.Begins bytes ∧ decode found.encode = .ok found := by
  refine ⟨accepted_iff, fun found hfound => ?_⟩
  obtain ⟨hread, hbegins⟩ := decode_eq_ok_iff.1 hfound
  exact ⟨hbegins, decode_eq_ok_iff.2 ⟨hread, begins_encode found⟩⟩

/-- A file with all option bits, a filled reserved byte and a byte behind. -/
theorem decode_accepts_free_bits :
    let script : Container := ⟨0, true, [⟨0, 7, ⟨#[0x20], some #[5], #[], 0⟩⟩], [], some ""⟩
    let bytes := magic ++ [0, 0xFF, 0xEE] ++ script.body ++ [0x99]
    decode bytes = .ok script ∧ script.encode ≠ bytes ∧ script.Begins bytes ∧
      decode script.encode = .ok script := by
  intro script bytes
  have hread : decode bytes = .ok script := by decide +kernel
  obtain ⟨-, hrewrite⟩ := decode_accepts_iff bytes script
  exact ⟨hread, by decide, hrewrite script hread⟩

end Container
end ScriptVm
