import ScriptVm.Proofs.Arithmetic.Integers
import ScriptVm.Proofs.Arithmetic.Zeros

/-!
# Operations on numbers

What `Memory.binary` and `Memory.unary` do with every opcode and all values.

* `Opcode.binaryCodes` and `Opcode.unaryCodes` are the opcodes of operations; `truthCodes` are those
  that say yes or no.
* `Memory.Binary` and `Memory.Unary` list the outcomes with the operands that they belong to. No two
  of them fit the same operands.
* `binary_spec` and `unary_spec` say which outcome there is, `binary_delink` and `unary_delink` that
  links are read and not otherwise looked at. `arithmetic` is all of it.
-/

namespace ScriptVm

variable {mem : Memory} {cells : Cells} {code : Opcode} {a b v : Value}

/-! ### Opcodes -/

namespace Opcode

/-- The operations on two numbers. -/
def binaryCodes : List Opcode :=
  [.add, .subtract, .multiply, .divide, .modulo, .bitshiftLeft, .bitshiftRight, .bitAnd, .bitOr,
    .bitXor, .logicalAnd, .logicalOr, .less, .greater, .lessEqual, .greaterEqual]

/-- The logical operations and the comparisons of two numbers. -/
def truthCodes : List Opcode :=
  [.logicalAnd, .logicalOr, .less, .greater, .lessEqual, .greaterEqual]

/-- The operations on one number. -/
def unaryCodes : List Opcode := [.negate, .increment, .decrement, .bitNot, .logicalNot]

theorem ofOpcode?_binary : (∃ op, BinaryOp.ofOpcode? code = some op) ↔ code ∈ binaryCodes := by
  cases code <;> simp [BinaryOp.ofOpcode?, binaryCodes]

theorem ofOpcode?_unary : (∃ op, UnaryOp.ofOpcode? code = some op) ↔ code ∈ unaryCodes := by
  cases code <;> simp [UnaryOp.ofOpcode?, unaryCodes]

end Opcode

/-! ### Numbers -/

namespace Value

/-- A zero of either kind, plain or linked. -/
def IsZero (cells : Cells) (v : Value) : Prop :=
  v.integer? cells = some 0 ∨ ∃ s, v.decimal? cells = some (.zero s)

/-- An integer is divided by zero, or anything by zero where one of the numbers is a decimal; the
remainder by a decimal zero is not refused. -/
def DividesByZero (cells : Cells) (code : Opcode) (a b : Value) : Prop :=
  ((code = .divide ∨ code = .modulo) ∧ a.isInteger ∧ b.integer? cells = some 0) ∨
    (code = .divide ∧ (a.isDecimal ∨ b.isDecimal) ∧ b.IsZero cells)

theorem isInteger_iff : v.isInteger ↔ ∃ n, v.integer? cells = some n := by
  cases v <;> simp [isInteger, integer?]

theorem isDecimal_iff : v.isDecimal ↔ ∃ d, v.decimal? cells = some d := by
  cases v <;> simp [isDecimal, decimal?]

theorem not_isDecimal_of_integer? {n : Int32} (hv : v.integer? cells = some n) :
    v.isDecimal = false := by
  cases v with
  | integer n => rfl
  | linkedInteger l => rfl
  | _ => cases hv

theorem isInteger_of_not_isDecimal (hv : v.isNumber) (hdecimal : ¬ v.isDecimal) : v.isInteger := by
  unfold isNumber at hv
  rw [Bool.or_eq_true] at hv
  exact hv.resolve_right hdecimal

theorem isNumber_of_isInteger (hv : v.isInteger) : v.isNumber := by
  unfold isNumber
  rw [hv, Bool.true_or]

theorem castDecimal?_of_isNumber (hv : v.isNumber) : ∃ d, v.castDecimal? cells = some d ∧
    (d.isZero ↔ v.IsZero cells) := by
  cases v with
  | null => cases hv
  | object h => cases hv
  | integer n => exact ⟨_, rfl, by simp [IsZero, integer?, decimal?, Decimal.isZero_ofInt32]⟩
  | linkedInteger l => exact ⟨_, rfl, by simp [IsZero, integer?, decimal?, Decimal.isZero_ofInt32]⟩
  | decimal d => exact ⟨_, rfl, by simp [IsZero, integer?, decimal?, Decimal.isZero_iff]⟩
  | linkedDecimal l => exact ⟨_, rfl, by simp [IsZero, integer?, decimal?, Decimal.isZero_iff]⟩

section Delink

variable (cells v)

@[simp] theorem integer?_delink : (v.delink cells).integer? cells = v.integer? cells := by
  cases v <;> rfl

@[simp] theorem castDecimal?_delink :
    (v.delink cells).castDecimal? cells = v.castDecimal? cells := by
  cases v <;> rfl

end Delink

end Value

namespace Memory

open Opcode

@[simp] theorem requireNumber_delink (mem : Memory) (operation : String) (v : Value) :
    mem.requireNumber operation (v.delink cells) = mem.requireNumber operation v := by
  cases v <;> rfl

theorem requireNumber_of_isNumber (hv : v.isNumber) (operation : String) :
    mem.requireNumber operation v = .ok () := if_pos hv

theorem requireNumber_of_not (hv : v.isNumber = false) (operation : String) :
    mem.requireNumber operation v = .error (.notNumber operation (mem.typeName v)) := by
  unfold requireNumber
  rw [hv]
  rfl

/-! ### Two numbers -/

/-- The outcomes of the operations on two values. -/
inductive Binary (mem : Memory) (code : Opcode) (a b : Value) : Except Cause Value → Prop
  | notLeft (ha : a.isNumber = false) :
    Binary mem code a b (.error (.notNumber (operationName code) (mem.typeName a)))
  | notRight (ha : a.isNumber) (hb : b.isNumber = false) :
    Binary mem code a b (.error (.notNumber (operationName code) (mem.typeName b)))
  | notBinary (ha : a.isNumber) (hb : b.isNumber) (hcode : code ∉ binaryCodes) :
    Binary mem code a b (.error (.notBinary code.name))
  | zeroInteger (hcode : code = .divide ∨ code = .modulo) (ha : a.isInteger)
    (hb : b.integer? mem.cells = some 0) : Binary mem code a b (.error .integerDivisionByZero)
  | zeroDecimal (hcode : code = .divide) (ha : a.isNumber) (hb : b.isNumber)
    (hdecimal : a.isDecimal ∨ b.isDecimal) (hzero : b.IsZero mem.cells) :
    Binary mem code a b (.error .decimalDivisionByZero)
  | integer {x y z : Int32} (ha : a.integer? mem.cells = some x)
    (hb : b.integer? mem.cells = some y)
    (hcode : code ∈ binaryCodes) (hzero : ¬ a.DividesByZero mem.cells code b)
    (hz : code.Computes x y z) : Binary mem code a b (.ok (.integer z))
  | decimal (d : Decimal) (ha : a.isNumber) (hb : b.isNumber) (hdecimal : a.isDecimal ∨ b.isDecimal)
    (hcode : code ∈ binaryCodes) (htruth : code ∉ truthCodes)
    (hzero : ¬ a.DividesByZero mem.cells code b) : Binary mem code a b (.ok (.decimal d))
  | truth (t : Bool) (ha : a.isNumber) (hb : b.isNumber) (hdecimal : a.isDecimal ∨ b.isDecimal)
    (hcode : code ∈ truthCodes) : Binary mem code a b (.ok (.integer (if t then 1 else 0)))

/-- The operation on the numbers of two values. -/
def onNumbers (cells : Cells) (op : BinaryOp) (a b : Value) : Except Cause Value :=
  match a.integer? cells, b.integer? cells with
  | some x, some y => op.onIntegers x y
  | _, _ =>
    op.onDecimals ((a.castDecimal? cells).getD (.zero false))
      ((b.castDecimal? cells).getD (.zero false))

/-- The operands are looked at before the opcode. -/
theorem binary_eq (mem : Memory) (code : Opcode) (a b : Value) : mem.binary code a b = (do
    mem.requireNumber (operationName code) a
    mem.requireNumber (operationName code) b
    match BinaryOp.ofOpcode? code with
    | some op => onNumbers mem.cells op a b
    | none => .error (.notBinary code.name)) := by
  unfold binary
  cases hop : BinaryOp.ofOpcode? code with
  | none => rfl
  | some op =>
    have hname : operationName code = op.phrase := by
      unfold operationName
      rw [hop]
    rw [hname]
    rfl

theorem binary_of_isNumber (ha : a.isNumber) (hb : b.isNumber) : mem.binary code a b =
    match BinaryOp.ofOpcode? code with
    | some op => onNumbers mem.cells op a b
    | none => .error (.notBinary code.name) := by
  rw [binary_eq, requireNumber_of_isNumber ha, requireNumber_of_isNumber hb]
  rfl

/-- Two integers are divided by zero where the opcode divides and the second is zero. -/
theorem dividesByZero_iff_of_integers {x y : Int32} (ha : a.integer? cells = some x)
    (hb : b.integer? cells = some y) :
    a.DividesByZero cells code b ↔ (code = .divide ∨ code = .modulo) ∧ y = 0 := by
  have ha' : a.isInteger := Value.isInteger_iff.2 ⟨x, ha⟩
  have hdecimal : ¬ (a.isDecimal ∨ b.isDecimal) := by
    rw [Value.not_isDecimal_of_integer? ha, Value.not_isDecimal_of_integer? hb]
    decide
  unfold Value.DividesByZero
  rw [hb, Option.some.injEq]
  constructor
  · rintro (⟨hcode, -, hy⟩ | ⟨-, h, -⟩)
    · exact ⟨hcode, hy⟩
    · exact absurd h hdecimal
  · rintro ⟨hcode, hy⟩
    exact Or.inl ⟨hcode, ha', hy⟩

/-- With a decimal only the quotient by a zero is refused. -/
theorem dividesByZero_iff_of_decimal (hdecimal : a.isDecimal ∨ b.isDecimal) :
    a.DividesByZero cells code b ↔ code = .divide ∧ b.IsZero cells := by
  constructor
  · rintro (⟨-, ha, hb⟩ | ⟨hcode, -, hb⟩)
    · obtain ⟨x, hx⟩ : ∃ x, a.integer? cells = some x := Value.isInteger_iff.1 ha
      rw [Value.not_isDecimal_of_integer? hx, Value.not_isDecimal_of_integer? hb] at hdecimal
      exact absurd hdecimal (by decide)
    · exact ⟨hcode, hb⟩
  · rintro ⟨hcode, hb⟩
    exact Or.inr ⟨hcode, hdecimal, hb⟩

theorem binary_of_integers {op : BinaryOp} {x y : Int32} (hop : BinaryOp.ofOpcode? code = some op)
    (ha : a.integer? mem.cells = some x) (hb : b.integer? mem.cells = some y) :
    Binary mem code a b (op.onIntegers x y) := by
  have ha' : a.isInteger := Value.isInteger_iff.2 ⟨x, ha⟩
  have hiff : a.DividesByZero mem.cells code b ↔ (code = .divide ∨ code = .modulo) ∧ y = 0 :=
    dividesByZero_iff_of_integers ha hb
  by_cases hzero : (code = .divide ∨ code = .modulo) ∧ y = 0
  · have hrefused : op.onIntegers x y = .error .integerDivisionByZero := by
      obtain ⟨rfl | rfl, hy⟩ := hzero
      · cases hop
        exact if_pos hy
      · cases hop
        exact if_pos hy
    obtain ⟨hcode, rfl⟩ := hzero
    rw [hrefused]
    exact .zeroInteger hcode ha' hb
  · obtain ⟨z, hz, hcomputes⟩ := BinaryOp.onIntegers_computes (x := x) (y := y) hop
      fun hcode hy => hzero ⟨hcode, hy⟩
    rw [hz]
    exact .integer ha hb (ofOpcode?_binary.1 ⟨op, hop⟩) (mt hiff.1 hzero) hcomputes

/-- What the operations on two decimals give, by kind. -/
theorem onDecimals_cases {op : BinaryOp} (hop : BinaryOp.ofOpcode? code = some op) (d e : Decimal) :
    (code = .divide ∧ e.isZero ∧ op.onDecimals d e = .error .decimalDivisionByZero) ∨
      (code ∉ truthCodes ∧ ¬ (code = .divide ∧ e.isZero) ∧
        ∃ r, op.onDecimals d e = .ok (.decimal r)) ∨
      code ∈ truthCodes ∧ ∃ t : Bool, op.onDecimals d e = .ok (.integer (if t then 1 else 0)) := by
  cases code with
  | divide =>
    cases hop
    by_cases he : e.isZero
    · exact Or.inl ⟨rfl, he, if_pos he⟩
    · exact Or.inr (Or.inl ⟨by decide, fun h => he h.2, _, if_neg he⟩)
  | logicalAnd | logicalOr =>
    cases hop
    exact Or.inr (Or.inr ⟨by decide, false, rfl⟩)
  | less | greater | lessEqual | greaterEqual =>
    cases hop
    exact Or.inr (Or.inr ⟨by decide, _, rfl⟩)
  | add | subtract | multiply | modulo | bitshiftLeft | bitshiftRight | bitAnd | bitOr | bitXor =>
    cases hop
    exact Or.inr (Or.inl ⟨by decide, fun h => absurd h.1 (by decide), _, rfl⟩)
  | _ => cases hop

theorem binary_of_decimal {op : BinaryOp} (hop : BinaryOp.ofOpcode? code = some op)
    (ha : a.isNumber) (hb : b.isNumber) (hdecimal : a.isDecimal ∨ b.isDecimal) :
    Binary mem code a b (onNumbers mem.cells op a b) := by
  obtain ⟨d, hd, -⟩ : ∃ d, a.castDecimal? mem.cells = some d ∧ _ :=
    Value.castDecimal?_of_isNumber ha
  obtain ⟨e, he, hzero⟩ : ∃ e, b.castDecimal? mem.cells = some e ∧ _ :=
    Value.castDecimal?_of_isNumber hb
  have honNumbers : onNumbers mem.cells op a b = op.onDecimals d e := by
    unfold onNumbers
    rw [hd, he]
    split
    · rename_i x y hx hy
      rw [Value.not_isDecimal_of_integer? hx, Value.not_isDecimal_of_integer? hy] at hdecimal
      exact absurd hdecimal (by decide)
    · rfl
  have hiff : a.DividesByZero mem.cells code b ↔ code = .divide ∧ e.isZero := by
    rw [dividesByZero_iff_of_decimal hdecimal, hzero]
  rw [honNumbers]
  rcases onDecimals_cases hop d e with ⟨hcode, hez, h⟩ | ⟨htruth, hdivides, r, h⟩ | ⟨htruth, t, h⟩
  · rw [h]
    exact .zeroDecimal hcode ha hb hdecimal (hzero.1 hez)
  · rw [h]
    exact .decimal r ha hb hdecimal (ofOpcode?_binary.1 ⟨op, hop⟩) htruth (mt hiff.1 hdivides)
  · rw [h]
    exact .truth t ha hb hdecimal htruth

theorem binary_spec (mem : Memory) (code : Opcode) (a b : Value) :
    Binary mem code a b (mem.binary code a b) := by
  by_cases ha : a.isNumber = false
  · rw [binary_eq, requireNumber_of_not ha]
    exact .notLeft ha
  rw [Bool.not_eq_false] at ha
  by_cases hb : b.isNumber = false
  · rw [binary_eq, requireNumber_of_isNumber ha, requireNumber_of_not hb]
    exact .notRight ha hb
  rw [Bool.not_eq_false] at hb
  rw [binary_of_isNumber ha hb]
  cases hop : BinaryOp.ofOpcode? code with
  | none =>
    refine .notBinary ha hb fun hcode => ?_
    obtain ⟨op, hsome⟩ := ofOpcode?_binary.2 hcode
    cases hop.symm.trans hsome
  | some op =>
    by_cases hdecimal : a.isDecimal ∨ b.isDecimal
    · exact binary_of_decimal hop ha hb hdecimal
    · obtain ⟨ha', hb'⟩ := not_or.1 hdecimal
      obtain ⟨x, hx⟩ := Value.isInteger_iff.1 (Value.isInteger_of_not_isDecimal ha ha')
      obtain ⟨y, hy⟩ := Value.isInteger_iff.1 (Value.isInteger_of_not_isDecimal hb hb')
      have honNumbers : onNumbers mem.cells op a b = op.onIntegers x y := by
        unfold onNumbers
        rw [hx, hy]
      show Binary mem code a b (onNumbers mem.cells op a b)
      rw [honNumbers]
      exact binary_of_integers hop hx hy

@[simp] theorem binary_delink_left (mem : Memory) (code : Opcode) (a b : Value) :
    mem.binary code (a.delink mem.cells) b = mem.binary code a b := by
  simp only [binary_eq, requireNumber_delink, onNumbers, Value.integer?_delink,
    Value.castDecimal?_delink]

@[simp] theorem binary_delink_right (mem : Memory) (code : Opcode) (a b : Value) :
    mem.binary code a (b.delink mem.cells) = mem.binary code a b := by
  simp only [binary_eq, requireNumber_delink, onNumbers, Value.integer?_delink,
    Value.castDecimal?_delink]

/-! ### One number -/

/-- The outcomes of the operations on a value. -/
inductive Unary (mem : Memory) (code : Opcode) (a : Value) : Except Cause Value → Prop
  | notNumber (ha : a.isNumber = false) (hcode : code ≠ .logicalNot) :
    Unary mem code a (.error (.notNumber (operationName code) (mem.typeName a)))
  | notUnary (ha : a.isNumber) (hcode : code ∉ unaryCodes) :
    Unary mem code a (.error (.notUnary code.name))
  | negation (ha : a.isNumber = false) (hcode : code = .logicalNot) :
    Unary mem code a (.ok (.integer (if a.isNull then 1 else 0)))
  | integer {x z : Int32} (ha : a.integer? mem.cells = some x) (hcode : code ∈ unaryCodes)
    (hz : code.ComputesOne x z) : Unary mem code a (.ok (.integer z))
  | decimal {d : Decimal} (r : Decimal) (ha : a.decimal? mem.cells = some d)
    (hcode : code ∈ unaryCodes)
    (hnot : code = .logicalNot → r = if d.isZero then .one else .zero false) :
    Unary mem code a (.ok (.decimal r))

theorem operationName_of_unary {op : UnaryOp} (hop : UnaryOp.ofOpcode? code = some op) :
    operationName code = op.phrase := by
  cases code <;> cases hop <;> rfl

theorem unary_of_operation {op : UnaryOp} (hop : UnaryOp.ofOpcode? code = some op) (a : Value) :
    Unary mem code a (mem.applyUnary op a) := by
  have hcode := ofOpcode?_unary.1 ⟨op, hop⟩
  have hnot : op = .logicalNot ↔ code = .logicalNot := by
    cases code <;> cases hop <;> decide
  unfold applyUnary
  cases hx : a.integer? mem.cells with
  | some x =>
    obtain ⟨z, hz, hcomputes⟩ := UnaryOp.onInteger_computes (x := x) hop
    dsimp only
    rw [hz]
    exact .integer hx hcode hcomputes
  | none =>
    cases hd : a.decimal? mem.cells with
    | some d =>
      dsimp only
      obtain ⟨r, hr⟩ : ∃ r, op.onDecimal d = .decimal r := by
        cases op <;> exact ⟨_, rfl⟩
      rw [hr]
      refine .decimal r hd hcode fun h => ?_
      cases hnot.2 h
      cases hr
      rfl
    | none =>
      have ha : a.isNumber = false := by
        cases a with
        | null | object h => rfl
        | integer n | linkedInteger l => cases hx
        | decimal d | linkedDecimal l => cases hd
      dsimp only
      by_cases hlogical : op = .logicalNot
      · rw [if_pos hlogical]
        exact .negation ha (hnot.1 hlogical)
      · rw [if_neg hlogical, ← operationName_of_unary hop]
        exact .notNumber ha (mt hnot.2 hlogical)

theorem unary_spec (mem : Memory) (code : Opcode) (a : Value) :
    Unary mem code a (mem.unary code a) := by
  unfold unary
  cases hop : UnaryOp.ofOpcode? code with
  | none =>
    have hcode : code ∉ unaryCodes := by
      intro h
      obtain ⟨op, hsome⟩ := ofOpcode?_unary.2 h
      cases hop.symm.trans hsome
    by_cases ha : a.isNumber = false
    · rw [requireNumber_of_not ha]
      exact .notNumber ha fun h => hcode (h ▸ by decide)
    · rw [Bool.not_eq_false] at ha
      rw [requireNumber_of_isNumber ha]
      exact .notUnary ha hcode
  | some op =>
    exact unary_of_operation hop a

@[simp] theorem unary_delink (mem : Memory) (code : Opcode) (a : Value) :
    mem.unary code (a.delink mem.cells) = mem.unary code a := by
  unfold unary
  cases UnaryOp.ofOpcode? code with
  | none => simp only [requireNumber_delink]
  | some op => cases a <;> rfl

/-! ### Failures and successes -/

theorem mem_binaryCodes_of_truth (h : code ∈ truthCodes) : code ∈ binaryCodes := by
  cases code <;> first | decide | exact absurd h (by decide)

theorem not_dividesByZero_of_truth (h : code ∈ truthCodes) : ¬ a.DividesByZero cells code b := by
  rintro (⟨rfl | rfl, -⟩ | ⟨rfl, -⟩)
  all_goals exact absurd h (by decide)

theorem binary_eq_ok_iff : (∃ r, mem.binary code a b = .ok r) ↔
    a.isNumber ∧ b.isNumber ∧ code ∈ binaryCodes ∧ ¬ a.DividesByZero mem.cells code b := by
  have hspec := binary_spec mem code a b
  generalize mem.binary code a b = result at hspec
  constructor
  · rintro ⟨r, rfl⟩
    cases hspec with
    | integer ha hb hcode hzero hz =>
      have ha' := Value.isNumber_of_isInteger (Value.isInteger_iff.2 ⟨_, ha⟩)
      have hb' := Value.isNumber_of_isInteger (Value.isInteger_iff.2 ⟨_, hb⟩)
      exact ⟨ha', hb', hcode, hzero⟩
    | decimal d ha hb hdecimal hcode htruth hzero => exact ⟨ha, hb, hcode, hzero⟩
    | truth t ha hb hdecimal hcode =>
      exact ⟨ha, hb, mem_binaryCodes_of_truth hcode, not_dividesByZero_of_truth hcode⟩
  · rintro ⟨ha, hb, hcode, hzero⟩
    cases hspec with
    | notLeft ha' => cases ha.symm.trans ha'
    | notRight ha' hb' => cases hb.symm.trans hb'
    | notBinary ha' hb' hcode' => exact absurd hcode hcode'
    | zeroInteger hcode' ha' hb' => exact absurd (Or.inl ⟨hcode', ha', hb'⟩) hzero
    | zeroDecimal hcode' ha' hb' hd hz => exact absurd (Or.inr ⟨hcode', hd, hz⟩) hzero
    | integer => exact ⟨_, rfl⟩
    | decimal => exact ⟨_, rfl⟩
    | truth => exact ⟨_, rfl⟩

theorem severity_of_binary {c : Cause} (h : mem.binary code a b = .error c) : c.severity =
    if a.isNumber ∧ b.isNumber ∧ code ∉ binaryCodes then .fatal else .runtime := by
  have hspec := binary_spec mem code a b
  rw [h] at hspec
  cases hspec with
  | notLeft ha => simp [ha, Cause.severity]
  | notRight ha hb => simp [hb, Cause.severity]
  | notBinary ha hb hcode => simp [ha, hb, hcode, Cause.severity]
  | zeroInteger hcode ha hb =>
    rw [if_neg]
    · rfl
    · rintro ⟨-, -, h⟩
      obtain rfl | rfl := hcode <;> exact h (by decide)
  | zeroDecimal hcode ha hb hdecimal hzero =>
    rw [if_neg]
    · rfl
    · rintro ⟨-, -, h⟩
      exact h (hcode ▸ by decide)

theorem unary_eq_ok_iff : (∃ r, mem.unary code a = .ok r) ↔
    code = .logicalNot ∨ a.isNumber ∧ code ∈ unaryCodes := by
  have hspec := unary_spec mem code a
  generalize mem.unary code a = result at hspec
  constructor
  · rintro ⟨r, rfl⟩
    cases hspec with
    | negation ha hcode => exact Or.inl hcode
    | integer ha hcode hz =>
      exact Or.inr ⟨Value.isNumber_of_isInteger (Value.isInteger_iff.2 ⟨_, ha⟩), hcode⟩
    | decimal r ha hcode hnot =>
      have hdecimal : a.isDecimal := Value.isDecimal_iff.2 ⟨_, ha⟩
      exact Or.inr ⟨by rw [Value.isNumber, hdecimal, Bool.or_true], hcode⟩
  · intro h
    cases hspec with
    | notNumber ha hcode =>
      rcases h with rfl | ⟨ha', -⟩
      · exact absurd rfl hcode
      · cases ha.symm.trans ha'
    | notUnary ha hcode =>
      rcases h with rfl | ⟨-, hcode'⟩
      · exact absurd (by decide) hcode
      · exact absurd hcode' hcode
    | negation => exact ⟨_, rfl⟩
    | integer => exact ⟨_, rfl⟩
    | decimal => exact ⟨_, rfl⟩

theorem severity_of_unary {c : Cause} (h : mem.unary code a = .error c) : c.severity =
    if a.isNumber then .fatal else .runtime := by
  have hspec := unary_spec mem code a
  rw [h] at hspec
  cases hspec with
  | notNumber ha hcode =>
    rw [ha]
    rfl
  | notUnary ha hcode =>
    rw [ha]
    rfl

/-- The quotient and the remainder of two integers are those of one division. -/
theorem quotient_and_remainder {x y : Int32} (ha : a.integer? mem.cells = some x)
    (hb : b.integer? mem.cells = some y) (hy : y ≠ 0) :
    ∃ q r, mem.binary .divide a b = .ok (.integer q) ∧
      mem.binary .modulo a b = .ok (.integer r) ∧
        q.toInt * y.toInt + r.toInt ≡ x.toInt [ZMOD 2 ^ 32] := by
  have ha' := Value.isNumber_of_isInteger (Value.isInteger_iff.2 ⟨x, ha⟩)
  have hb' := Value.isNumber_of_isInteger (Value.isInteger_iff.2 ⟨y, hb⟩)
  have honNumbers : ∀ op, onNumbers mem.cells op a b = op.onIntegers x y := by
    intro op
    unfold onNumbers
    rw [ha, hb]
  refine ⟨x / y, x % y, ?_, ?_, div_mul_add_mod_modEq x y⟩
  · rw [binary_of_isNumber ha' hb']
    exact (honNumbers .divide).trans (if_neg hy)
  · rw [binary_of_isNumber ha' hb']
    exact (honNumbers .modulo).trans (if_neg hy)

/-- **Arithmetic.** The outcome of every opcode on all values, what succeeds, and what class of
fault the rest is. A linked operand counts as the number it is linked to. -/
theorem arithmetic (mem : Memory) (code : Opcode) (a b : Value) :
    (Binary mem code a b (mem.binary code a b) ∧
      ((∃ r, mem.binary code a b = .ok r) ↔ a.isNumber ∧ b.isNumber ∧ code ∈ binaryCodes ∧
        ¬ a.DividesByZero mem.cells code b) ∧
      ∀ c, mem.binary code a b = .error c → c.severity =
        if a.isNumber ∧ b.isNumber ∧ code ∉ binaryCodes then .fatal else .runtime) ∧
    (∀ x y, a.integer? mem.cells = some x → b.integer? mem.cells = some y → y ≠ 0 →
      ∃ q r, mem.binary .divide a b = .ok (.integer q) ∧
        mem.binary .modulo a b = .ok (.integer r) ∧
          q.toInt * y.toInt + r.toInt ≡ x.toInt [ZMOD 2 ^ 32]) ∧
    (Unary mem code a (mem.unary code a) ∧
      ((∃ r, mem.unary code a = .ok r) ↔ code = .logicalNot ∨ a.isNumber ∧ code ∈ unaryCodes) ∧
      ∀ c, mem.unary code a = .error c → c.severity = if a.isNumber then .fatal else .runtime) ∧
    mem.binary code (a.delink mem.cells) b = mem.binary code a b ∧
      mem.binary code a (b.delink mem.cells) = mem.binary code a b ∧
        mem.unary code (a.delink mem.cells) = mem.unary code a := by
  refine ⟨⟨binary_spec mem code a b, binary_eq_ok_iff, fun c => severity_of_binary⟩,
    fun x y => quotient_and_remainder,
    ⟨unary_spec mem code a, unary_eq_ok_iff, fun c => severity_of_unary⟩, ?_, ?_, ?_⟩
  · exact binary_delink_left mem code a b
  · exact binary_delink_right mem code a b
  · exact unary_delink mem code a

/-- The least integer, behind a link, is divided by minus one: the quotient is the least integer
again and nothing remains. Shifts by minus one shift by 31 places. -/
theorem arithmetic_least :
    let mem : Memory := { (default : Memory) with cells := ⟨#[Int32.minValue], #[]⟩ }
    let a : Value := .linkedInteger ⟨0⟩
    let b : Value := .integer (-1)
    (∃ q r, mem.binary .divide a b = .ok (.integer q) ∧ mem.binary .modulo a b = .ok (.integer r) ∧
      q.toInt * (-1 : Int32).toInt + r.toInt ≡ Int32.minValue.toInt [ZMOD 2 ^ 32]) ∧
    mem.binary .divide a b = .ok (.integer Int32.minValue) ∧
    mem.binary .modulo a b = .ok (.integer 0) ∧
    mem.binary .bitshiftRight (.integer (-5)) b = .ok b ∧
    mem.binary .bitshiftLeft (.integer 3) b = .ok (.integer Int32.minValue) := by
  intro mem a b
  obtain ⟨-, hdivision, -⟩ := arithmetic mem .divide a b
  refine ⟨hdivision Int32.minValue (-1) rfl rfl (by decide), ?_⟩
  decide +kernel

end Memory
end ScriptVm
