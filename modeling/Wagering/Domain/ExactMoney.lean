import Wagering.Domain.Money
import Wagering.Lib.Decimal

/-!
# Money over decimals

`domain/money.ts` as it stands, over the decimals of decimal.js.  The library
is a parameter: what the class relies on is that its constructor keeps every
digit and that sums and differences are the exact ones rounded half up to 34
significant digits (`DecimalLaws`).  Under these laws every operation agrees
with the one on whole hundredths, errors included.
-/

namespace Wagering

open Text Decimal

/-! ## Decimal numerals -/

/-- The texts of `AMOUNT_FORMAT`: a sign, 1 to 25 digits and at most 2 more. -/
structure IsAmount (amount : Text) (negative : Bool) (whole fraction : Text) : Prop where
  text : amount = (if negative then [45] else []) ++ whole ++
    (if fraction = [] then [] else 46 :: fraction)
  whole : 1 ≤ whole.length ∧ whole.length ≤ 25 ∧ ∀ u ∈ whole, isDigit u = true
  fraction : fraction.length ≤ 2 ∧ ∀ u ∈ fraction, isDigit u = true

/-- The number that a numeral denotes. -/
def literalValue (negative : Bool) (whole fraction : Text) : ℚ :=
  (if negative then -1 else 1) * (digitsValue (whole ++ fraction) / 10 ^ fraction.length)

/-- `AMOUNT_FORMAT` after its sign. -/
def matchDigits (negative : Bool) (rest : Text) : Option (Bool × Text × Text) :=
  let whole := rest.takeWhile isDigit
  if 1 ≤ whole.length && whole.length ≤ 25 then
    match rest.dropWhile isDigit with
    | [] => some (negative, whole, [])
    | 46 :: fraction =>
      if 1 ≤ fraction.length && fraction.length ≤ 2 && fraction.all isDigit then
        some (negative, whole, fraction)
      else none
    | _ => none
  else none

theorem matchAmount_minus (rest : Text) : matchAmount (45 :: rest) = matchDigits true rest := rfl

theorem matchAmount_plain {amount : Text} (h : ∀ rest, amount ≠ 45 :: rest) :
    matchAmount amount = matchDigits false amount := by
  cases amount with
  | nil => rfl
  | cons u us =>
    unfold matchAmount
    split
    rename_i hsplit
    split at hsplit
    · exact absurd ‹_› (h _)
    · cases hsplit
      rfl

theorem matchDigits_iff {rest whole fraction : Text} {sign negative : Bool} :
    matchDigits sign rest = some (negative, whole, fraction) ↔
      sign = negative ∧ IsAmount ((if negative then [45] else []) ++ rest) negative whole
        fraction := by
  constructor
  · intro h
    have hrest := List.takeWhile_append_dropWhile (p := isDigit) (l := rest)
    unfold matchDigits at h
    simp only at h
    split at h
    case isFalse => cases h
    case isTrue hlength =>
      simp only [Bool.and_eq_true, decide_eq_true_eq] at hlength
      have hdigits : ∀ u ∈ rest.takeWhile isDigit, isDigit u = true :=
        List.all_eq_true.mp List.all_takeWhile
      split at h
      case h_1 hdrop =>
        cases h
        rw [hdrop, List.append_nil] at hrest
        refine ⟨rfl, by simp [hrest], ⟨hlength.1, hlength.2, hdigits⟩, Nat.zero_le 2, ?_⟩
        exact fun u hu => by cases hu
      case h_2 fraction' hdrop =>
        split at h
        case isFalse => cases h
        case isTrue hfraction =>
          cases h
          simp only [Bool.and_eq_true, decide_eq_true_eq, List.all_eq_true] at hfraction
          have hne : fraction ≠ [] := fun heq => by simp [heq] at hfraction
          rw [hdrop] at hrest
          refine ⟨rfl, ?_, ⟨hlength.1, hlength.2, hdigits⟩, hfraction.1.2, hfraction.2⟩
          rw [if_neg hne, List.append_assoc, hrest]
      case h_3 => cases h
  · rintro ⟨rfl, htext, ⟨hmin, hmax, hwhole⟩, hlength, hfraction⟩
    rw [List.append_assoc] at htext
    rw [List.append_cancel_left htext]
    unfold matchDigits
    simp only [List.takeWhile_append_of_pos hwhole, List.dropWhile_append_of_pos hwhole]
    by_cases hnil : fraction = []
    · subst hnil
      simp [hmin, hmax]
    · have hpos : 1 ≤ fraction.length := List.length_pos_iff.mpr hnil
      have hpoint : isDigit 46 = false := by decide
      have hall : fraction.all isDigit = true := List.all_eq_true.mpr hfraction
      simp [hnil, hpoint, hmin, hmax, hpos, hlength, hall]

/-- A numeral without a sign begins with a digit. -/
theorem IsAmount.plain {amount whole fraction : Text} (h : IsAmount amount false whole fraction)
    (rest : Text) : amount ≠ 45 :: rest := by
  obtain ⟨htext, ⟨hmin, -, hwhole⟩, -⟩ := h
  obtain ⟨u, us, rfl⟩ := List.exists_cons_of_length_pos hmin
  intro heq
  rw [heq] at htext
  have hu : isDigit u = true := hwhole u List.mem_cons_self
  rw [← (List.cons.inj htext).1] at hu
  exact absurd hu (by decide)

/-- The pattern matches its texts, in one way each. -/
theorem matchAmount_iff {amount whole fraction : Text} {negative : Bool} :
    matchAmount amount = some (negative, whole, fraction) ↔
      IsAmount amount negative whole fraction := by
  by_cases h : ∃ rest, amount = 45 :: rest
  · obtain ⟨rest, rfl⟩ := h
    rw [matchAmount_minus, matchDigits_iff]
    constructor
    · rintro ⟨rfl, h⟩
      exact h
    · intro h
      cases negative with
      | true => exact ⟨rfl, h⟩
      | false => exact absurd rfl (h.plain rest)
  · have h : ∀ rest, amount ≠ 45 :: rest := fun rest heq => h ⟨rest, heq⟩
    rw [matchAmount_plain h, matchDigits_iff]
    constructor
    · rintro ⟨rfl, h⟩
      exact h
    · intro hamount
      cases negative with
      | true => exact absurd hamount.text (h _)
      | false => exact ⟨rfl, hamount⟩

/-- A numeral denotes its hundredths. -/
theorem literalValue_eq {whole fraction : Text} (negative : Bool) (h : fraction.length ≤ 2) :
    literalValue negative whole fraction =
      (if negative then -1 else 1) * ((hundredths whole fraction : ℚ) / 100) := by
  rw [literalValue, hundredths]
  congr 1
  rcases fraction with _ | ⟨u, _ | ⟨v, _ | ⟨w, rest⟩⟩⟩
  · simp [digitsValue]
  · rw [digitsValue_append]
    simp only [digitsValue, List.length_singleton, Nat.reduceSub, List.replicate_one,
      List.cons_append, List.nil_append, List.foldl_cons, List.foldl_nil, pow_one]
    push_cast
    norm_num
    ring
  · rw [show whole ++ [u, v] = whole ++ [u] ++ [v] by simp, digitsValue_append,
      digitsValue_append]
    simp only [digitsValue, List.length_cons, List.length_nil, Nat.reduceAdd, Nat.sub_self,
      List.replicate_zero, List.append_nil, List.foldl_cons, List.foldl_nil]
    push_cast
    norm_num
    ring
  · rw [List.length_cons, List.length_cons, List.length_cons] at h
    omega

/-! ## The library -/

/-- What the class uses of decimal.js. -/
class Decimals (D : Type) : Type where
  new : Text → D
  plus : D → D → D
  minus : D → D → D
  negated : D → D
  abs : D → D
  isFinite : D → Bool
  isZero : D → Bool
  isNegative : D → Bool
  decimalPlaces : D → Nat
  greaterThan : D → D → Bool
  lessThan : D → D → Bool
  equals : D → D → Bool
  toFixed : D → Text
  toText : D → Text

/-- What the class relies on, of decimals that denote a number: `value` is
`none` for NaN and the infinities.  The sign of a zero is left open. -/
structure DecimalLaws {D : Type} [Decimals D] (value : D → Option ℚ) : Prop where
  new : ∀ {amount negative whole fraction}, IsAmount amount negative whole fraction →
    value (Decimals.new amount) = some (literalValue negative whole fraction)
  plus : ∀ {a b x y}, value a = some x → value b = some y →
    value (Decimals.plus a b) = some (roundHalfUp 34 (x + y))
  minus : ∀ {a b x y}, value a = some x → value b = some y →
    value (Decimals.minus a b) = some (roundHalfUp 34 (x - y))
  negated : ∀ {a x}, value a = some x → value (Decimals.negated a) = some (-x)
  abs : ∀ {a x}, value a = some x → value (Decimals.abs a) = some |x|
  isFinite : ∀ {a x}, value a = some x → Decimals.isFinite a = true
  isZero : ∀ {a x}, value a = some x → Decimals.isZero a = decide (x = 0)
  isNegative : ∀ {a x}, value a = some x → x ≠ 0 → Decimals.isNegative a = decide (x < 0)
  decimalPlaces : ∀ {a k} {n : ℤ}, value a = some ((n : ℚ) / 10 ^ k) → Decimals.decimalPlaces a ≤ k
  greaterThan : ∀ {a b x y}, value a = some x → value b = some y →
    Decimals.greaterThan a b = decide (y < x)
  lessThan : ∀ {a b x y}, value a = some x → value b = some y →
    Decimals.lessThan a b = decide (x < y)
  equals : ∀ {a b x y}, value a = some x → value b = some y →
    Decimals.equals a b = decide (x = y)
  toFixed : ∀ {a} {n : ℤ}, value a = some ((n : ℚ) / 100) → Decimals.toFixed a = Wagering.toFixed n

/-- `Money`, as its constructor stores it. -/
structure ExactMoney (D : Type) : Type where
  value : D
  currency : Text

namespace ExactMoney

variable {D : Type} [Decimals D]

/-- `ZERO`, as a decimal. -/
def zeroDecimal : D := Decimals.new (utf16 "0")

/-- `MAX_ABSOLUTE`. -/
def maxDecimal : D := Decimals.new (utf16 "999999999999999999.99")

/-- `Money.of`. -/
def of (value : D) (currency : Text) : Except DomainError (ExactMoney D) :=
  if !Decimals.isFinite value then .error (.invalidMoney (utf16 "non-finite result"))
  else if 2 < Decimals.decimalPlaces value then
    .error (.invalidMoney
      (utf16 "result with more than 2 decimal places: " ++ Decimals.toText value))
  else if Decimals.greaterThan (Decimals.abs value) maxDecimal then
    .error (.invalidMoney
      (utf16 "result outside the supported range: " ++ Decimals.toFixed value))
  else .ok ⟨value, currency⟩

/-- `assertSameCurrency`. -/
def assertSameCurrency (m other : ExactMoney D) : Except DomainError Unit :=
  if m.currency = other.currency then .ok ()
  else .error (.currencyMismatch m.currency other.currency)

def add (m other : ExactMoney D) : Except DomainError (ExactMoney D) := do
  m.assertSameCurrency other
  of (Decimals.plus m.value other.value) m.currency

def canAdd (m other : ExactMoney D) : Except DomainError Bool := do
  m.assertSameCurrency other
  pure (!Decimals.greaterThan (Decimals.abs (Decimals.plus m.value other.value)) maxDecimal)

def subtract (m other : ExactMoney D) : Except DomainError (ExactMoney D) := do
  m.assertSameCurrency other
  of (Decimals.minus m.value other.value) m.currency

def negate (m : ExactMoney D) : Except DomainError (ExactMoney D) :=
  of (Decimals.negated m.value) m.currency

def isZero (m : ExactMoney D) : Bool := Decimals.isZero m.value

def isPositive (m : ExactMoney D) : Bool := Decimals.greaterThan m.value zeroDecimal

def isNegative (m : ExactMoney D) : Bool := Decimals.lessThan m.value zeroDecimal

def isLessThan (m other : ExactMoney D) : Except DomainError Bool := do
  m.assertSameCurrency other
  pure (Decimals.lessThan m.value other.value)

def isGreaterThan (m other : ExactMoney D) : Except DomainError Bool := do
  m.assertSameCurrency other
  pure (Decimals.greaterThan m.value other.value)

def equals (m other : ExactMoney D) : Except DomainError Bool := do
  m.assertSameCurrency other
  pure (Decimals.equals m.value other.value)

def toString (m : ExactMoney D) : Text := Decimals.toFixed m.value

def toJSON (m : ExactMoney D) : MoneyProps := ⟨m.toString, m.currency⟩

section Currency

variable [Platform]

/-- `Money.from`. -/
def «from» (props : MoneyProps) : Except DomainError (ExactMoney D) := do
  let currency ← assertCurrency props.currency
  if (matchAmount props.amount).isNone then
    .error (.invalidMoney (utf16 "invalid amount: " ++ jsonString props.amount))
  else
    let value : D := Decimals.new props.amount
    if Decimals.isNegative value && !Decimals.isZero value then
      .error (.invalidMoney
        (utf16 "negative amount is not accepted on an input contract: " ++ props.amount))
    else if Decimals.greaterThan (Decimals.abs value) maxDecimal then
      .error (.invalidMoney (utf16 "amount above the supported maximum: " ++ props.amount))
    else pure ⟨value, currency.1⟩

/-- `Money.zero`. -/
def zero (currency : Text) : Except DomainError (ExactMoney D) := do
  let currency ← assertCurrency currency
  pure ⟨zeroDecimal, currency.1⟩

/-! ## Agreement with whole hundredths -/

/-- The same amount, in the same currency. -/
structure Denotes (value : D → Option ℚ) (e : ExactMoney D) (m : Money) : Prop where
  amount : value e.value = some ((m.cents : ℚ) / 100)
  currency : e.currency = m.currency

/-- The same result, or the same error. -/
def Agrees (value : D → Option ℚ) :
    Except DomainError (ExactMoney D) → Except DomainError Money → Prop
  | .ok e, .ok m => Denotes value e m
  | .error e, .error e' => e = e'
  | _, _ => False

end Currency

/-- A sum or a difference of amounts in range has at most 21 digits, so it is not rounded. -/
theorem round_cents {n : ℤ} (h : n.natAbs ≤ 2 * maxAbsolute) :
    roundHalfUp 34 ((n : ℚ) / 100) = n / 100 := by
  refine roundHalfUp_of_places (n := n) 2 (by norm_num) (Nat.lt_of_le_of_lt h ?_)
  decide

/-- Comparisons of hundredths. -/
theorem hundredths_lt {x y : ℤ} : (x : ℚ) / 100 < y / 100 ↔ x < y := by
  rw [div_lt_div_iff_of_pos_right (by norm_num), Int.cast_lt]

section Laws

variable {value : D → Option ℚ} (laws : DecimalLaws value)
include laws

theorem value_zero : value zeroDecimal = some (((0 : ℤ) : ℚ) / 100) := by
  have hamount : IsAmount (utf16 "0") false (utf16 "0") [] :=
    matchAmount_iff.mp (by decide +kernel)
  rw [zeroDecimal, laws.new hamount, literalValue_eq _ hamount.fraction.1,
    show hundredths (utf16 "0") [] = 0 by decide +kernel]
  norm_num

theorem value_max : value maxDecimal = some (((maxAbsolute : ℤ) : ℚ) / 100) := by
  have hamount : IsAmount (utf16 "999999999999999999.99") false (utf16 "999999999999999999")
      (utf16 "99") := matchAmount_iff.mp (by decide +kernel)
  rw [maxDecimal, laws.new hamount, literalValue_eq _ hamount.fraction.1,
    show hundredths (utf16 "999999999999999999") (utf16 "99") = maxAbsolute by decide +kernel]
  norm_num

/-- The comparison with the maximum, in hundredths. -/
theorem exceeds_iff {d : D} {n : ℤ} (h : value d = some ((n : ℚ) / 100)) :
    Decimals.greaterThan (Decimals.abs d) maxDecimal = decide (maxAbsolute < n.natAbs) := by
  rw [laws.greaterThan (laws.abs h) (value_max laws), decide_eq_decide, abs_div,
    abs_of_pos (show (0 : ℚ) < 100 by norm_num), div_lt_div_iff_of_pos_right (by norm_num)]
  rw [← Int.cast_abs, Int.cast_lt, Int.abs_eq_natAbs]
  exact Int.ofNat_lt

variable [Platform] {e e' : ExactMoney D} {m m' : Money}

/-- Of a whole number of hundredths only the range is left to check. -/
theorem of_agrees {d : D} {n : ℤ} (h : value d = some ((n : ℚ) / 100)) {currency : Text}
    {like : Money} (hcurrency : currency = like.currency) :
    Agrees value (of d currency) (Money.of n like) := by
  have hplaces : ¬ 2 < Decimals.decimalPlaces d :=
    Nat.not_lt.mpr (laws.decimalPlaces (n := n) (by rw [h]; norm_num))
  unfold of Money.of
  simp only [laws.isFinite h, Bool.not_true, Bool.false_eq_true, if_false, hplaces,
    exceeds_iff laws h, decide_eq_true_eq]
  by_cases hrange : n.natAbs ≤ maxAbsolute
  · rw [if_neg (Nat.not_lt.mpr hrange), dif_pos hrange]
    exact ⟨h, hcurrency⟩
  · rw [if_pos (Nat.not_le.mp hrange), dif_neg hrange, laws.toFixed h]
    rfl

omit [Decimals D] laws in
theorem assertSameCurrency_eq (h : Denotes value e m) (h' : Denotes value e' m') :
    e.assertSameCurrency e' = m.assertSameCurrency m' := by
  rw [assertSameCurrency, Money.assertSameCurrency, h.currency, h'.currency]

theorem value_plus (h : Denotes value e m) (h' : Denotes value e' m') :
    value (Decimals.plus e.value e'.value) = some (((m.cents + m'.cents : ℤ) : ℚ) / 100) := by
  have hm := m.inRange
  have hm' := m'.inRange
  rw [laws.plus h.amount h'.amount, ← add_div, ← Int.cast_add, round_cents (by omega)]

theorem value_minus (h : Denotes value e m) (h' : Denotes value e' m') :
    value (Decimals.minus e.value e'.value) = some (((m.cents - m'.cents : ℤ) : ℚ) / 100) := by
  have hm := m.inRange
  have hm' := m'.inRange
  rw [laws.minus h.amount h'.amount, ← sub_div, ← Int.cast_sub, round_cents (by omega)]

theorem add_agrees (h : Denotes value e m) (h' : Denotes value e' m') :
    Agrees value (e.add e') (m.add m') := by
  unfold add Money.add
  rw [assertSameCurrency_eq h h']
  cases m.assertSameCurrency m' with
  | error error => exact rfl
  | ok same => exact of_agrees laws (value_plus laws h h') h.currency

theorem subtract_agrees (h : Denotes value e m) (h' : Denotes value e' m') :
    Agrees value (e.subtract e') (m.subtract m') := by
  unfold subtract Money.subtract
  rw [assertSameCurrency_eq h h']
  cases m.assertSameCurrency m' with
  | error error => exact rfl
  | ok same => exact of_agrees laws (value_minus laws h h') h.currency

theorem negate_agrees (h : Denotes value e m) : Agrees value e.negate m.negate := by
  refine of_agrees laws ?_ h.currency
  rw [laws.negated h.amount, Int.cast_neg, neg_div]

theorem canAdd_eq (h : Denotes value e m) (h' : Denotes value e' m') :
    e.canAdd e' = m.canAdd m' := by
  unfold canAdd Money.canAdd
  rw [assertSameCurrency_eq h h', exceeds_iff laws (value_plus laws h h')]
  simp only [← decide_not, Nat.not_lt]

theorem isLessThan_eq (h : Denotes value e m) (h' : Denotes value e' m') :
    e.isLessThan e' = m.isLessThan m' := by
  unfold isLessThan Money.isLessThan
  rw [assertSameCurrency_eq h h', laws.lessThan h.amount h'.amount]
  simp only [hundredths_lt]

theorem isGreaterThan_eq (h : Denotes value e m) (h' : Denotes value e' m') :
    e.isGreaterThan e' = m.isGreaterThan m' := by
  unfold isGreaterThan Money.isGreaterThan
  rw [assertSameCurrency_eq h h', laws.greaterThan h.amount h'.amount]
  simp only [hundredths_lt]

theorem equals_eq (h : Denotes value e m) (h' : Denotes value e' m') :
    e.equals e' = m.equals m' := by
  unfold equals Money.equals
  rw [assertSameCurrency_eq h h', laws.equals h.amount h'.amount]
  simp only [div_left_inj' (show (100 : ℚ) ≠ 0 by norm_num), Int.cast_inj]

theorem isZero_eq (h : Denotes value e m) : e.isZero = m.isZero := by
  rw [isZero, Money.isZero, laws.isZero h.amount, decide_eq_decide, div_eq_zero_iff]
  simp

theorem isPositive_eq (h : Denotes value e m) : e.isPositive = m.isPositive := by
  unfold isPositive Money.isPositive
  rw [laws.greaterThan h.amount (value_zero laws), decide_eq_decide, hundredths_lt]

theorem isNegative_eq (h : Denotes value e m) : e.isNegative = m.isNegative := by
  unfold isNegative Money.isNegative
  rw [laws.lessThan h.amount (value_zero laws), decide_eq_decide, hundredths_lt]

theorem toString_eq (h : Denotes value e m) : e.toString = m.toString := laws.toFixed h.amount

theorem zero_agrees (currency : Text) :
    Agrees value (zero currency) (Money.zero currency) := by
  unfold zero Money.zero
  cases assertCurrency currency with
  | error error => exact rfl
  | ok currency => exact ⟨value_zero laws, rfl⟩

/-- A numeral is accepted, or refused with the same error. -/
theorem from_agrees (props : MoneyProps) :
    Agrees value («from» props) (Money.from props) := by
  unfold «from» Money.from
  cases assertCurrency props.currency with
  | error error => exact rfl
  | ok currency =>
    cases hmatch : matchAmount props.amount with
    | none =>
      simp only [Option.isNone_none, if_true]
      exact rfl
    | some parts =>
      obtain ⟨negative, whole, fraction⟩ := parts
      have hamount := matchAmount_iff.mp hmatch
      -- the sign of a zero does not count
      have hvalue : value (Decimals.new props.amount) =
          some ((((if negative then -1 else 1) * hundredths whole fraction : ℤ) : ℚ) / 100) := by
        rw [laws.new hamount, literalValue_eq _ hamount.fraction.1]
        cases negative <;> simp [neg_div]
      have hrange : Decimals.greaterThan (Decimals.abs (Decimals.new props.amount : D))
          maxDecimal = decide (maxAbsolute < hundredths whole fraction) := by
        rw [exceeds_iff laws hvalue]
        cases negative <;> simp
      have hsign : (Decimals.isNegative (Decimals.new props.amount : D) &&
          !Decimals.isZero (Decimals.new props.amount : D)) =
            (negative && hundredths whole fraction ≠ 0) := by
        by_cases hzero : hundredths whole fraction = 0
        · rw [laws.isZero hvalue]
          simp [hzero]
        · rw [laws.isZero hvalue, laws.isNegative hvalue (by cases negative <;> simpa using hzero)]
          have hpos : (0 : ℚ) < hundredths whole fraction :=
            Nat.cast_pos.mpr (Nat.pos_of_ne_zero hzero)
          cases negative with
          | false =>
            have : ¬ (hundredths whole fraction : ℚ) / 100 < 0 := by linarith
            simpa [hzero] using this
          | true =>
            have : -(hundredths whole fraction : ℚ) / 100 < 0 := by linarith
            simpa [hzero] using this
      simp only [Option.isNone_some, Bool.false_eq_true, if_false, hsign, hrange, bind,
        Except.bind, pure, Except.pure]
      by_cases hnegative : (negative && decide (hundredths whole fraction ≠ 0)) = true
      · rw [if_pos hnegative, if_pos hnegative]
        exact rfl
      · rw [if_neg hnegative, if_neg hnegative]
        by_cases hmax : hundredths whole fraction ≤ maxAbsolute
        · rw [if_neg (by simpa using hmax), dif_pos hmax]
          refine ⟨?_, rfl⟩
          rw [hvalue]
          cases negative with
          | false => simp
          | true =>
            have hzero : hundredths whole fraction = 0 := by simpa using hnegative
            simp [hzero]
        · rw [if_pos (by simpa using hmax), dif_neg hmax]
          exact rfl

end Laws

end ExactMoney

end Wagering
