import Wagering.Domain.Errors

/-!
# Money

`domain/money.ts`.  An amount is an exact decimal of at most two places, so it
is a whole number of hundredths.  The range and the currency that the private
constructor guarantees are fields: an amount outside `numeric(20,2)` or in an
unknown currency cannot be built.  Arithmetic is that of the whole numbers;
`Domain.ExactMoney` has the class over the decimals of its library and shows
that this is what it computes.
-/

namespace Wagering

open Text

/-- `MoneyProps`. -/
structure MoneyProps : Type where
  amount : Text
  currency : Text
deriving DecidableEq

/-- `MAX_ABSOLUTE`, 999999999999999999.99, in hundredths. -/
def maxAbsolute : Nat := 99999999999999999999

/-- `CURRENCY_FORMAT`. -/
def isCurrencyFormat (currency : Text) : Bool := currency.length = 3 && currency.all isUpper

/-- `AMOUNT_FORMAT` matched against a text: the sign, the digits before the
point and the digits after it. -/
def matchAmount (amount : Text) : Option (Bool × Text × Text) :=
  let (negative, rest) := match amount with
    | 45 :: rest => (true, rest)
    | rest => (false, rest)
  let whole := rest.takeWhile isDigit
  if 1 ≤ whole.length && whole.length ≤ 25 then
    match rest.dropWhile isDigit with
    | [] => some (negative, whole, [])
    | 46 :: fraction =>
      if 1 ≤ fraction.length && fraction.length ≤ 2 && fraction.all isDigit then
        some (negative, whole, fraction)
      else none
    | _ => none
  else none

/-- The magnitude of a matched amount, in hundredths. -/
def hundredths (whole fraction : Text) : Nat :=
  digitsValue whole * 100 + digitsValue (fraction ++ List.replicate (2 - fraction.length) 48)

/-- A currency that `assertCurrency` lets through. -/
def isIsoCurrency [Platform] (currency : Text) : Bool :=
  isCurrencyFormat currency && Platform.supportedCurrency currency

/-- `Money`, with what `from`, `zero` and `of` check as fields. -/
@[ext] structure Money [Platform] : Type where
  cents : Int
  currency : Text
  inRange : cents.natAbs ≤ maxAbsolute
  isoCurrency : isIsoCurrency currency = true
deriving DecidableEq

/-- `value.toFixed(2)` of a whole number of hundredths. -/
def toFixed (cents : Int) : Text :=
  let magnitude := cents.natAbs
  (if cents < 0 then [45] else []) ++ decimal (magnitude / 100) ++
    [46, digit (magnitude % 100 / 10), digit (magnitude % 10)]

/-- The text of an amount that is not negative does not begin with a sign. -/
theorem toFixed_unsigned (n : Nat) : ∀ rest, toFixed n ≠ 45 :: rest := by
  intro rest h
  have hpos : ¬ ((n : Int) < 0) := by omega
  simp only [toFixed, hpos, if_false, List.nil_append, Int.natAbs_natCast] at h
  cases hd : decimal (n / 100) with
  | nil => exact decimal_ne_nil _ hd
  | cons u us =>
    rw [hd, List.cons_append, List.cons.injEq] at h
    have hdigit := decimal_isDigit (n / 100) u (by rw [hd]; exact List.mem_cons_self)
    rw [h.1] at hdigit
    cases hdigit

theorem toFixed_neg {n : Nat} (h : 0 < n) : toFixed (-n) = 45 :: toFixed n := by
  have hneg : (-(n : Int)) < 0 := by omega
  have hpos : ¬ ((n : Int) < 0) := by omega
  simp only [toFixed, hneg, hpos, if_true, if_false, Int.natAbs_neg, List.cons_append,
    List.nil_append]

/-- A rendered amount is matched digit by digit, unless it has too many of them. -/
theorem matchAmount_toFixed_eq (cents : Nat) :
    matchAmount (toFixed cents) =
      if (decimal (cents / 100)).length ≤ 25 then
        some (false, decimal (cents / 100), [digit (cents % 100 / 10), digit (cents % 10)])
      else none := by
  have hdigit := decimal_isDigit (cents / 100)
  have hne : (decimal (cents / 100)).length ≠ 0 := by
    simpa using decimal_ne_nil (cents / 100)
  have htens : isDigit (digit (cents % 100 / 10)) = true := isDigit_digit (by omega)
  have hunits : isDigit (digit (cents % 10)) = true := isDigit_digit (by omega)
  have hpos : ¬ ((cents : Int) < 0) := by omega
  have hfix : toFixed cents = decimal (cents / 100) ++
      [46, digit (cents % 100 / 10), digit (cents % 10)] := by
    simp [toFixed]
  have htake : (toFixed cents).takeWhile isDigit = decimal (cents / 100) := by
    rw [hfix, List.takeWhile_append_of_pos hdigit]
    simp [isDigit]
  have hdrop : (toFixed cents).dropWhile isDigit =
      [46, digit (cents % 100 / 10), digit (cents % 10)] := by
    rw [hfix, List.dropWhile_append_of_pos hdigit]
    simp [isDigit]
  unfold matchAmount
  have hsplit : (match toFixed cents with
      | 45 :: rest => (true, rest)
      | rest => (false, rest)) = (false, toFixed cents) := by
    split
    · exact absurd ‹_› (toFixed_unsigned cents _)
    · rfl
  rw [hsplit]
  simp only [htake, hdrop]
  by_cases hlen : (decimal (cents / 100)).length ≤ 25
  · rw [if_pos (by simp only [Bool.and_eq_true, decide_eq_true_eq]; omega), if_pos hlen]
    simp [htens, hunits]
  · rw [if_neg (by simp only [Bool.and_eq_true, decide_eq_true_eq]; omega), if_neg hlen]

theorem matchAmount_toFixed {cents : Nat} (h : cents ≤ maxAbsolute) :
    matchAmount (toFixed cents) = some (false, decimal (cents / 100),
      [digit (cents % 100 / 10), digit (cents % 10)]) := by
  have hlen : (decimal (cents / 100)).length ≤ 18 := by
    refine decimal_length_le (by decide) ?_
    simp only [maxAbsolute] at h
    omega
  rw [matchAmount_toFixed_eq, if_pos (hlen.trans (by decide))]

/-- The digits of a rendered amount denote the amount. -/
theorem hundredths_toFixed (cents : Nat) :
    hundredths (decimal (cents / 100))
      [digit (cents % 100 / 10), digit (cents % 10)] = cents := by
  simp only [hundredths, digitsValue_decimal, List.length_cons, List.length_nil,
    Nat.reduceAdd, Nat.sub_self, List.replicate_zero, List.append_nil]
  simp only [digitsValue, List.foldl_cons, List.foldl_nil,
    toNat_digit (show cents % 100 / 10 < 10 by omega), toNat_digit (show cents % 10 < 10 by omega)]
  omega

variable [Platform]

/-- `assertCurrency`. -/
def assertCurrency (currency : Text) :
    Except DomainError { c : Text // isIsoCurrency c = true } :=
  if !isCurrencyFormat currency then
    .error (.invalidMoney (utf16 "invalid currency: " ++ jsonString currency))
  else if h : isIsoCurrency currency = true then .ok ⟨currency, h⟩
  else .error (.invalidMoney (utf16 "unknown ISO-4217 currency: " ++ currency))

namespace Money

/-- `Money.from`. -/
def «from» (props : MoneyProps) : Except DomainError Money := do
  let currency ← assertCurrency props.currency
  match matchAmount props.amount with
  | none => .error (.invalidMoney (utf16 "invalid amount: " ++ jsonString props.amount))
  | some (negative, whole, fraction) =>
    let magnitude := hundredths whole fraction
    if negative && magnitude ≠ 0 then
      .error (.invalidMoney
        (utf16 "negative amount is not accepted on an input contract: " ++ props.amount))
    else if h : magnitude ≤ maxAbsolute then .ok ⟨magnitude, currency.1, h, currency.2⟩
    else
      .error (.invalidMoney (utf16 "amount above the supported maximum: " ++ props.amount))

/-- `Money.zero`. -/
def zero (currency : Text) : Except DomainError Money := do
  let currency ← assertCurrency currency
  pure ⟨0, currency.1, by decide, currency.2⟩

/-- `Money.of`, for a result in the currency of `like`.  A sum of hundredths is
finite and has two places, so only the range is left to check. -/
def of (cents : Int) (like : Money) : Except DomainError Money :=
  if h : cents.natAbs ≤ maxAbsolute then .ok ⟨cents, like.currency, h, like.isoCurrency⟩
  else .error (.invalidMoney (utf16 "result outside the supported range: " ++ toFixed cents))

/-- `assertSameCurrency`. -/
def assertSameCurrency (m other : Money) : Except DomainError Unit :=
  if m.currency = other.currency then .ok ()
  else .error (.currencyMismatch m.currency other.currency)

def add (m other : Money) : Except DomainError Money := do
  m.assertSameCurrency other
  of (m.cents + other.cents) m

def canAdd (m other : Money) : Except DomainError Bool := do
  m.assertSameCurrency other
  pure ((m.cents + other.cents).natAbs ≤ maxAbsolute)

def subtract (m other : Money) : Except DomainError Money := do
  m.assertSameCurrency other
  of (m.cents - other.cents) m

def negate (m : Money) : Except DomainError Money := of (-m.cents) m

def isZero (m : Money) : Bool := m.cents = 0

def isPositive (m : Money) : Bool := 0 < m.cents

def isNegative (m : Money) : Bool := m.cents < 0

def isLessThan (m other : Money) : Except DomainError Bool := do
  m.assertSameCurrency other
  pure (m.cents < other.cents)

def isGreaterThan (m other : Money) : Except DomainError Bool := do
  m.assertSameCurrency other
  pure (other.cents < m.cents)

def equals (m other : Money) : Except DomainError Bool := do
  m.assertSameCurrency other
  pure (m.cents = other.cents)

def toString (m : Money) : Text := toFixed m.cents

def toJSON (m : Money) : MoneyProps := ⟨m.toString, m.currency⟩

/-! ## What an amount is made of -/

theorem assertCurrency_ok {currency : Text} (h : isIsoCurrency currency = true) :
    assertCurrency currency = .ok ⟨currency, h⟩ := by
  have hf : isCurrencyFormat currency = true := by
    simp only [isIsoCurrency, Bool.and_eq_true] at h
    exact h.1
  simp [assertCurrency, hf, h]

theorem eq_of_assertCurrency {currency : Text} {c : { c : Text // isIsoCurrency c = true }}
    (h : assertCurrency currency = .ok c) : c.1 = currency := by
  unfold assertCurrency at h
  split at h
  · cases h
  · split at h
    · cases h
      rfl
    · cases h

/-- What `from` accepts is not negative, and in the currency it was given. -/
theorem from_spec {props : MoneyProps} {m : Money} (h : Money.from props = .ok m) :
    0 ≤ m.cents ∧ m.currency = props.currency := by
  unfold Money.from at h
  cases hc : assertCurrency props.currency with
  | error e => rw [hc] at h; cases h
  | ok currency =>
    rw [hc] at h
    simp only [bind, Except.bind] at h
    split at h
    · cases h
    · split at h
      · cases h
      · split at h
        · cases h
          exact ⟨Int.natCast_nonneg _, eq_of_assertCurrency hc⟩
        · cases h

/-- Every amount that is not negative is read back from its own text: what a
`numeric(20,2)` column returns is what was written. -/
theorem from_toFixed {cents : Int} {currency : Text} (hnonneg : 0 ≤ cents)
    (hr : cents.natAbs ≤ maxAbsolute) (hc : isIsoCurrency currency = true) :
    Money.from ⟨toFixed cents, currency⟩ = .ok ⟨cents, currency, hr, hc⟩ := by
  obtain ⟨n, rfl⟩ := Int.eq_ofNat_of_zero_le hnonneg
  have hr' : n ≤ maxAbsolute := by simpa using hr
  unfold Money.from
  simp only [assertCurrency_ok hc, bind, Except.bind, matchAmount_toFixed hr',
    hundredths_toFixed, Bool.false_and, Bool.false_eq_true, if_false, dif_pos hr']

/-- What is read back from a rendered amount is that amount. -/
theorem cents_of_from_toFixed {cents : Nat} {currency : Text} {m : Money}
    (h : Money.from ⟨toFixed cents, currency⟩ = .ok m) : m.cents = cents := by
  unfold Money.from at h
  obtain ⟨c, -, h⟩ := bind_ok h
  rw [matchAmount_toFixed_eq] at h
  by_cases hlen : (decimal (cents / 100)).length ≤ 25
  · simp only [if_pos hlen, hundredths_toFixed, Bool.false_and, Bool.false_eq_true, if_false] at h
    split at h
    · cases h
      rfl
    · cases h
  · rw [if_neg hlen] at h
    cases h

theorem from_toJSON (m : Money) (h : 0 ≤ m.cents) : Money.from m.toJSON = .ok m :=
  from_toFixed h m.inRange m.isoCurrency

end Money

end Wagering
