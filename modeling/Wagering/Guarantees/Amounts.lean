import Mathlib.NumberTheory.Padics.PadicVal.Basic
import Wagering.Correctness.Service
import Wagering.Domain.ExactMoney

/-!
# Amounts

An amount that any sequence of operations has built is a whole number of
hundredths in range.  Operations return the exact result or refuse it, and the
text of an amount is its only canonical numeral.
-/

namespace Wagering

open Text Decimal

/-! ## Canonical numerals -/

/-- The numeral of so many hundredths: two decimals, no leading zero, and a sign
only before a negative amount. -/
def IsCanonical (text : Text) (cents : ℤ) : Prop :=
  ∃ whole fraction, IsAmount text (decide (cents < 0)) whole fraction ∧ fraction.length = 2 ∧
    (whole.head? = some 48 → whole = [48]) ∧ hundredths whole fraction = cents.natAbs

theorem digit_toNat {u : UInt16} (h : isDigit u = true) : digit (u.toNat - 48) = u := by
  simp only [isDigit, Bool.and_eq_true, decide_eq_true_eq] at h
  refine UInt16.toNat_inj.mp ?_
  rw [toNat_digit (by omega)]
  omega

/-- The numeral of a number has no leading zero. -/
theorem decimal_head (n : Nat) (h : (decimal n).head? = some 48) : decimal n = [48] := by
  unfold decimal at h ⊢
  split
  · rfl
  · rename_i hne
    rw [if_neg hne, List.head?_map, List.head?_reverse,
      List.getLast?_eq_some_getLast (Nat.digits_ne_nil_iff_ne_zero.mpr hne), Option.map_some,
      Option.some.injEq] at h
    have hlast := Nat.getLast_digit_ne_zero 10 hne
    have hlt : (Nat.digits 10 n).getLast (Nat.digits_ne_nil_iff_ne_zero.mpr hne) < 10 :=
      Nat.digits_lt_base (by decide) (List.getLast_mem _)
    have := congrArg UInt16.toNat h
    rw [toNat_digit hlt] at this
    have h48 : (48 : UInt16).toNat = 48 := rfl
    omega

/-- Digits without a leading zero are the numeral of their value. -/
theorem decimal_digitsValue {whole : Text} (hne : whole ≠ [])
    (hdigits : ∀ u ∈ whole, isDigit u = true) (hhead : whole.head? = some 48 → whole = [48]) :
    decimal (digitsValue whole) = whole := by
  by_cases hzero : whole = [48]
  · rw [hzero]
    rfl
  · let ds := (whole.map fun u => u.toNat - 48).reverse
    have hwhole : ds.reverse.map digit = whole := by
      rw [List.reverse_reverse, List.map_map]
      exact (List.map_congr_left fun u hu => digit_toNat (hdigits u hu)).trans (List.map_id _)
    have hlt : ∀ d ∈ ds, d < 10 := by
      intro d hd
      obtain ⟨u, hu, rfl⟩ := List.mem_map.mp (List.mem_reverse.mp hd)
      have := hdigits u hu
      simp only [isDigit, Bool.and_eq_true, decide_eq_true_eq] at this
      omega
    have hds : ds ≠ [] := fun heq => hne (by rw [← hwhole, heq]; rfl)
    -- the first digit is the last of `ds`, and it is not zero
    have hlast : ∀ h : ds ≠ [], ds.getLast h ≠ 0 := by
      intro h heq
      refine hzero (hhead ?_)
      rw [← hwhole, List.head?_map, List.head?_reverse, List.getLast?_eq_some_getLast h, heq]
      rfl
    have hdigitsOf : Nat.digits 10 (Nat.ofDigits 10 ds) = ds :=
      Nat.digits_ofDigits 10 (by decide) ds hlt hlast
    have hvalue : digitsValue whole = Nat.ofDigits 10 ds := by
      rw [← hwhole, digitsValue_map ds hlt]
    have hpos : Nat.ofDigits 10 ds ≠ 0 := fun heq => by
      rw [heq, Nat.digits_zero] at hdigitsOf
      exact hds hdigitsOf.symm
    rw [hvalue, decimal, if_neg hpos, hdigitsOf, hwhole]

theorem isAmount_toFixed {cents : ℤ} (h : cents.natAbs ≤ maxAbsolute) :
    IsAmount (toFixed cents) (decide (cents < 0)) (decimal (cents.natAbs / 100))
      [digit (cents.natAbs % 100 / 10), digit (cents.natAbs % 10)] := by
  have hmagnitude := matchAmount_iff.mp (matchAmount_toFixed h)
  refine ⟨?_, hmagnitude.whole, hmagnitude.fraction⟩
  by_cases hneg : cents < 0 <;> simp [toFixed, hneg]

/-- The canonical numeral of an amount is the text that it is printed as. -/
theorem isCanonical_iff {text : Text} {cents : ℤ} (h : cents.natAbs ≤ maxAbsolute) :
    IsCanonical text cents ↔ text = toFixed cents := by
  constructor
  · rintro ⟨whole, fraction, hamount, hlength, hhead, hcents⟩
    obtain ⟨u, v, rfl⟩ := List.length_eq_two.mp hlength
    have hwhole : decimal (digitsValue whole) = whole :=
      decimal_digitsValue (List.length_pos_iff.mp hamount.whole.1) hamount.whole.2.2 hhead
    have hu := hamount.fraction.2 u (by simp)
    have hv := hamount.fraction.2 v (by simp)
    have hu' := hu
    have hv' := hv
    simp only [isDigit, Bool.and_eq_true, decide_eq_true_eq] at hu' hv'
    have hvalue : digitsValue whole * 100 + ((u.toNat - 48) * 10 + (v.toNat - 48)) =
        cents.natAbs := by
      rw [← hcents]
      simp [hundredths, digitsValue]
    have hquotient : cents.natAbs / 100 = digitsValue whole := by omega
    have htens : cents.natAbs % 100 / 10 = u.toNat - 48 := by omega
    have hunits : cents.natAbs % 10 = v.toNat - 48 := by omega
    have hprinted := isAmount_toFixed h
    rw [hquotient, hwhole, htens, hunits, digit_toNat hu, digit_toNat hv] at hprinted
    rw [hamount.text, hprinted.text]
  · rintro rfl
    exact ⟨_, _, isAmount_toFixed h, rfl, decimal_head _, hundredths_toFixed _⟩

/-- Different amounts are printed differently. -/
theorem toFixed_injective {x y : ℤ} (hx : x.natAbs ≤ maxAbsolute) (hy : y.natAbs ≤ maxAbsolute)
    (h : toFixed x = toFixed y) : x = y := by
  have hmx := matchAmount_iff.mpr (isAmount_toFixed hx)
  have hmy := matchAmount_iff.mpr (isAmount_toFixed hy)
  rw [h, hmy, Option.some.injEq, Prod.mk.injEq, Prod.mk.injEq] at hmx
  obtain ⟨hsign, hwhole, hfraction⟩ := hmx
  have hcents := hundredths_toFixed x.natAbs
  rw [← hwhole, ← hfraction, hundredths_toFixed] at hcents
  rw [decide_eq_decide] at hsign
  omega

/-! ## Amounts that operations build -/

namespace ExactMoney

variable {D : Type} [Decimals D] [Platform]

/-- The amounts that any sequence of operations builds. -/
inductive Built : ExactMoney D → Prop
  | «from» {props : MoneyProps} {m : ExactMoney D} : «from» props = .ok m → Built m
  | zero {currency : Text} {m : ExactMoney D} : zero currency = .ok m → Built m
  | add {a b m : ExactMoney D} : Built a → Built b → a.add b = .ok m → Built m
  | subtract {a b m : ExactMoney D} : Built a → Built b → a.subtract b = .ok m → Built m
  | negate {a m : ExactMoney D} : Built a → a.negate = .ok m → Built m

/-- The amount is so many hundredths. -/
def HasCents (value : D → Option ℚ) (m : ExactMoney D) (cents : ℤ) : Prop :=
  value m.value = some ((cents : ℚ) / 100)

/-- The exact result in the currency, if it is in range, and else a refusal. -/
def Yields (value : D → Option ℚ) (result : Except DomainError (ExactMoney D)) (cents : ℤ)
    (currency : Text) : Prop :=
  if cents.natAbs ≤ 10 ^ 20 - 1 then
    ∃ m, result = .ok m ∧ HasCents value m cents ∧ m.currency = currency
  else ∃ message, result = .error (.invalidMoney message)

/-- The decimals of the class refine whole numbers of hundredths. -/
structure RefinesCents (value : D → Option ℚ) : Prop where
  /-- `from` accepts the numerals of the format that are not negative and not
  above the maximum, in a known currency, and keeps their value. -/
  accepts : ∀ props : MoneyProps, (∃ m : ExactMoney D, «from» props = .ok m) ↔
    isIsoCurrency props.currency = true ∧ ∃ negative whole fraction,
      IsAmount props.amount negative whole fraction ∧
        0 ≤ literalValue negative whole fraction ∧
        literalValue negative whole fraction ≤ 99999999999999999999 / 100
  keeps : ∀ (props : MoneyProps) (m : ExactMoney D), «from» props = .ok m →
    ∀ negative whole fraction, IsAmount props.amount negative whole fraction →
      value m.value = some (literalValue negative whole fraction)
  /-- Every amount is a whole number of hundredths in range. -/
  cents : ∀ m : ExactMoney D, Built m → ∃ x : ℤ, HasCents value m x ∧ x.natAbs ≤ 10 ^ 20 - 1
  /-- The text of an amount is its one canonical numeral. -/
  canonical : ∀ m : ExactMoney D, Built m → ∀ x : ℤ, HasCents value m x →
    ∀ text, text = m.toString ↔ IsCanonical text x
  sameText : ∀ (a b : MoneyProps) (m m' : ExactMoney D), «from» a = .ok m → «from» b = .ok m' →
    ∀ negative whole fraction negative' whole' fraction',
      IsAmount a.amount negative whole fraction → IsAmount b.amount negative' whole' fraction' →
      (m.toString = m'.toString ↔
        literalValue negative whole fraction = literalValue negative' whole' fraction')
  roundTrip : ∀ m : ExactMoney D, Built m → ∀ x : ℤ, HasCents value m x → 0 ≤ x →
    ∃ m' : ExactMoney D, «from» m.toJSON = .ok m' ∧ HasCents value m' x ∧
      m'.currency = m.currency ∧ m'.equals m = .ok true
  /-- Arithmetic is exact in the range and refused beyond it. -/
  add : ∀ a b : ExactMoney D, Built a → Built b → a.currency = b.currency →
    ∀ x y : ℤ, HasCents value a x → HasCents value b y → Yields value (a.add b) (x + y) a.currency
  subtract : ∀ a b : ExactMoney D, Built a → Built b → a.currency = b.currency →
    ∀ x y : ℤ, HasCents value a x → HasCents value b y →
      Yields value (a.subtract b) (x - y) a.currency
  negate : ∀ a : ExactMoney D, Built a → ∀ x : ℤ, HasCents value a x →
    Yields value a.negate (-x) a.currency
  canAdd : ∀ a b : ExactMoney D, Built a → Built b →
    (a.canAdd b = .ok true ↔ ∃ m, a.add b = .ok m)
  /-- Comparisons are those of the whole numbers. -/
  compares : ∀ a b : ExactMoney D, Built a → Built b → a.currency = b.currency →
    ∀ x y : ℤ, HasCents value a x → HasCents value b y →
      a.isLessThan b = .ok (decide (x < y)) ∧ a.isGreaterThan b = .ok (decide (y < x)) ∧
        a.equals b = .ok (decide (x = y))
  signs : ∀ a : ExactMoney D, Built a → ∀ x : ℤ, HasCents value a x →
    a.isZero = decide (x = 0) ∧ a.isPositive = decide (0 < x) ∧ a.isNegative = decide (x < 0)

/-! ## Each part -/

variable {value : D → Option ℚ}

omit [Decimals D] in
theorem agrees_ok {x : Except DomainError (ExactMoney D)} {y : Except DomainError Money}
    {e : ExactMoney D} (h : Agrees value x y) (hx : x = .ok e) :
    ∃ m, y = .ok m ∧ Denotes value e m := by
  subst hx
  cases y with
  | ok m => exact ⟨m, rfl, h⟩
  | error error => exact absurd h id

omit [Decimals D] in
theorem agrees_iff {x : Except DomainError (ExactMoney D)} {y : Except DomainError Money}
    (h : Agrees value x y) : (∃ e, x = .ok e) ↔ ∃ m, y = .ok m := by
  constructor
  · rintro ⟨e, hx⟩
    obtain ⟨m, hy, -⟩ := agrees_ok h hx
    exact ⟨m, hy⟩
  · rintro ⟨m, rfl⟩
    cases x with
    | ok e => exact ⟨e, rfl⟩
    | error error => exact absurd h id

omit [Decimals D] in
theorem yields_of {result : Except DomainError (ExactMoney D)} {cents : ℤ} {like : Money}
    {currency : Text} (h : Agrees value result (Money.of cents like))
    (hcurrency : like.currency = currency) : Yields value result cents currency := by
  unfold Yields
  unfold Money.of at h
  rw [show 10 ^ 20 - 1 = maxAbsolute by decide]
  split
  case isTrue hrange =>
    rw [dif_pos hrange] at h
    cases result with
    | ok m => exact ⟨m, rfl, h.amount, h.currency.trans hcurrency⟩
    | error error => exact absurd h id
  case isFalse hrange =>
    rw [dif_neg hrange] at h
    cases result with
    | ok m => exact absurd h id
    | error error => exact ⟨_, congrArg _ h⟩

omit [Decimals D] [Platform] in
theorem HasCents.eq {m : ExactMoney D} {x y : ℤ} (hx : HasCents value m x)
    (hy : HasCents value m y) : x = y := by
  have h := Option.some.inj (hx.symm.trans hy)
  rwa [div_left_inj' (by norm_num), Int.cast_inj] at h

theorem from_value {props : MoneyProps} {m : ExactMoney D} (h : «from» props = .ok m) :
    m.value = Decimals.new props.amount := by
  obtain ⟨currency, -, h⟩ := bind_ok h
  simp only at h
  split at h
  · cases h
  · split at h
    · cases h
    · split at h
      · cases h
      · cases h
        rfl

omit [Platform] in
/-- The range of a numeral, in hundredths. -/
theorem literalValue_range {whole fraction : Text} (negative : Bool)
    (hlength : fraction.length ≤ 2) :
    (0 ≤ literalValue negative whole fraction ∧
      literalValue negative whole fraction ≤ 99999999999999999999 / 100) ↔
    (negative = true → hundredths whole fraction = 0) ∧ hundredths whole fraction ≤ maxAbsolute := by
  rw [literalValue_eq negative hlength]
  have hpos : (0 : ℚ) ≤ hundredths whole fraction := Nat.cast_nonneg _
  have hmax : (hundredths whole fraction : ℚ) ≤ 99999999999999999999 ↔
      hundredths whole fraction ≤ maxAbsolute := by
    rw [← Nat.cast_le (α := ℚ)]
    norm_num [maxAbsolute]
  cases negative with
  | false =>
    rw [← hmax]
    simp only [Bool.false_eq_true, if_false, one_mul, false_implies, true_and]
    constructor
    · rintro ⟨-, h⟩
      linarith
    · intro h
      exact ⟨by linarith, by linarith⟩
  | true =>
    simp only [if_true, forall_const]
    constructor
    · rintro ⟨h, -⟩
      have hzero : hundredths whole fraction = 0 := Nat.cast_eq_zero.mp
        (show (hundredths whole fraction : ℚ) = 0 by linarith)
      exact ⟨hzero, hzero ▸ Nat.zero_le _⟩
    · rintro ⟨hzero, -⟩
      rw [hzero]
      norm_num

theorem money_from_iff {props : MoneyProps} : (∃ m, Money.from props = .ok m) ↔
    isIsoCurrency props.currency = true ∧ ∃ negative whole fraction,
      IsAmount props.amount negative whole fraction ∧
        (negative = true → hundredths whole fraction = 0) ∧
        hundredths whole fraction ≤ maxAbsolute := by
  constructor
  · rintro ⟨m, h⟩
    obtain ⟨currency, hcurrency, h⟩ := bind_ok h
    refine ⟨Money.eq_of_assertCurrency hcurrency ▸ currency.2, ?_⟩
    split at h
    · cases h
    · rename_i negative whole fraction hmatch
      refine ⟨negative, whole, fraction, matchAmount_iff.mp hmatch, ?_⟩
      simp only at h
      split at h
      · cases h
      · split at h
        · simp_all
        · cases h
  · rintro ⟨hcurrency, negative, whole, fraction, hamount, hsign, hmax⟩
    unfold Money.from
    rw [Money.assertCurrency_ok hcurrency, matchAmount_iff.mpr hamount]
    refine ⟨⟨hundredths whole fraction, props.currency, hmax, hcurrency⟩, ?_⟩
    cases negative with
    | false => simp [bind, Except.bind, hmax]
    | true => simp [bind, Except.bind, hsign rfl]

section Laws

variable (laws : DecimalLaws value)
include laws

/-- What operations build denotes an amount in range. -/
theorem Built.denotes {e : ExactMoney D} (h : Built e) : ∃ m : Money, Denotes value e m := by
  induction h with
  | «from» hfrom =>
    obtain ⟨m, -, hm⟩ := agrees_ok (from_agrees laws _) hfrom
    exact ⟨m, hm⟩
  | zero hzero =>
    obtain ⟨m, -, hm⟩ := agrees_ok (zero_agrees laws _) hzero
    exact ⟨m, hm⟩
  | add _ _ hadd iha ihb =>
    obtain ⟨ma, hma⟩ := iha
    obtain ⟨mb, hmb⟩ := ihb
    obtain ⟨m, -, hm⟩ := agrees_ok (add_agrees laws hma hmb) hadd
    exact ⟨m, hm⟩
  | subtract _ _ hsubtract iha ihb =>
    obtain ⟨ma, hma⟩ := iha
    obtain ⟨mb, hmb⟩ := ihb
    obtain ⟨m, -, hm⟩ := agrees_ok (subtract_agrees laws hma hmb) hsubtract
    exact ⟨m, hm⟩
  | negate _ hnegate ih =>
    obtain ⟨ma, hma⟩ := ih
    obtain ⟨m, -, hm⟩ := agrees_ok (negate_agrees laws hma) hnegate
    exact ⟨m, hm⟩

/-- An amount of so many hundredths denotes the amount of so many hundredths. -/
theorem Built.denotes_cents {e : ExactMoney D} (h : Built e) {x : ℤ} (hx : HasCents value e x) :
    ∃ m : Money, Denotes value e m ∧ m.cents = x := by
  obtain ⟨m, hm⟩ := h.denotes laws
  exact ⟨m, hm, HasCents.eq hm.amount hx⟩

theorem Built.toString_eq {e : ExactMoney D} (h : Built e) {x : ℤ} (hx : HasCents value e x) :
    e.toString = toFixed x ∧ x.natAbs ≤ maxAbsolute := by
  obtain ⟨m, hm, rfl⟩ := h.denotes_cents laws hx
  exact ⟨ExactMoney.toString_eq laws hm, m.inRange⟩

/-- Two amounts are printed alike exactly when they are equal. -/
theorem Built.toString_inj {a b : ExactMoney D} (ha : Built a) (hb : Built b) {x y : ℤ}
    (hx : HasCents value a x) (hy : HasCents value b y) : a.toString = b.toString ↔ x = y := by
  obtain ⟨htext, hrange⟩ := ha.toString_eq laws hx
  obtain ⟨htext', hrange'⟩ := hb.toString_eq laws hy
  rw [htext, htext']
  exact ⟨toFixed_injective hrange hrange', fun h => h ▸ rfl⟩

theorem Built.roundTrip {e : ExactMoney D} (h : Built e) {x : ℤ} (hx : HasCents value e x)
    (hnonneg : 0 ≤ x) : ∃ e' : ExactMoney D, ExactMoney.from e.toJSON = .ok e' ∧
      HasCents value e' x ∧ e'.currency = e.currency ∧ e'.equals e = .ok true := by
  obtain ⟨m, hm, rfl⟩ := h.denotes_cents laws hx
  have hjson : e.toJSON = m.toJSON := by
    rw [toJSON, Money.toJSON, ExactMoney.toString_eq laws hm, hm.currency]
  have hagrees := from_agrees laws (D := D) e.toJSON
  rw [hjson, Money.from_toJSON m hnonneg, ← hjson] at hagrees
  obtain ⟨e', he'⟩ := (agrees_iff hagrees).mpr ⟨m, rfl⟩
  rw [he'] at hagrees
  refine ⟨e', he', hagrees.amount, hagrees.currency.trans hm.currency.symm, ?_⟩
  rw [equals_eq laws hagrees hm]
  simp [Money.equals, Money.assertSameCurrency, bind, Except.bind, pure, Except.pure]

theorem Built.canAdd_iff {a b : ExactMoney D} (ha : Built a) (hb : Built b) :
    a.canAdd b = .ok true ↔ ∃ m, a.add b = .ok m := by
  obtain ⟨ma, hma⟩ := ha.denotes laws
  obtain ⟨mb, hmb⟩ := hb.denotes laws
  rw [canAdd_eq laws hma hmb, agrees_iff (add_agrees laws hma hmb)]
  unfold Money.canAdd Money.add
  cases ma.assertSameCurrency mb with
  | error error =>
    constructor
    · intro h
      cases h
    · rintro ⟨_, h⟩
      cases h
  | ok same =>
    simp only [bind, Except.bind, pure, Except.pure, Except.ok.injEq, decide_eq_true_eq, Money.of]
    split
    · rename_i hrange
      exact ⟨fun _ => ⟨_, rfl⟩, fun _ => hrange⟩
    · rename_i hrange
      refine ⟨fun h => absurd h hrange, ?_⟩
      rintro ⟨_, h⟩
      cases h

/-- The comparisons of amounts in one currency. -/
theorem Built.compares {a b : ExactMoney D} (ha : Built a) (hb : Built b)
    (hcurrency : a.currency = b.currency) {x y : ℤ} (hx : HasCents value a x)
    (hy : HasCents value b y) :
    a.isLessThan b = .ok (decide (x < y)) ∧ a.isGreaterThan b = .ok (decide (y < x)) ∧
      a.equals b = .ok (decide (x = y)) := by
  obtain ⟨ma, hma, rfl⟩ := ha.denotes_cents laws hx
  obtain ⟨mb, hmb, rfl⟩ := hb.denotes_cents laws hy
  have hsame : ma.assertSameCurrency mb = .ok () :=
    if_pos (hma.currency.symm.trans (hcurrency.trans hmb.currency))
  rw [isLessThan_eq laws hma hmb, isGreaterThan_eq laws hma hmb, equals_eq laws hma hmb]
  simp [Money.isLessThan, Money.isGreaterThan, Money.equals, hsame, bind, Except.bind, pure,
    Except.pure]

/-- `Money` over the decimals of the library is exact arithmetic on hundredths. -/
theorem money_refinesCents : RefinesCents value where
  accepts := fun props => by
    rw [agrees_iff (from_agrees laws props), money_from_iff]
    refine and_congr_right fun _ => ?_
    refine exists_congr fun negative => exists_congr fun whole => exists_congr fun fraction => ?_
    refine and_congr_right fun hamount => ?_
    exact (literalValue_range negative hamount.fraction.1).symm
  keeps := fun props m hm negative whole fraction hamount => by
    rw [from_value hm, laws.new hamount]
  cents := fun m hm => by
    obtain ⟨money, hmoney⟩ := hm.denotes laws
    exact ⟨money.cents, hmoney.amount, money.inRange⟩
  canonical := fun m hm x hx text => by
    obtain ⟨htext, hrange⟩ := hm.toString_eq laws hx
    rw [htext, isCanonical_iff hrange]
  sameText := fun a b m m' hm hm' negative whole fraction negative' whole' fraction' ha hb => by
    obtain ⟨money, hmoney⟩ := (Built.from hm).denotes laws
    obtain ⟨money', hmoney'⟩ := (Built.from hm').denotes laws
    have hvalue := hmoney.amount
    have hvalue' := hmoney'.amount
    rw [from_value hm, laws.new ha, Option.some.injEq] at hvalue
    rw [from_value hm', laws.new hb, Option.some.injEq] at hvalue'
    rw [(Built.from hm).toString_inj laws (Built.from hm') hmoney.amount hmoney'.amount, hvalue,
      hvalue', div_left_inj' (by norm_num), Int.cast_inj]
  roundTrip := fun m hm x hx hnonneg => hm.roundTrip laws hx hnonneg
  add := fun a b ha hb hcurrency x y hx hy => by
    obtain ⟨ma, hma, rfl⟩ := ha.denotes_cents laws hx
    obtain ⟨mb, hmb, rfl⟩ := hb.denotes_cents laws hy
    have hsame : ma.assertSameCurrency mb = .ok () :=
      if_pos (hma.currency.symm.trans (hcurrency.trans hmb.currency))
    have hagrees := add_agrees laws hma hmb
    rw [Money.add, hsame] at hagrees
    exact yields_of hagrees hma.currency.symm
  subtract := fun a b ha hb hcurrency x y hx hy => by
    obtain ⟨ma, hma, rfl⟩ := ha.denotes_cents laws hx
    obtain ⟨mb, hmb, rfl⟩ := hb.denotes_cents laws hy
    have hsame : ma.assertSameCurrency mb = .ok () :=
      if_pos (hma.currency.symm.trans (hcurrency.trans hmb.currency))
    have hagrees := subtract_agrees laws hma hmb
    rw [Money.subtract, hsame] at hagrees
    exact yields_of hagrees hma.currency.symm
  negate := fun a ha x hx => by
    obtain ⟨ma, hma, rfl⟩ := ha.denotes_cents laws hx
    exact yields_of (negate_agrees laws hma) hma.currency.symm
  canAdd := fun a b ha hb => ha.canAdd_iff laws hb
  compares := fun a b ha hb hcurrency x y hx hy => ha.compares laws hb hcurrency hx hy
  signs := fun a ha x hx => by
    obtain ⟨m, hm, rfl⟩ := ha.denotes_cents laws hx
    exact ⟨isZero_eq laws hm, isPositive_eq laws hm, isNegative_eq laws hm⟩

end Laws

end ExactMoney

/-! ## Decimals that obey the laws -/

section Sample

local instance amountPlatform : Platform := samplePlatform

/-- A number and the sign that it carries when it is zero. -/
structure SampleDecimal : Type where
  negative : Bool
  value : ℚ

/-- Half up to two places. -/
def SampleDecimal.cents (d : SampleDecimal) : ℤ :=
  if d.value < 0 then -⌊-d.value * 100 + 1 / 2⌋ else ⌊d.value * 100 + 1 / 2⌋

@[reducible] def sampleDecimals : Decimals SampleDecimal where
  new := fun amount => match matchAmount amount with
    | some (negative, whole, fraction) => ⟨negative, literalValue negative whole fraction⟩
    | none => ⟨false, 0⟩
  plus := fun a b => ⟨a.negative && b.negative, roundHalfUp 34 (a.value + b.value)⟩
  minus := fun a b => ⟨a.negative && !b.negative, roundHalfUp 34 (a.value - b.value)⟩
  negated := fun a => ⟨!a.negative, -a.value⟩
  abs := fun a => ⟨false, |a.value|⟩
  isFinite := fun _ => true
  isZero := fun a => a.value = 0
  isNegative := fun a => if a.value = 0 then a.negative else a.value < 0
  -- a fraction in lowest terms has as many places as its denominator has twos or fives
  decimalPlaces := fun a => max (padicValNat 2 a.value.den) (padicValNat 5 a.value.den)
  greaterThan := fun a b => b.value < a.value
  lessThan := fun a b => a.value < b.value
  equals := fun a b => a.value = b.value
  toFixed := fun a => Wagering.toFixed a.cents
  toText := fun a => Wagering.toFixed a.cents

local instance : Decimals SampleDecimal := sampleDecimals

theorem padicValNat_den_le {p : ℕ} [Fact p.Prime] (hp : padicValNat p 10 = 1) (n : ℤ) (k : ℕ) :
    padicValNat p ((n : ℚ) / 10 ^ k).den ≤ k := by
  have hdvd : ((n : ℚ) / 10 ^ k).den ∣ 10 ^ k := by
    have h := Rat.den_dvd n (10 ^ k)
    rw [Rat.divInt_eq_div] at h
    push_cast at h
    exact_mod_cast h
  have hpow := (padicValNat_dvd_iff_le (p := p) (pow_ne_zero k (by norm_num : 10 ≠ 0))).mp
    (pow_padicValNat_dvd.trans hdvd)
  rwa [padicValNat.pow, hp, mul_one] at hpow

theorem sample_laws : DecimalLaws fun d : SampleDecimal => some d.value where
  new := fun h => by
    show some ((match matchAmount _ with
      | some (negative, whole, fraction) => _
      | none => _ : SampleDecimal)).value = _
    rw [matchAmount_iff.mpr h]
  plus := fun hx hy => by
    cases hx
    cases hy
    rfl
  minus := fun hx hy => by
    cases hx
    cases hy
    rfl
  negated := fun hx => by
    cases hx
    rfl
  abs := fun hx => by
    cases hx
    rfl
  isFinite := fun _ => rfl
  isZero := fun hx => by
    cases hx
    rfl
  isNegative := fun hx hne => by
    cases hx
    exact if_neg hne
  decimalPlaces := fun {a k n} h => by
    have hvalue : a.value = n / 10 ^ k := Option.some.inj h
    have hfive : Fact (Nat.Prime 5) := ⟨Nat.prime_five⟩
    show max _ _ ≤ k
    rw [hvalue]
    exact max_le (padicValNat_den_le (by decide +kernel) n k)
      (padicValNat_den_le (by decide +kernel) n k)
  greaterThan := fun hx hy => by
    cases hx
    cases hy
    rfl
  lessThan := fun hx hy => by
    cases hx
    cases hy
    rfl
  equals := fun hx hy => by
    cases hx
    cases hy
    rfl
  toFixed := fun {a n} h => by
    have hvalue : a.value = n / 100 := Option.some.inj h
    have hcents : a.cents = n := by
      unfold SampleDecimal.cents
      rw [hvalue, neg_mul, div_mul_cancel₀ _ (by norm_num), floor_half, ← Int.cast_neg, floor_half,
        neg_neg, ite_self]
    exact congrArg Wagering.toFixed hcents

theorem sample_refinesCents :
    ExactMoney.RefinesCents fun d : SampleDecimal => some d.value :=
  ExactMoney.money_refinesCents sample_laws

end Sample

end Wagering
