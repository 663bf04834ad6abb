import Wagering.Domain.Money

/-!
# Wallets and their ledger

`domain/wallet-ledger-entry.ts` and `domain/wallet.ts`.  The methods that
mutate `this` return the wallet they leave behind.
-/

namespace Wagering

/-- `LedgerDirection`. -/
inductive LedgerDirection : Type
  | debit | credit
deriving DecidableEq

def LedgerDirection.text : LedgerDirection → Text
  | .debit => utf16 "DEBIT"
  | .credit => utf16 "CREDIT"

/-- The effect of a movement on a balance, in hundredths. -/
def LedgerDirection.signed : LedgerDirection → Int → Int
  | .debit, amount => -amount
  | .credit, amount => amount

def LedgerDirection.opposite : LedgerDirection → LedgerDirection
  | .debit => .credit
  | .credit => .debit

@[simp] theorem LedgerDirection.opposite_opposite (d : LedgerDirection) :
    d.opposite.opposite = d := by
  cases d <;> rfl

theorem LedgerDirection.signed_opposite (d : LedgerDirection) (amount : Int) :
    d.opposite.signed amount = -d.signed amount := by
  cases d <;> simp [opposite, signed]

variable [Platform]

/-- `WalletLedgerEntry`. -/
structure WalletLedgerEntry : Type where
  id : Text
  walletId : Text
  transactionId : Text
  direction : LedgerDirection
  money : Money
  balanceBefore : Money
  balanceAfter : Money
  createdAt : Instant

/-- `isBalanced`. -/
def WalletLedgerEntry.isBalanced (entry : WalletLedgerEntry) : Except DomainError Bool := do
  let expected ← match entry.direction with
    | .credit => entry.balanceBefore.add entry.money
    | .debit => entry.balanceBefore.subtract entry.money
  expected.equals entry.balanceAfter

/-- `WalletLedgerEntry.create`. -/
def WalletLedgerEntry.create (props : WalletLedgerEntry) :
    Except DomainError WalletLedgerEntry := do
  if !props.money.isPositive then
    .error (.invalidLedgerEntry
      (utf16 "ledger entry requires a positive amount: " ++ props.money.toString))
  else if props.balanceBefore.isNegative || props.balanceAfter.isNegative then
    .error (.invalidLedgerEntry (utf16 "ledger entry cannot record a negative balance"))
  else do
    let balanced ← props.isBalanced
    if balanced then .ok props
    else
      .error (.invalidLedgerEntry
        (utf16 "inconsistent arithmetic: " ++ props.balanceBefore.toString ++ utf16 " " ++
          props.direction.text ++ utf16 " " ++ props.money.toString ++
          utf16 " does not result in " ++ props.balanceAfter.toString))

/-- `Wallet`. -/
structure Wallet : Type where
  id : Text
  playerId : Text
  currency : Text
  balance : Money
  version : Int
  createdAt : Instant
  updatedAt : Instant

/-- `MovementProps`. -/
structure MovementProps : Type where
  entryId : Text
  transactionId : Text
  money : Money
  at_ : Instant

/-- `WalletOpening`. -/
structure WalletOpening : Type where
  wallet : Wallet
  openingEntry : Option WalletLedgerEntry

namespace Wallet

/-- `Wallet.open`. -/
def «open» (id playerId : Text) (initialBalance : Money) (at_ : Instant)
    (openingEntryId openingTransactionId : Text) : Except DomainError WalletOpening := do
  if initialBalance.isNegative then
    .error (.insufficientFunds (utf16 "0.00") initialBalance.toString)
  else
    let wallet : Wallet :=
      { id, playerId, currency := initialBalance.currency, balance := initialBalance,
        version := 1, createdAt := at_, updatedAt := at_ }
    if !initialBalance.isPositive then
      pure ⟨wallet, none⟩
    else do
      let balanceBefore ← Money.zero wallet.currency
      let entry ← WalletLedgerEntry.create
        { id := openingEntryId, walletId := wallet.id, transactionId := openingTransactionId,
          direction := .credit, money := initialBalance, balanceBefore,
          balanceAfter := initialBalance, createdAt := at_ }
      pure ⟨wallet, some entry⟩

/-- `assertSameCurrency`. -/
def assertSameCurrency (w : Wallet) (money : Money) : Except DomainError Unit :=
  if money.currency = w.currency then .ok ()
  else .error (.currencyMismatch w.currency money.currency)

def canDebit (w : Wallet) (money : Money) : Except DomainError Bool := do
  w.assertSameCurrency money
  let short ← w.balance.isLessThan money
  pure !short

def canCredit (w : Wallet) (money : Money) : Except DomainError Bool := do
  w.assertSameCurrency money
  w.balance.canAdd money

/-- `assertMovement`. -/
def assertMovement (w : Wallet) (props : MovementProps) : Except DomainError Unit := do
  w.assertSameCurrency props.money
  if !props.money.isPositive then
    .error (.invalidLedgerEntry
      (utf16 "movement requires a positive amount: " ++ props.money.toString))
  else if !props.at_.isFinite then .error (.invalidTimestamp props.at_)
  else .ok ()

/-- `apply`: the entry, and the wallet with its new balance, version and time. -/
def apply (w : Wallet) (direction : LedgerDirection) (balanceAfter : Money)
    (props : MovementProps) : Except DomainError (WalletLedgerEntry × Wallet) := do
  let entry ← WalletLedgerEntry.create
    { id := props.entryId, walletId := w.id, transactionId := props.transactionId, direction,
      money := props.money, balanceBefore := w.balance, balanceAfter, createdAt := props.at_ }
  pure (entry,
    { w with
      balance := balanceAfter
      version := w.version + 1
      updatedAt := if props.at_ > w.updatedAt then props.at_ else w.updatedAt })

def debit (w : Wallet) (props : MovementProps) :
    Except DomainError (WalletLedgerEntry × Wallet) := do
  w.assertMovement props
  let enough ← w.canDebit props.money
  if !enough then
    .error (.insufficientFunds w.balance.toString props.money.toString)
  else do
    let balanceAfter ← w.balance.subtract props.money
    w.apply .debit balanceAfter props

def credit (w : Wallet) (props : MovementProps) :
    Except DomainError (WalletLedgerEntry × Wallet) := do
  w.assertMovement props
  let balanceAfter ← w.balance.add props.money
  w.apply .credit balanceAfter props

/-- Opening a wallet never throws on an amount that is not negative; an entry
records it when it is positive. -/
theorem open_eq {initialBalance : Money} (h : 0 ≤ initialBalance.cents)
    (id playerId : Text) (at_ : Instant) (openingEntryId openingTransactionId : Text) :
    ∃ zero : Money, zero.cents = 0 ∧ zero.currency = initialBalance.currency ∧
      Wallet.open id playerId initialBalance at_ openingEntryId openingTransactionId = .ok
        { wallet :=
            { id, playerId, currency := initialBalance.currency, balance := initialBalance,
              version := 1, createdAt := at_, updatedAt := at_ }
          openingEntry :=
            if 0 < initialBalance.cents then
              some { id := openingEntryId, walletId := id, transactionId := openingTransactionId,
                     direction := .credit, money := initialBalance, balanceBefore := zero,
                     balanceAfter := initialBalance, createdAt := at_ }
            else none } := by
  refine ⟨⟨0, initialBalance.currency, by decide, initialBalance.isoCurrency⟩, rfl, rfl, ?_⟩
  have hneg : ¬ initialBalance.cents < 0 := Int.not_lt.mpr h
  by_cases hpos : 0 < initialBalance.cents
  · simp [«open», Money.zero, Money.assertCurrency_ok initialBalance.isoCurrency,
      Money.isNegative, Money.isPositive, WalletLedgerEntry.create, WalletLedgerEntry.isBalanced,
      Money.add, Money.assertSameCurrency, Money.of, Money.equals, bind, Except.bind, pure,
      Except.pure, hneg, hpos, initialBalance.inRange]
  · simp [«open», Money.isNegative, Money.isPositive, pure, Except.pure, hneg, hpos]

/-! ## When a movement goes through -/

/-- The balance a movement leads to, in hundredths. -/
def movedCents (w : Wallet) (direction : LedgerDirection) (money : Money) : Int :=
  w.balance.cents + direction.signed money.cents

/-- The guard that the use cases evaluate before they move a wallet. -/
def canMove (w : Wallet) (direction : LedgerDirection) (money : Money) :
    Except DomainError Bool :=
  match direction with
  | .debit => w.canDebit money
  | .credit => w.canCredit money

/-- `credit` or `debit`. -/
def move (w : Wallet) (direction : LedgerDirection) (props : MovementProps) :
    Except DomainError (WalletLedgerEntry × Wallet) :=
  match direction with
  | .credit => w.credit props
  | .debit => w.debit props

variable {w : Wallet} {direction : LedgerDirection} {money : Money}

/-- In one currency the guard never throws: a debit needs the funds, a credit
needs room below the maximum. -/
theorem canMove_eq (direction : LedgerDirection) (hw : w.balance.currency = w.currency)
    (hm : money.currency = w.currency) :
    w.canMove direction money = .ok (match direction with
      | .debit => decide (money.cents ≤ w.balance.cents)
      | .credit => decide ((w.balance.cents + money.cents).natAbs ≤ maxAbsolute)) := by
  cases direction with
  | debit =>
    have hle : (!decide (w.balance.cents < money.cents)) =
        decide (money.cents ≤ w.balance.cents) := by
      rw [Bool.eq_iff_iff]
      simp
    simp [canMove, canDebit, assertSameCurrency, Money.isLessThan, Money.assertSameCurrency,
      hw, hm, bind, Except.bind, pure, Except.pure, hle]
  | credit =>
    simp [canMove, canCredit, assertSameCurrency, Money.canAdd, Money.assertSameCurrency,
      hw, hm, bind, Except.bind, pure, Except.pure]

/-- A movement that the guard let through succeeds, and this is its effect. -/
theorem move_eq (props : MovementProps) (hw : w.balance.currency = w.currency)
    (hm : props.money.currency = w.currency) (hpos : 0 < props.money.cents)
    (hbalance : 0 ≤ w.balance.cents) (hat : props.at_.isFinite = true)
    (hcan : w.canMove direction props.money = .ok true) :
    ∃ balanceAfter : Money, balanceAfter.cents = w.movedCents direction props.money ∧
      0 ≤ balanceAfter.cents ∧ balanceAfter.currency = w.currency ∧
      w.move direction props = .ok
        ({ id := props.entryId, walletId := w.id, transactionId := props.transactionId,
           direction, money := props.money, balanceBefore := w.balance, balanceAfter,
           createdAt := props.at_ },
         { w with
           balance := balanceAfter
           version := w.version + 1
           updatedAt := if props.at_ > w.updatedAt then props.at_ else w.updatedAt }) := by
  rw [canMove_eq direction hw hm, Except.ok.injEq] at hcan
  have hr := w.balance.inRange
  cases direction with
  | debit =>
    have henough : props.money.cents ≤ w.balance.cents := by simpa using hcan
    have hafter : (w.balance.cents - props.money.cents).natAbs ≤ maxAbsolute := by omega
    refine ⟨⟨w.balance.cents - props.money.cents, w.balance.currency, hafter,
      w.balance.isoCurrency⟩, by simp [movedCents, LedgerDirection.signed, Int.sub_eq_add_neg],
      by simpa using henough, hw, ?_⟩
    have hnot : ¬ w.balance.cents < props.money.cents := by omega
    have hneg : ¬ w.balance.cents < 0 := by omega
    simp [move, debit, assertMovement, assertSameCurrency, canDebit, Money.isLessThan,
      Money.assertSameCurrency, Money.subtract, Money.of, apply, WalletLedgerEntry.create,
      WalletLedgerEntry.isBalanced, Money.isPositive, Money.isNegative, Money.equals, bind,
      Except.bind, pure, Except.pure, hm, hw, hpos, hat, hafter, hnot, hneg]
  | credit =>
    have hafter : (w.balance.cents + props.money.cents).natAbs ≤ maxAbsolute := by
      simpa using hcan
    refine ⟨⟨w.balance.cents + props.money.cents, w.balance.currency, hafter,
      w.balance.isoCurrency⟩, by simp [movedCents, LedgerDirection.signed], ?_, hw, ?_⟩
    · show 0 ≤ w.balance.cents + props.money.cents
      omega
    · have hneg : ¬ w.balance.cents < 0 := by omega
      have hneg' : ¬ w.balance.cents + props.money.cents < 0 := by omega
      simp [move, credit, assertMovement, assertSameCurrency, Money.assertSameCurrency,
        Money.add, Money.of, apply, WalletLedgerEntry.create, WalletLedgerEntry.isBalanced,
        Money.isPositive, Money.isNegative, Money.equals, bind, Except.bind, pure, Except.pure,
        hm, hw, hpos, hat, hafter, hneg, hneg']

end Wallet

end Wagering
