import Wagering.Application.SubmitWager
import Wagering.Correctness.Service
import Wagering.Domain.Objects
import Wagering.Persistence.Valid

/-!
# Wallet movements

A wallet object on which any calls were made keeps its balance in range and its
times in order.  A call changes all of balance, version and time or nothing, and
the predicates of the class tell beforehand which.
-/

namespace Wagering

open Objects

section Statements

variable [Platform]

/-- A call of `credit` or `debit`. -/
structure MovementCall : Type where
  direction : LedgerDirection
  props : MovementProps

def MovementCall.method (call : MovementCall) : Method Wallet DomainError WalletLedgerEntry :=
  WalletObject.move call.direction call.props

/-- A wallet as the code gets hold of one: opened at a valid instant, or read
from a row of the table. -/
inductive Wallet.Obtained : Wallet → Prop
  | opened {id playerId : Text} {initialBalance : Money} {at_ : Instant}
      {entryId transactionId : Text} {opening : WalletOpening} (hat : at_.isFinite = true)
      (h : Wallet.open id playerId initialBalance at_ entryId transactionId = .ok opening) :
      Obtained opening.wallet
  | persisted {row : WalletRow} {w : Wallet} (hrow : ∀ rule ∈ walletRules row, rule.holds = true)
      (h : toWallet row = .ok w) : Obtained w

/-- A movement and all that it changes. -/
structure Wallet.MovesTo (w w' : Wallet) (direction : LedgerDirection) (props : MovementProps)
    (entry : WalletLedgerEntry) : Prop where
  balanceBefore : entry.balanceBefore = w.balance
  balanceAfter : entry.balanceAfter = w'.balance
  moved : w'.balance.cents = w.balance.cents + direction.signed props.money.cents
  before : 0 ≤ w.balance.cents ∧ w.balance.cents ≤ maxAbsolute
  after : 0 ≤ w'.balance.cents ∧ w'.balance.cents ≤ maxAbsolute
  version : w'.version = w.version + 1
  updatedAt : w'.updatedAt = max w.updatedAt props.at_
  createdAt : w'.createdAt = w.createdAt ∧ w'.createdAt ≤ w'.updatedAt

/-- A call moves the wallet as it says, or throws and leaves it as it was. -/
def MovementCall.MovesOrThrows (call : MovementCall) (w : Wallet) : Prop :=
  (∃ e, call.method w = (.error e, w)) ∨
    ∃ entry w', call.method w = (.ok entry, w') ∧
      w.MovesTo w' call.direction call.props entry

/-- The call goes through. -/
def MovementCall.Succeeds (call : MovementCall) (w : Wallet) : Prop :=
  ∃ entry w', call.method w = (.ok entry, w')

/-- The predicates tell which movements go through. -/
structure Wallet.Predicted (w : Wallet) : Prop where
  can : ∀ direction props, 0 < props.money.cents → props.money.currency = w.currency →
    props.at_.isFinite = true →
    ((⟨direction, props⟩ : MovementCall).Succeeds w ↔
      w.canMove direction props.money = .ok true)
  movementFailure : ∀ (t : WagerTransaction) (direction : LedgerDirection) (now : Instant)
    (entryId : Text), 0 < t.money.cents → t.money.currency = w.currency → now.isFinite = true →
    (movementFailure w t direction = .ok none ↔
      (⟨direction, ⟨entryId, t.id, t.money, now⟩⟩ : MovementCall).Succeeds w)

/-! ## What every call keeps -/

/-- What holds of a wallet object at any time. -/
structure Wallet.Coherent (w : Wallet) : Prop where
  storable : w.Storable
  ordered : w.createdAt ≤ w.updatedAt

theorem Wallet.Obtained.coherent {w : Wallet} (h : w.Obtained) : w.Coherent := by
  cases h with
  | @opened id playerId initialBalance at_ entryId transactionId opening hat h =>
    have hnonneg : 0 ≤ initialBalance.cents := by
      by_contra hneg
      simp only [Wallet.open, Money.isNegative, Int.not_le.mp hneg, decide_true, if_true] at h
      cases h
    obtain ⟨zero, -, -, heq⟩ :=
      Wallet.open_eq hnonneg id playerId at_ entryId transactionId
    rw [heq] at h
    cases h
    exact ⟨⟨rfl, hnonneg⟩, Int.le_refl _⟩
  | @persisted row w hrow h =>
    obtain ⟨balance, hbalance, h⟩ := bind_ok h
    obtain ⟨hnonneg, hcurrency⟩ := Money.from_spec hbalance
    cases h
    simp only [walletRules, List.forall_mem_cons] at hrow
    obtain ⟨-, -, -, -, -, -, -, -, -, -, hordered, -⟩ := hrow
    exact ⟨⟨hcurrency, hnonneg⟩, by simpa [check] using hordered⟩

theorem assertMovement_ok {w : Wallet} {props : MovementProps}
    (h : w.assertMovement props = .ok ()) :
    props.money.currency = w.currency ∧ 0 < props.money.cents ∧ props.at_.isFinite = true := by
  obtain ⟨⟨⟩, hcurrency, h⟩ := bind_ok h
  unfold Wallet.assertSameCurrency at hcurrency
  split at hcurrency
  · split at h
    · cases h
    · split at h
      · cases h
      · simp_all [Money.isPositive]
  · cases hcurrency

/-- A movement that went through is one that the predicates let through. -/
theorem move_ok {w : Wallet} (hw : w.Storable) {direction : LedgerDirection}
    {props : MovementProps} {result : WalletLedgerEntry × Wallet}
    (h : w.move direction props = .ok result) :
    props.money.currency = w.currency ∧ 0 < props.money.cents ∧ props.at_.isFinite = true ∧
      w.canMove direction props.money = .ok true := by
  cases direction with
  | debit =>
    obtain ⟨⟨⟩, hassert, h⟩ := bind_ok h
    obtain ⟨hcurrency, hpos, hat⟩ := assertMovement_ok hassert
    obtain ⟨enough, hcan, h⟩ := bind_ok h
    cases enough with
    | false => cases h
    | true => exact ⟨hcurrency, hpos, hat, hcan⟩
  | credit =>
    obtain ⟨⟨⟩, hassert, h⟩ := bind_ok h
    obtain ⟨hcurrency, hpos, hat⟩ := assertMovement_ok hassert
    obtain ⟨balanceAfter, hadd, -⟩ := bind_ok h
    refine ⟨hcurrency, hpos, hat, ?_⟩
    rw [Wallet.canMove_eq .credit hw.currency hcurrency]
    obtain ⟨-, -, hof⟩ := bind_ok hadd
    unfold Money.of at hof
    split at hof
    · rename_i hrange
      simpa using hrange
    · cases hof

theorem MovementCall.realizes (call : MovementCall) :
    call.method.Realizes fun w => w.move call.direction call.props :=
  WalletObject.move_realizes call.direction call.props

/-- A call on a coherent wallet moves it or throws, and leaves a coherent wallet. -/
theorem Wallet.Coherent.call {w : Wallet} (h : w.Coherent) (call : MovementCall) :
    call.MovesOrThrows w ∧ (call.method w).2.Coherent := by
  cases hmove : w.move call.direction call.props with
  | error e =>
    have hcall := call.realizes.apply_error hmove
    exact ⟨.inl ⟨e, hcall⟩, by rw [hcall]; exact h⟩
  | ok result =>
    obtain ⟨hcurrency, hpos, hat, hcan⟩ := move_ok h.storable hmove
    obtain ⟨balanceAfter, hcents, hnonneg, hafter, heq⟩ := Wallet.move_eq call.props
      h.storable.currency hcurrency hpos h.storable.nonneg hat hcan
    have hcall := call.realizes.apply_ok heq
    have hmax : (if call.props.at_ > w.updatedAt then call.props.at_ else w.updatedAt) =
        max w.updatedAt call.props.at_ := by
      by_cases hlater : w.updatedAt < call.props.at_
      · rw [if_pos hlater, max_eq_right (le_of_lt hlater)]
      · rw [if_neg hlater, max_eq_left (not_lt.mp hlater)]
    have hle : w.createdAt ≤ max w.updatedAt call.props.at_ := le_max_of_le_left h.ordered
    have hle' : w.balance.cents ≤ maxAbsolute := by
      have := w.balance.inRange
      omega
    have hle'' : balanceAfter.cents ≤ maxAbsolute := by
      have := balanceAfter.inRange
      omega
    refine ⟨.inr ⟨_, _, hcall, ?_⟩, by rw [hcall]; exact ⟨⟨hafter, hnonneg⟩, hmax ▸ hle⟩⟩
    exact
      { balanceBefore := rfl
        balanceAfter := rfl
        moved := hcents
        before := ⟨h.storable.nonneg, hle'⟩
        after := ⟨hnonneg, hle''⟩
        version := rfl
        updatedAt := hmax
        createdAt := ⟨rfl, hmax ▸ hle⟩ }

theorem Wallet.Coherent.succeeds_iff {w : Wallet} (h : w.Coherent) (direction : LedgerDirection)
    (props : MovementProps) (hpos : 0 < props.money.cents)
    (hcurrency : props.money.currency = w.currency) (hat : props.at_.isFinite = true) :
    (⟨direction, props⟩ : MovementCall).Succeeds w ↔
      w.canMove direction props.money = .ok true := by
  constructor
  · rintro ⟨entry, w', hcall⟩
    exact (move_ok h.storable (MovementCall.realizes ⟨direction, props⟩ |>.returns hcall)).2.2.2
  · intro hcan
    obtain ⟨balanceAfter, -, -, -, heq⟩ := Wallet.move_eq props h.storable.currency hcurrency hpos
      h.storable.nonneg hat hcan
    exact ⟨_, _, (MovementCall.realizes ⟨direction, props⟩).apply_ok heq⟩

/-- `movementFailure` finds nothing exactly when the predicate holds. -/
theorem movementFailure_eq_none {w : Wallet} {t : WagerTransaction} {direction : LedgerDirection} :
    movementFailure w t direction = .ok none ↔ w.canMove direction t.money = .ok true := by
  cases direction with
  | debit =>
    unfold movementFailure Wallet.canMove
    cases w.canDebit t.money with
    | error e => exact ⟨fun h => (by cases h), fun h => (by cases h)⟩
    | ok enough => cases enough <;> simp [bind, Except.bind, pure, Except.pure]
  | credit =>
    unfold movementFailure Wallet.canMove
    cases w.canCredit t.money with
    | error e => exact ⟨fun h => (by cases h), fun h => (by cases h)⟩
    | ok room => cases room <;> simp [bind, Except.bind, pure, Except.pure]

theorem Wallet.Coherent.predicted {w : Wallet} (h : w.Coherent) : w.Predicted where
  can := h.succeeds_iff
  movementFailure := fun t direction now entryId hpos hcurrency hat => by
    rw [movementFailure_eq_none]
    exact (h.succeeds_iff direction ⟨entryId, t.id, t.money, now⟩ hpos hcurrency hat).symm

/-- After any calls, the next one moves the wallet or leaves it as it was, and the
predicates tell which. -/
theorem wallet_moves {w : Wallet} (h : w.Obtained) (calls : List MovementCall) :
    (∀ call : MovementCall, call.MovesOrThrows (after MovementCall.method calls w)) ∧
      (after MovementCall.method calls w).Predicted := by
  have hcoherent : (after MovementCall.method calls w).Coherent :=
    after_induct h.coherent (fun call w hw => (hw.call call).2) calls
  exact ⟨fun call => (hcoherent.call call).1, hcoherent.predicted⟩

end Statements

section Sample

local instance movementPlatform : Platform := samplePlatform

def hundredReais : Money := ⟨10000, utf16 "BRL", by decide, by decide +kernel⟩

theorem sample_wallet_moves : ∃ w : Wallet, w.Obtained ∧ ∀ calls,
    (∀ call : MovementCall, call.MovesOrThrows (after MovementCall.method calls w)) ∧
      (after MovementCall.method calls w).Predicted := by
  have hnonneg : 0 ≤ hundredReais.cents := by decide
  obtain ⟨zero, -, -, hopen⟩ := Wallet.open_eq hnonneg (sampleId 1) (utf16 "p1") 1000
    (sampleId 2) (sampleId 3)
  exact ⟨_, .opened rfl hopen, wallet_moves (.opened rfl hopen)⟩

end Sample

end Wagering
