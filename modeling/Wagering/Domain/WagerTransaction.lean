import Wagering.Domain.Wallet

/-!
# Wager transactions

`domain/failure-code.ts`, `domain/wager-transaction.ts` and
`domain/reference.ts`.
-/

namespace Wagering

/-- `FailureCode`. -/
inductive FailureCode : Type
  | insufficientFunds | reversalWouldOverdraw | balanceLimitExceeded | referenceNotFound
  | referenceNotProcessed | referenceKindNotReversible | referenceMismatch
  | reversalAmountMismatch | referenceAlreadyReversed | currencyMismatch | walletNotFound
  | walletPlayerMismatch | infrastructureFailure
deriving DecidableEq

def FailureCode.text : FailureCode → Text
  | .insufficientFunds => utf16 "INSUFFICIENT_FUNDS"
  | .reversalWouldOverdraw => utf16 "REVERSAL_WOULD_OVERDRAW"
  | .balanceLimitExceeded => utf16 "BALANCE_LIMIT_EXCEEDED"
  | .referenceNotFound => utf16 "REFERENCE_NOT_FOUND"
  | .referenceNotProcessed => utf16 "REFERENCE_NOT_PROCESSED"
  | .referenceKindNotReversible => utf16 "REFERENCE_KIND_NOT_REVERSIBLE"
  | .referenceMismatch => utf16 "REFERENCE_MISMATCH"
  | .reversalAmountMismatch => utf16 "REVERSAL_AMOUNT_MISMATCH"
  | .referenceAlreadyReversed => utf16 "REFERENCE_ALREADY_REVERSED"
  | .currencyMismatch => utf16 "CURRENCY_MISMATCH"
  | .walletNotFound => utf16 "WALLET_NOT_FOUND"
  | .walletPlayerMismatch => utf16 "WALLET_PLAYER_MISMATCH"
  | .infrastructureFailure => utf16 "INFRASTRUCTURE_FAILURE"

/-- `WagerTransactionKind`. -/
inductive WagerTransactionKind : Type
  | opening | bet | win | loss | refund | rollback
deriving DecidableEq

def WagerTransactionKind.text : WagerTransactionKind → Text
  | .opening => utf16 "OPENING"
  | .bet => utf16 "BET"
  | .win => utf16 "WIN"
  | .loss => utf16 "LOSS"
  | .refund => utf16 "REFUND"
  | .rollback => utf16 "ROLLBACK"

/-- `WagerTransactionStatus`. -/
inductive WagerTransactionStatus : Type
  | pending | pendingReference | processed | rejected | failed
deriving DecidableEq

def WagerTransactionStatus.text : WagerTransactionStatus → Text
  | .pending => utf16 "PENDING"
  | .pendingReference => utf16 "PENDING_REFERENCE"
  | .processed => utf16 "PROCESSED"
  | .rejected => utf16 "REJECTED"
  | .failed => utf16 "FAILED"

/-- `TERMINAL`. -/
def WagerTransactionStatus.isTerminal : WagerTransactionStatus → Bool
  | .processed | .rejected | .failed => true
  | .pending | .pendingReference => false

/-- `REVERSAL_KINDS`. -/
def WagerTransactionKind.isReversal : WagerTransactionKind → Bool
  | .refund | .rollback => true
  | _ => false

/-- `DISCLOSES_NO_BALANCE`. -/
def FailureCode.disclosesNoBalance : FailureCode → Bool
  | .walletNotFound | .walletPlayerMismatch => true
  | _ => false

/-- `INTERNAL_PROVIDER_ID`. -/
def internalProviderId : Text := utf16 "internal"

/-- `REVERSIBLE_BY`. -/
def WagerTransactionKind.reversibleKinds : WagerTransactionKind → List WagerTransactionKind
  | .refund => [.bet]
  | .rollback => [.bet, .win, .refund]
  | _ => []

variable [Platform]

/-- `CreateWagerTransactionProps`. -/
structure CreateWagerTransactionProps : Type where
  id : Text
  providerId : Text
  externalTransactionId : Text
  idempotencyKey : Text
  payloadHash : Text
  walletId : Text
  playerId : Text
  roundId : Text
  gameId : Text
  kind : WagerTransactionKind
  money : Money
  referenceExternalTransactionId : Option Text
  correlationId : Text
  createdAt : Instant

/-- `WagerTransaction`: what it was created with, and its private state. -/
structure WagerTransaction : Type extends CreateWagerTransactionProps where
  status : WagerTransactionStatus
  referenceTransactionId : Option Text
  failureCode : Option FailureCode
  resultBalance : Option Money
  attempts : Int
  nextAttemptAt : Option Instant
  expiresAt : Option Instant
  processedAt : Option Instant

/-- `openingIdentity`: the identity an OPENING has beside its wallet's id. -/
structure OpeningIdentity : Type where
  providerId : Text
  externalTransactionId : Text
  idempotencyKey : Text
  roundId : Text
  gameId : Text

def openingIdentity (walletId : Text) : OpeningIdentity where
  providerId := internalProviderId
  externalTransactionId := utf16 "opening:" ++ walletId
  idempotencyKey := internalProviderId ++ utf16 ":opening:" ++ walletId
  roundId := internalProviderId
  gameId := internalProviderId

namespace WagerTransaction

/-- `reserve`: the transaction in its first state. -/
def reserve (props : CreateWagerTransactionProps) : Except DomainError WagerTransaction :=
  -- an empty reference is falsy, so it counts as missing
  if props.kind.isReversal && (props.referenceExternalTransactionId.getD []).isEmpty then
    .error (.invalidWagerTransaction
      (props.kind.text ++ utf16 " requires referenceExternalTransactionId"))
  else if !props.money.isPositive then
    .error (.invalidWagerTransaction
      (props.kind.text ++ utf16 " requires an amount greater than zero"))
  else
    .ok { props with
      status := .pending, referenceTransactionId := none, failureCode := none,
      resultBalance := none, attempts := 0, nextAttemptAt := none, expiresAt := none,
      processedAt := none }

/-- `create`. -/
def create (props : CreateWagerTransactionProps) : Except DomainError WagerTransaction :=
  if props.kind = .opening then
    .error (.invalidWagerTransaction
      (utf16 "OPENING is internal and cannot be submitted through the API or the queue"))
  else if props.providerId = internalProviderId then
    .error (.invalidWagerTransaction
      (internalProviderId ++ utf16 " is a provider reserved for internal transactions"))
  else reserve props

/-- `createOpening`. -/
def createOpening (id walletId playerId : Text) (money : Money) (payloadHash : Text)
    (correlationId : Text) (createdAt : Instant) : Except DomainError WagerTransaction :=
  let identity := openingIdentity walletId
  reserve
    { id, walletId, playerId, money, payloadHash, correlationId, createdAt
      providerId := identity.providerId
      externalTransactionId := identity.externalTransactionId
      idempotencyKey := identity.idempotencyKey
      roundId := identity.roundId
      gameId := identity.gameId
      kind := .opening
      referenceExternalTransactionId := none }

def isTerminal (t : WagerTransaction) : Bool := t.status.isTerminal

def affectsBalance (t : WagerTransaction) : Bool := t.kind ≠ .loss

def requiresReference (t : WagerTransaction) : Bool := t.kind.isReversal

def matchesPayload (t : WagerTransaction) (payloadHash : Text) : Bool :=
  t.payloadHash = payloadHash

/-- `assertTransition`. -/
def assertTransition (t : WagerTransaction) (target : WagerTransactionStatus) :
    Except DomainError Unit :=
  if t.isTerminal || (target = .failed && t.status ≠ .pendingReference) ||
      (target = .pendingReference && t.status ≠ .pending) then
    .error (.invalidTransactionState t.status.text target.text)
  else .ok ()

def markProcessed (t : WagerTransaction) (referenceTransactionId : Option Text)
    (resultBalance : Money) (at_ : Instant) : Except DomainError WagerTransaction := do
  t.assertTransition .processed
  pure { t with
    status := .processed, referenceTransactionId, resultBalance := some resultBalance,
    processedAt := some at_ }

def markPendingReference (t : WagerTransaction) (resultBalance : Money)
    (nextAttemptAt expiresAt : Instant) : Except DomainError WagerTransaction := do
  t.assertTransition .pendingReference
  if !t.requiresReference then
    .error (.invalidWagerTransaction (t.kind.text ++
      utf16 " does not await a reference: PENDING_REFERENCE is exclusive to REFUND and ROLLBACK"))
  else
    pure { t with
      status := .pendingReference, resultBalance := some resultBalance,
      nextAttemptAt := some nextAttemptAt, expiresAt := some expiresAt }

def reject (t : WagerTransaction) (code : FailureCode) (resultBalance : Option Money)
    (at_ : Instant) : Except DomainError WagerTransaction := do
  t.assertTransition .rejected
  if code = .infrastructureFailure then
    .error (.invalidWagerTransaction (utf16 "INFRASTRUCTURE_FAILURE belongs to FAILED"))
  else if !code.disclosesNoBalance && resultBalance.isNone then
    .error (.invalidWagerTransaction (utf16 "rejection " ++ code.text ++
      utf16 " observed the wallet and requires the historical balance"))
  else if code.disclosesNoBalance && resultBalance.isSome then
    .error (.invalidWagerTransaction (code.text ++
      utf16 " cannot carry a historical balance: the caller does not own that wallet"))
  else
    pure { t with
      status := .rejected, failureCode := some code, resultBalance, processedAt := some at_ }

def fail (t : WagerTransaction) (resultBalance : Money) (at_ : Instant) :
    Except DomainError WagerTransaction := do
  t.assertTransition .failed
  pure { t with
    status := .failed, failureCode := some .infrastructureFailure,
    resultBalance := some resultBalance, processedAt := some at_ }

def scheduleRetry (t : WagerTransaction) (nextAttemptAt : Instant) :
    Except DomainError WagerTransaction :=
  if t.status ≠ .pendingReference then
    .error (.invalidTransactionState t.status.text WagerTransactionStatus.pendingReference.text)
  else .ok { t with attempts := t.attempts + 1, nextAttemptAt := some nextAttemptAt }

def overdraftFailureCode (t : WagerTransaction) : FailureCode :=
  if t.requiresReference then .reversalWouldOverdraw else .insufficientFunds

/-- `ledgerDirectionFor()`, without a reference. -/
def ledgerDirection (t : WagerTransaction) : Except DomainError LedgerDirection :=
  match t.kind with
  | .loss => .error (.invalidWagerTransaction (utf16 "LOSS produces no ledger entry"))
  | .bet => .ok .debit
  | .opening | .win | .refund => .ok .credit
  | .rollback =>
    .error (.invalidWagerTransaction (utf16 "ROLLBACK needs its reference to invert"))

/-- `ledgerDirectionFor(reference)`. -/
def ledgerDirectionFor (t : WagerTransaction) (reference : Option WagerTransaction) :
    Except DomainError LedgerDirection :=
  match t.kind, reference with
  | .rollback, some reference => do
    let direction ← reference.ledgerDirection
    pure (if direction = .debit then .credit else .debit)
  | _, _ => t.ledgerDirection

/-! ## When a transition goes through -/

variable {t : WagerTransaction}

/-- A transaction that `reserve` built, and what it checked. -/
theorem reserve_ok {props : CreateWagerTransactionProps} (h : reserve props = .ok t) :
    (props.kind.isReversal = true →
      (props.referenceExternalTransactionId.getD []).isEmpty = false) ∧
    0 < props.money.cents ∧
    t = { props with
      status := .pending, referenceTransactionId := none, failureCode := none,
      resultBalance := none, attempts := 0, nextAttemptAt := none, expiresAt := none,
      processedAt := none } := by
  unfold reserve at h
  split at h
  · cases h
  · split at h
    · cases h
    · cases h
      simp_all [Money.isPositive]

theorem create_eq (props : CreateWagerTransactionProps) (hkind : props.kind ≠ .opening)
    (hprovider : props.providerId ≠ internalProviderId)
    (href : props.kind.isReversal = true →
      (props.referenceExternalTransactionId.getD []).isEmpty = false)
    (hpos : 0 < props.money.cents) : ∃ t, create props = .ok t := by
  rw [create, if_neg hkind, if_neg hprovider, reserve, if_neg, if_neg]
  · exact ⟨_, rfl⟩
  · simpa [Money.isPositive] using hpos
  · intro h
    rw [Bool.and_eq_true] at h
    rw [href h.1] at h
    exact absurd h.2 (by decide)

theorem create_ok {props : CreateWagerTransactionProps} (h : create props = .ok t) :
    props.kind ≠ .opening ∧ props.providerId ≠ internalProviderId ∧ reserve props = .ok t := by
  unfold create at h
  split at h
  · cases h
  · split at h
    · cases h
    · exact ⟨by assumption, by assumption, h⟩

theorem markProcessed_eq (h : t.status.isTerminal = false) (reference : Option Text)
    (balance : Money) (at_ : Instant) :
    t.markProcessed reference balance at_ = .ok { t with
      status := .processed, referenceTransactionId := reference, resultBalance := some balance,
      processedAt := some at_ } := by
  simp [markProcessed, assertTransition, isTerminal, h, bind, Except.bind, pure, Except.pure]

theorem markPendingReference_eq (h : t.status = .pending) (hk : t.kind.isReversal = true)
    (balance : Money) (next expires : Instant) :
    t.markPendingReference balance next expires = .ok { t with
      status := .pendingReference, resultBalance := some balance, nextAttemptAt := some next,
      expiresAt := some expires } := by
  simp [markPendingReference, assertTransition, isTerminal, requiresReference, h, hk,
    WagerTransactionStatus.isTerminal, bind, Except.bind, pure, Except.pure]

theorem reject_eq (h : t.status.isTerminal = false) {code : FailureCode} {balance : Option Money}
    (hcode : code ≠ .infrastructureFailure) (hb : code.disclosesNoBalance = balance.isNone)
    (at_ : Instant) :
    t.reject code balance at_ = .ok { t with
      status := .rejected, failureCode := some code, resultBalance := balance,
      processedAt := some at_ } := by
  cases balance <;>
    simp [reject, assertTransition, isTerminal, h, hcode, hb, bind, Except.bind, pure, Except.pure]

theorem fail_eq (h : t.status = .pendingReference) (balance : Money) (at_ : Instant) :
    t.fail balance at_ = .ok { t with
      status := .failed, failureCode := some .infrastructureFailure,
      resultBalance := some balance, processedAt := some at_ } := by
  simp [fail, assertTransition, isTerminal, h, WagerTransactionStatus.isTerminal, bind,
    Except.bind, pure, Except.pure]

theorem scheduleRetry_eq (h : t.status = .pendingReference) (next : Instant) :
    t.scheduleRetry next = .ok { t with
      attempts := t.attempts + 1, nextAttemptAt := some next } := by
  simp [scheduleRetry, h]

end WagerTransaction

/-! ## References -/

/-- `bindingFailure`. -/
def bindingFailure (operation reference : WagerTransaction) : Option FailureCode :=
  if reference.status ≠ .processed then some .referenceNotProcessed
  else if reference.providerId ≠ operation.providerId ||
      reference.playerId ≠ operation.playerId ||
      reference.walletId ≠ operation.walletId ||
      reference.roundId ≠ operation.roundId then some .referenceMismatch
  else if reference.money.currency ≠ operation.money.currency then some .currencyMismatch
  else none

/-- `referenceIsSettled`. -/
def referenceIsSettled (reference : WagerTransaction) : Bool := reference.isTerminal

/-- `reversalFailure`. -/
def reversalFailure (reversal reference : WagerTransaction) :
    Except DomainError (Option FailureCode) :=
  if reference.kind ∉ reversal.kind.reversibleKinds then
    .ok (some .referenceKindNotReversible)
  else match bindingFailure reversal reference with
    | some failure => .ok (some failure)
    | none => do
      let same ← reference.money.equals reversal.money
      pure (if same then none else some .reversalAmountMismatch)

/-- `winReferenceFailure`. -/
def winReferenceFailure (win reference : WagerTransaction) : Option FailureCode :=
  if reference.kind ≠ .bet then some .referenceMismatch else bindingFailure win reference

/-- `reference` is processed and belongs to the same round as `operation`. -/
structure Bound (operation reference : WagerTransaction) : Prop where
  processed : reference.status = .processed
  provider : reference.providerId = operation.providerId
  player : reference.playerId = operation.playerId
  wallet : reference.walletId = operation.walletId
  round : reference.roundId = operation.roundId
  currency : reference.money.currency = operation.money.currency

theorem bindingFailure_eq_none {operation reference : WagerTransaction} :
    bindingFailure operation reference = none ↔ Bound operation reference := by
  unfold bindingFailure
  constructor
  · intro h
    split at h
    · cases h
    · split at h
      · cases h
      · split at h
        · cases h
        · simp_all only [ne_eq, Decidable.not_not, Bool.or_eq_true, decide_eq_true_eq, not_or]
          exact ⟨by assumption, by simp_all, by simp_all, by simp_all, by simp_all, by simp_all⟩
  · rintro ⟨processed, provider, player, wallet, round, currency⟩
    simp [processed, provider, player, wallet, round, currency]

/-- What an accepted reversal knows about its reference. -/
theorem reversalFailure_eq_none {reversal reference : WagerTransaction} :
    reversalFailure reversal reference = .ok none ↔
      reference.kind ∈ reversal.kind.reversibleKinds ∧ Bound reversal reference ∧
        reference.money.cents = reversal.money.cents := by
  unfold reversalFailure
  by_cases hk : reference.kind ∈ reversal.kind.reversibleKinds
  · rw [if_neg (not_not.mpr hk)]
    cases hb : bindingFailure reversal reference with
    | some failure =>
      refine ⟨fun h => (by cases h), fun h => ?_⟩
      rw [bindingFailure_eq_none.mpr h.2.1] at hb
      cases hb
    | none =>
      have bound := bindingFailure_eq_none.mp hb
      by_cases hm : reference.money.cents = reversal.money.cents <;>
        simp [Money.equals, Money.assertSameCurrency, bound.currency, hk, hm, bound, bind,
          Except.bind, pure, Except.pure]
  · simp [hk]

/-- Deciding a reversal never throws: amounts are compared only in one currency. -/
theorem reversalFailure_ok (reversal reference : WagerTransaction) :
    ∃ failure, reversalFailure reversal reference = .ok failure := by
  unfold reversalFailure
  split
  · exact ⟨_, rfl⟩
  · cases hb : bindingFailure reversal reference with
    | some failure => exact ⟨_, rfl⟩
    | none =>
      have bound := bindingFailure_eq_none.mp hb
      exact ⟨_, by
        simp [Money.equals, Money.assertSameCurrency, bound.currency, bind, Except.bind, pure,
          Except.pure]; rfl⟩

end Wagering
