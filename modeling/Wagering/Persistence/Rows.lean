import Wagering.Application.Events

/-!
# Rows

`infrastructure/persistence/rows.ts` and `mappers.ts`.  A `numeric(20,2)`
column holds hundredths; the driver hands it over as the text that `toFixed`
writes, so reading one goes through `Money.from`.  A `uuid` column holds the
lower-case text that the server prints.
-/

namespace Wagering

open Text

/-! ## Identifiers -/

/-- `UUID_FORMAT`. -/
def isUuid (t : Text) : Bool :=
  t.length = 36 && (List.range 36).all fun i =>
    match t[i]? with
    | some u => if i = 8 || i = 13 || i = 18 || i = 23 then u = 45 else isHexDigit u
    | none => false

/-- The text that the server prints for a `uuid` it was given as `t`. -/
def uuidText (t : Text) : Text :=
  t.map fun u => if isUpper u then u + 32 else u

/-- An identifier as `IdGenerator.next` writes it and the server prints it. -/
def isCanonicalUuid (t : Text) : Bool := isUuid t && uuidText t = t

/-! ## Rows -/

structure WalletRow : Type where
  id : Text
  playerId : Text
  currency : Text
  balance : Int
  version : Int
  createdAt : Instant
  updatedAt : Instant
deriving DecidableEq

structure WagerTransactionRow : Type where
  id : Text
  providerId : Text
  externalTransactionId : Text
  idempotencyKey : Text
  payloadHash : Text
  walletId : Text
  playerId : Text
  roundId : Text
  gameId : Text
  kind : WagerTransactionKind
  amount : Int
  currency : Text
  referenceExternalTransactionId : Option Text
  referenceTransactionId : Option Text
  status : WagerTransactionStatus
  failureCode : Option FailureCode
  resultBalanceAmount : Option Int
  resultBalanceCurrency : Option Text
  attempts : Int
  nextAttemptAt : Option Instant
  expiresAt : Option Instant
  correlationId : Text
  createdAt : Instant
  processedAt : Option Instant
deriving DecidableEq

structure WalletLedgerEntryRow : Type where
  id : Text
  walletId : Text
  transactionId : Text
  direction : LedgerDirection
  amount : Int
  currency : Text
  balanceBefore : Int
  balanceAfter : Int
  createdAt : Instant
deriving DecidableEq

structure InboxMessageRow : Type where
  consumerName : Text
  providerId : Text
  messageId : Text
  payloadHash : Text
  brokerMessageId : Option Text
  receivedAt : Instant
  processedAt : Option Instant
deriving DecidableEq

/-- `payload` is the event itself, the row's `toJSON` document. -/
structure OutboxMessageRow : Type where
  id : Text
  eventId : Text
  aggregateId : Text
  eventType : Text
  payload : IntegrationEvent
  occurredAt : Instant
  attempts : Int
  nextAttemptAt : Instant
  claimedBy : Option Text
  claimedUntil : Option Instant
  lastError : Option Text
  publishedAt : Option Instant
  abandonedAt : Option Instant
deriving DecidableEq

/-! ## What the server keeps of a row -/

def WalletRow.stored (row : WalletRow) : WalletRow :=
  { row with playerId := Text.stored row.playerId }

def WagerTransactionRow.stored (row : WagerTransactionRow) : WagerTransactionRow :=
  { row with
    providerId := Text.stored row.providerId
    externalTransactionId := Text.stored row.externalTransactionId
    idempotencyKey := Text.stored row.idempotencyKey
    walletId := uuidText row.walletId
    playerId := Text.stored row.playerId
    roundId := Text.stored row.roundId
    gameId := Text.stored row.gameId
    referenceExternalTransactionId := row.referenceExternalTransactionId.map Text.stored
    correlationId := Text.stored row.correlationId }

def InboxMessageRow.stored (row : InboxMessageRow) : InboxMessageRow :=
  { row with
    consumerName := Text.stored row.consumerName
    providerId := Text.stored row.providerId
    messageId := Text.stored row.messageId
    brokerMessageId := row.brokerMessageId.map Text.stored }

variable [Platform]

/-! ## Mappers -/

/-- A monetary column as the driver returns it. -/
def moneyColumn (amount : Int) (currency : Text) : Except DomainError Money :=
  Money.from ⟨toFixed amount, currency⟩

def toWallet (row : WalletRow) : Except DomainError Wallet := do
  let balance ← moneyColumn row.balance row.currency
  pure
    { id := row.id, playerId := row.playerId, currency := row.currency, balance,
      version := row.version, createdAt := row.createdAt, updatedAt := row.updatedAt }

def toWalletRow (wallet : Wallet) : WalletRow where
  id := wallet.id
  playerId := wallet.playerId
  currency := wallet.currency
  balance := wallet.balance.cents
  version := wallet.version
  createdAt := wallet.createdAt
  updatedAt := wallet.updatedAt

def toWagerTransaction (row : WagerTransactionRow) : Except DomainError WagerTransaction := do
  let resultBalance ← match row.resultBalanceAmount, row.resultBalanceCurrency with
    | some amount, some currency => some <$> moneyColumn amount currency
    | _, _ => pure none
  let money ← moneyColumn row.amount row.currency
  pure
    { id := row.id
      providerId := row.providerId
      externalTransactionId := row.externalTransactionId
      idempotencyKey := row.idempotencyKey
      payloadHash := row.payloadHash
      walletId := row.walletId
      playerId := row.playerId
      roundId := row.roundId
      gameId := row.gameId
      kind := row.kind
      money
      referenceExternalTransactionId := row.referenceExternalTransactionId
      correlationId := row.correlationId
      createdAt := row.createdAt
      status := row.status
      referenceTransactionId := row.referenceTransactionId
      failureCode := row.failureCode
      resultBalance
      attempts := row.attempts
      nextAttemptAt := row.nextAttemptAt
      expiresAt := row.expiresAt
      processedAt := row.processedAt }

def toWagerTransactionRow (t : WagerTransaction) : WagerTransactionRow where
  id := t.id
  providerId := t.providerId
  externalTransactionId := t.externalTransactionId
  idempotencyKey := t.idempotencyKey
  payloadHash := t.payloadHash
  walletId := t.walletId
  playerId := t.playerId
  roundId := t.roundId
  gameId := t.gameId
  kind := t.kind
  amount := t.money.cents
  currency := t.money.currency
  referenceExternalTransactionId := t.referenceExternalTransactionId
  referenceTransactionId := t.referenceTransactionId
  status := t.status
  failureCode := t.failureCode
  resultBalanceAmount := t.resultBalance.map Money.cents
  resultBalanceCurrency := t.resultBalance.map Money.currency
  attempts := t.attempts
  nextAttemptAt := t.nextAttemptAt
  expiresAt := t.expiresAt
  correlationId := t.correlationId
  createdAt := t.createdAt
  processedAt := t.processedAt

def toLedgerEntryRow (entry : WalletLedgerEntry) : WalletLedgerEntryRow where
  id := entry.id
  walletId := entry.walletId
  transactionId := entry.transactionId
  direction := entry.direction
  amount := entry.money.cents
  currency := entry.money.currency
  balanceBefore := entry.balanceBefore.cents
  balanceAfter := entry.balanceAfter.cents
  createdAt := entry.createdAt

/-- The row that `MikroOutboxRepository.enqueue` writes for an event. -/
def toOutboxRow (now : Instant) (event : IntegrationEvent) : OutboxMessageRow where
  id := event.eventId
  eventId := event.eventId
  aggregateId := event.aggregateId
  eventType := event.data.eventType
  payload := event
  occurredAt := event.occurredAt
  attempts := 0
  nextAttemptAt := now
  claimedBy := none
  claimedUntil := none
  lastError := none
  publishedAt := none
  abandonedAt := none

/-! ## Reading back what was written -/

theorem moneyColumn_eq (m : Money) (h : 0 ≤ m.cents) :
    moneyColumn m.cents m.currency = .ok m :=
  Money.from_toJSON m h

/-- A wallet that a row can hold: its balance is in its own currency. -/
structure Wallet.Storable (w : Wallet) : Prop where
  currency : w.balance.currency = w.currency
  nonneg : 0 ≤ w.balance.cents

theorem toWallet_toWalletRow {w : Wallet} (h : w.Storable) : toWallet (toWalletRow w) = .ok w := by
  have hm : moneyColumn w.balance.cents w.currency = .ok w.balance :=
    h.currency ▸ moneyColumn_eq w.balance h.nonneg
  simp [toWallet, toWalletRow, hm, bind, Except.bind, pure, Except.pure]

/-- A transaction that a row can hold. -/
structure WagerTransaction.Storable (t : WagerTransaction) : Prop where
  positive : 0 < t.money.cents
  nonneg : ∀ balance, t.resultBalance = some balance → 0 ≤ balance.cents

theorem toWagerTransaction_toWagerTransactionRow {t : WagerTransaction} (h : t.Storable) :
    toWagerTransaction (toWagerTransactionRow t) = .ok t := by
  have hm := moneyColumn_eq t.money (Int.le_of_lt h.positive)
  cases hb : t.resultBalance with
  | none =>
    simp only [toWagerTransaction, toWagerTransactionRow, hb, Option.map_none, hm, bind,
      Except.bind, pure, Except.pure]
    rw [← hb]
  | some balance =>
    have hr := moneyColumn_eq balance (h.nonneg balance hb)
    simp only [toWagerTransaction, toWagerTransactionRow, hb, Option.map_some, hm, hr, bind,
      Except.bind, pure, Except.pure, Functor.map, Except.map]
    rw [← hb]

end Wagering
