import Wagering.Domain.WagerTransaction

/-!
# Integration events

`application/events/integration-event.ts` and `wager-events.ts`.  Timestamps
inside an event stay instants here; `toISOString` only renders them.
-/

namespace Wagering

variable [Platform]

/-- `EventContext`. -/
structure EventContext : Type where
  eventId : Text
  correlationId : Text
  causationId : Option Text
  occurredAt : Instant

/-- `WagerTransactionData`. -/
structure WagerTransactionData : Type where
  transactionId : Text
  providerId : Text
  externalTransactionId : Text
  walletId : Text
  playerId : Text
  roundId : Text
  gameId : Text
  kind : WagerTransactionKind
  money : MoneyProps
  processedAt : Instant
  referenceTransactionId : Option Text
deriving DecidableEq

/-- `WagerTransactionRejectedData`. -/
structure WagerTransactionRejectedData : Type where
  transactionId : Text
  providerId : Text
  externalTransactionId : Text
  walletId : Text
  kind : WagerTransactionKind
  money : MoneyProps
  failureCode : Text
  processedAt : Instant
deriving DecidableEq

/-- `WagerTransactionPendingReferenceData`. -/
structure WagerTransactionPendingReferenceData : Type where
  transactionId : Text
  providerId : Text
  externalTransactionId : Text
  walletId : Text
  kind : WagerTransactionKind
  referenceExternalTransactionId : Text
  money : MoneyProps
deriving DecidableEq

/-- `WalletBalanceChangedData`. -/
structure WalletBalanceChangedData : Type where
  walletId : Text
  transactionId : Text
  direction : LedgerDirection
  money : MoneyProps
  balanceBefore : MoneyProps
  balanceAfter : MoneyProps
  walletVersion : Int
deriving DecidableEq

/-- The data of an event; the constructor is its `eventType`. -/
inductive EventData : Type
  | processed (data : WagerTransactionData)
  | rejected (data : WagerTransactionRejectedData)
  | pendingReference (data : WagerTransactionPendingReferenceData)
  | balanceChanged (data : WalletBalanceChangedData)
deriving DecidableEq

/-- `eventType`. -/
def EventData.eventType : EventData → Text
  | .processed _ => utf16 "WagerTransactionProcessed"
  | .rejected _ => utf16 "WagerTransactionRejected"
  | .pendingReference _ => utf16 "WagerTransactionPendingReference"
  | .balanceChanged _ => utf16 "WalletBalanceChanged"

/-- The transaction an event is about. -/
def EventData.transactionId : EventData → Text
  | .processed data => data.transactionId
  | .rejected data => data.transactionId
  | .pendingReference data => data.transactionId
  | .balanceChanged data => data.transactionId

/-- `IntegrationEvent`; every event type has version 1. -/
structure IntegrationEvent : Type where
  eventId : Text
  aggregateId : Text
  correlationId : Text
  causationId : Option Text
  occurredAt : Instant
  data : EventData
deriving DecidableEq

/-- The texts of an event that come from outside the database. -/
def IntegrationEvent.foreignTexts (event : IntegrationEvent) : List Text :=
  event.correlationId :: event.causationId.toList

/-- `WagerTransactionProcessed.from`. -/
def wagerTransactionProcessed (t : WagerTransaction) (context : EventContext) :
    IntegrationEvent :=
  { context with
    aggregateId := t.id
    data := .processed
      { transactionId := t.id
        providerId := t.providerId
        externalTransactionId := t.externalTransactionId
        walletId := t.walletId
        playerId := t.playerId
        roundId := t.roundId
        gameId := t.gameId
        kind := t.kind
        money := t.money.toJSON
        processedAt := t.processedAt.getD context.occurredAt
        referenceTransactionId := t.referenceTransactionId } }

/-- `WagerTransactionRejected.from`. -/
def wagerTransactionRejected (t : WagerTransaction) (context : EventContext) :
    IntegrationEvent :=
  { context with
    aggregateId := t.id
    data := .rejected
      { transactionId := t.id
        providerId := t.providerId
        externalTransactionId := t.externalTransactionId
        walletId := t.walletId
        kind := t.kind
        money := t.money.toJSON
        failureCode := (t.failureCode.map FailureCode.text).getD (utf16 "UNKNOWN")
        processedAt := t.processedAt.getD context.occurredAt } }

/-- `WagerTransactionPendingReference.from`. -/
def wagerTransactionPendingReference (t : WagerTransaction) (context : EventContext) :
    IntegrationEvent :=
  { context with
    aggregateId := t.id
    data := .pendingReference
      { transactionId := t.id
        providerId := t.providerId
        externalTransactionId := t.externalTransactionId
        walletId := t.walletId
        kind := t.kind
        referenceExternalTransactionId := t.referenceExternalTransactionId.getD []
        money := t.money.toJSON } }

/-- `WalletBalanceChanged.from`. -/
def walletBalanceChanged (wallet : Wallet) (entry : WalletLedgerEntry)
    (context : EventContext) : IntegrationEvent :=
  { context with
    aggregateId := wallet.id
    data := .balanceChanged
      { walletId := wallet.id
        transactionId := entry.transactionId
        direction := entry.direction
        money := entry.money.toJSON
        balanceBefore := entry.balanceBefore.toJSON
        balanceAfter := entry.balanceAfter.toJSON
        walletVersion := wallet.version } }

end Wagering
