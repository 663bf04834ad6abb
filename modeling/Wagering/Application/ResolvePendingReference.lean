import Wagering.Application.SubmitWager

/-!
# Resolving pending references

`application/use-cases/resolve-pending-reference.ts`: one run of the worker, a
transaction that settles or reschedules one due reversal and, when it fails
with an error that a retry would repeat, a second one that records the failure.
-/

namespace Wagering

open Interleave

/-- `MAX_ATTEMPTS` of the worker. -/
def maxAttempts : Int := 100

/-- `pendingReferenceBackoffMs`, of attempts counted from 1.  The product is exact;
that of the doubles may fall on the other side of a half. -/
def pendingReferenceBackoffMs (attempts : Int) (jitter : Nat) : Int :=
  jittered (min 300000 (5000 * 2 ^ (attempts - 1).toNat)) jitter

/-- `PendingReferenceOutcome`. -/
inductive PendingReferenceOutcome : Type
  | idle
  | rescheduled (transactionId walletId providerId correlationId : Text) (attempts : Int)
  | settled (transactionId walletId providerId correlationId : Text)
      (status : WagerTransactionStatus) (failureCode : Option FailureCode)
deriving DecidableEq

variable [Platform]

/-- `findReference`. -/
def findReference (pending : WagerTransaction) : Code (Option WagerTransaction) :=
  call (.findByExternalId pending.providerId (pending.referenceExternalTransactionId.getD []))

/-- `isExhausted`. -/
def isExhausted (pending : WagerTransaction) (now : Instant) : Bool :=
  maxAttempts ≤ pending.attempts || pending.expiresAt.any fun expiresAt => expiresAt ≤ now

/-- The outcome `settled` for a transaction that this run decided. -/
def settledOutcome (pending : WagerTransaction) (status : WagerTransactionStatus)
    (failureCode : Option FailureCode) : PendingReferenceOutcome :=
  .settled pending.id pending.walletId pending.providerId pending.correlationId status failureCode

/-- `reschedule`. -/
def rescheduleReference (pending : WagerTransaction) (now : Instant) :
    Code PendingReferenceOutcome := do
  let jitter ← call .jitter
  let delay := pendingReferenceBackoffMs (pending.attempts + 1) jitter
  let pending ← domain (pending.scheduleRetry (now + delay))
  call (.updateWager pending)
  pure (.rescheduled pending.id pending.walletId pending.providerId pending.correlationId
    pending.attempts)

/-- `rejected`. -/
def recordRejected (pending : WagerTransaction) (now : Instant) (context : EventContext) :
    Code PendingReferenceOutcome := do
  call (.updateWager pending)
  call (.enqueue [wagerTransactionRejected pending context] now)
  pure (settledOutcome pending pending.status pending.failureCode)

/-- The context of the events that a settled reversal emits. -/
def pendingContext (pending : WagerTransaction) (eventId : Text) (now : Instant) :
    EventContext where
  eventId := eventId
  correlationId := pending.correlationId
  causationId := some pending.id
  occurredAt := now

/-- `settle`. -/
def settle (pending : WagerTransaction) (now : Instant) : Code PendingReferenceOutcome := do
  let eventId ← call .nextId
  let context := pendingContext pending eventId now
  match ← call (.lockWallet pending.walletId) with
  | none => do
    let pending ← domain (pending.reject .walletNotFound none now)
    recordRejected pending now context
  | some wallet => do
    let reference ← findReference pending
    match reference.filter referenceIsSettled with
    | none => do
      let code := if reference.isNone then .referenceNotFound else .referenceNotProcessed
      let pending ← domain (pending.reject code (some wallet.balance) now)
      recordRejected pending now context
    | some reference => do
      let result ← applyResolvedReversal pending reference wallet now context
      pure (.settled result.transactionId pending.walletId pending.providerId
        pending.correlationId result.status result.failureCode)

/-- The transaction of `run`. -/
def resolveDue : Code PendingReferenceOutcome := do
  let now ← call .now
  match ← call (.lockDuePendingReference now) with
  | none => pure .idle
  | some pending => do
    call (.attempt pending.id)
    let reference ← findReference pending
    if !(reference.any referenceIsSettled) && !isExhausted pending now then
      rescheduleReference pending now
    else settle pending now

/-- The transaction of `recordFailure`. -/
def recordFailure (transactionId : Text) (error : Failure) : Code PendingReferenceOutcome := do
  let now ← call .now
  match ← call (.lockWager transactionId) with
  | none => .raise error
  | some pending => do
    match ← call (.lockWallet pending.walletId) with
    | none => .raise error
    | some wallet =>
      if pending.isTerminal then .raise error
      else do
        let pending ← domain (pending.fail wallet.balance now)
        let eventId ← call .nextId
        recordRejected pending now (pendingContext pending eventId now)

end Wagering
