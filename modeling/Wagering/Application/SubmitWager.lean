import Wagering.Application.PayloadHash
import Wagering.Persistence.Repositories

/-!
# Submitting a wager transaction

`application/use-cases/submit-wager-transaction.ts`.  `executeWithin` runs in a
transaction that the caller opens: its own for an HTTP request, the consumer's
for a message.
-/

namespace Wagering

open Interleave

variable [Platform]

/-- Code of a use case. -/
abbrev Code (α : Type) : Type := Program ports Failure α

/-- One repository call. -/
abbrev call (op : Op) : Code op.Answer := @Program.perform ports Failure op

/-- Domain code, which may throw a domain error. -/
def domain {α : Type} : Except DomainError α → Code α
  | .ok a => .pure a
  | .error e => .raise (.domain e)

/-- `throw new ApplicationError(…)`. -/
def throwApplication {α : Type} (code : ErrorCode) (message : String)
    (existingId : Option Text) : Code α :=
  .raise (.application ⟨code, utf16 message, existingId⟩)

/-- `PENDING_REFERENCE_TTL_MS`. -/
def pendingReferenceTtlMs : Instant := 21600000

/-- `FIRST_RETRY_DELAY_MS`. -/
def firstRetryDelayMs : Instant := 5000

/-- `SubmitWagerCommand`. -/
structure SubmitWagerCommand : Type where
  providerId : Text
  externalTransactionId : Text
  idempotencyKey : Text
  playerId : Text
  walletId : Text
  roundId : Text
  gameId : Text
  kind : WagerTransactionKind
  money : MoneyProps
  referenceExternalTransactionId : Option Text
  correlationId : Text
  causationId : Option Text

/-- `SubmitWagerResult`. -/
structure SubmitWagerResult : Type where
  transactionId : Text
  status : WagerTransactionStatus
  balance : Option MoneyProps
  failureCode : Option FailureCode
  idempotentReplay : Bool
deriving DecidableEq

/-- `resultOf`. -/
def resultOf (transaction : WagerTransaction) (idempotentReplay : Bool) : SubmitWagerResult where
  transactionId := transaction.id
  status := transaction.status
  balance := transaction.resultBalance.map Money.toJSON
  failureCode := transaction.failureCode
  idempotentReplay

/-- `replayOf`. -/
def replayOf (transaction : WagerTransaction) : SubmitWagerResult := resultOf transaction true

/-- `isDecidable`. -/
def isDecidable (transaction reference : WagerTransaction) : Bool :=
  reference.id = transaction.id || referenceIsSettled reference

/-- `movementFailure`. -/
def movementFailure (wallet : Wallet) (transaction : WagerTransaction)
    (direction : LedgerDirection) : Except DomainError (Option FailureCode) := do
  match direction with
  | .debit =>
    let enough ← wallet.canDebit transaction.money
    pure (if enough then none else some transaction.overdraftFailureCode)
  | .credit =>
    let room ← wallet.canCredit transaction.money
    pure (if room then none else some .balanceLimitExceeded)

/-- `move`. -/
def move (wallet : Wallet) (transaction : WagerTransaction) (direction : LedgerDirection)
    (now : Instant) : Code (WalletLedgerEntry × Wallet) := do
  let entryId ← call .nextId
  domain (wallet.move direction
    { entryId, transactionId := transaction.id, money := transaction.money, at_ := now })

/-- `process`. -/
def process (transaction : WagerTransaction) (wallet : Wallet)
    (entry : Option WalletLedgerEntry) (now : Instant) (context : EventContext)
    (referenceTransactionId : Option Text) : Code SubmitWagerResult := do
  let transaction ← domain (transaction.markProcessed referenceTransactionId wallet.balance now)
  call (.updateWager transaction)
  match entry with
  | none =>
    call (.enqueue [wagerTransactionProcessed transaction context] now)
    pure (resultOf transaction false)
  | some entry => do
    call (.insertLedger entry)
    call (.updateWallet wallet)
    let eventId ← call .nextId
    call (.enqueue
      [wagerTransactionProcessed transaction context,
       walletBalanceChanged wallet entry
         { context with eventId, causationId := some transaction.id }] now)
    pure (resultOf transaction false)

/-- `reject`. -/
def reject (transaction : WagerTransaction) (code : FailureCode) (resultBalance : Option Money)
    (now : Instant) (context : EventContext) : Code SubmitWagerResult := do
  let transaction ← domain (transaction.reject code resultBalance now)
  call (.updateWager transaction)
  call (.enqueue [wagerTransactionRejected transaction context] now)
  pure (resultOf transaction false)

/-- `applyResolvedReversal`, shared with the pending reference worker. -/
def applyResolvedReversal (transaction reference : WagerTransaction) (wallet : Wallet)
    (now : Instant) (context : EventContext) : Code SubmitWagerResult := do
  match ← domain (reversalFailure transaction reference) with
  | some failure => reject transaction failure (some wallet.balance) now context
  | none => do
    let alreadyReversed ← call (.hasActiveReversal reference.id)
    if alreadyReversed then
      reject transaction .referenceAlreadyReversed (some wallet.balance) now context
    else do
      let direction ← domain (transaction.ledgerDirectionFor (some reference))
      match ← domain (movementFailure wallet transaction direction) with
      | some rejection => reject transaction rejection (some wallet.balance) now context
      | none => do
        let (entry, wallet) ← move wallet transaction direction now
        process transaction wallet (some entry) now context (some reference.id)

/-- `applyReversal`. -/
def applyReversal (transaction : WagerTransaction) (wallet : Wallet) (now : Instant)
    (context : EventContext) : Code SubmitWagerResult := do
  let reference ← call (.findByExternalId transaction.providerId
    (transaction.referenceExternalTransactionId.getD []))
  match reference.filter (isDecidable transaction) with
  | none => do
    let transaction ← domain (transaction.markPendingReference wallet.balance
      (now + firstRetryDelayMs) (now + pendingReferenceTtlMs))
    call (.updateWager transaction)
    call (.enqueue [wagerTransactionPendingReference transaction context] now)
    pure (resultOf transaction false)
  | some reference => applyResolvedReversal transaction reference wallet now context

/-- `resolveOptionalReference`: the failure, or the id of the reference if it resolved. -/
def resolveOptionalReference (transaction : WagerTransaction) :
    Code (Except FailureCode (Option Text)) := do
  match transaction.kind, transaction.referenceExternalTransactionId with
  | .win, some external => do
    let reference ← call (.findByExternalId transaction.providerId external)
    match reference.filter (isDecidable transaction) with
    | none => pure (.ok none)
    | some reference =>
      match winReferenceFailure transaction reference with
      | some failure => pure (.error failure)
      | none => pure (.ok (some reference.id))
  | _, _ => pure (.ok none)

/-- `apply`, from the wallet that it locked on. -/
def applyLocked (transaction : WagerTransaction) (command : SubmitWagerCommand) (now : Instant)
    (context : EventContext) (wallet : Wallet) : Code SubmitWagerResult :=
  if wallet.playerId ≠ command.playerId then
    reject transaction .walletPlayerMismatch none now context
  else if wallet.currency ≠ transaction.money.currency then
    reject transaction .currencyMismatch (some wallet.balance) now context
  else if transaction.requiresReference then
    applyReversal transaction wallet now context
  else if !transaction.affectsBalance then
    process transaction wallet none now context none
  else do
    match ← resolveOptionalReference transaction with
    | .error failure => reject transaction failure (some wallet.balance) now context
    | .ok referenceId => do
      let direction ← domain transaction.ledgerDirection
      match ← domain (movementFailure wallet transaction direction) with
      | some rejection => reject transaction rejection (some wallet.balance) now context
      | none => do
        let (entry, wallet) ← move wallet transaction direction now
        process transaction wallet (some entry) now context referenceId

/-- `apply`. -/
def apply (transaction : WagerTransaction) (command : SubmitWagerCommand) (now : Instant) :
    Code SubmitWagerResult := do
  let eventId ← call .nextId
  let context : EventContext :=
    { eventId, correlationId := command.correlationId, causationId := command.causationId,
      occurredAt := now }
  match ← call (.lockWallet command.walletId) with
  | none => reject transaction .walletNotFound none now context
  | some wallet => applyLocked transaction command now context wallet

/-- `resolveExisting`. -/
def resolveExisting (command : SubmitWagerCommand) (payloadHash : Text) :
    Code SubmitWagerResult := do
  match ← call (.findByIdempotencyKey command.providerId command.idempotencyKey) with
  | some byKey =>
    if !byKey.matchesPayload payloadHash then
      throwApplication .idempotencyKeyConflict
        "the idempotency key was already used with a different payload" (some byKey.id)
    else pure (replayOf byKey)
  | none => do
    match ← call (.findByExternalId command.providerId command.externalTransactionId) with
    | some byExternal =>
      throwApplication .externalTransactionIdReused
        "externalTransactionId already belongs to another idempotency key" (some byExternal.id)
    | none =>
      throwApplication .serviceUnavailable
        "identity reservation lost a race with no visible owner" none

/-- The fields of a command that its payload hash covers. -/
def SubmitWagerCommand.payload (command : SubmitWagerCommand) (money : Money) :
    BusinessPayload :=
  { command with money }

/-- What `executeWithin` creates the transaction from. -/
def SubmitWagerCommand.props (command : SubmitWagerCommand) (id : Text) (money : Money)
    (now : Instant) : CreateWagerTransactionProps :=
  { command with
    id, money, createdAt := now, payloadHash := payloadHashOf (command.payload money) }

/-- `executeWithin`. -/
def executeWithin (command : SubmitWagerCommand) : Code SubmitWagerResult := do
  let money ← domain (Money.from command.money)
  if !money.isPositive then
    throwApplication .amountNotPositive "amount must be greater than zero" none
  else do
    let now ← call .now
    let id ← call .nextId
    let reserved ← domain (WagerTransaction.create (command.props id money now))
    match ← call (.reserve reserved) with
    | none => resolveExisting command (payloadHashOf (command.payload money))
    | some owned => apply owned command now

end Wagering
