import Wagering.Application.ReconcileWallet
import Wagering.Interface.LedgerQuery
import Wagering.Interface.Request
import Wagering.Persistence.PostgresErrors

/-!
# The HTTP interface

`interface/http/wagering.controller.ts`, with the guard in front of it
(`api-role.guard.ts`) and the filter behind it (`error-filter.ts`): what a
request hands to a use case, and the response that its result or its error
becomes.  What is logged and measured is left out.
-/

namespace Wagering

open Text

/-! ## Errors -/

/-- `STATUS`. -/
def ErrorCode.status : ErrorCode → Nat
  | .invalidPayload | .missingIdempotencyKey | .amountNotPositive | .referenceRequired
  | .reservedProviderId => 400
  | .payloadTooLarge => 413
  | .unsupportedMediaType => 415
  | .idempotencyKeyConflict | .externalTransactionIdReused | .walletAlreadyExists => 409
  | .resourceNotFound => 404
  | .serviceUnavailable => 503
  | .internalError => 500

/-- What the filter is given.  `transient` is what `isTransientDatabaseFailure`
says of an error that the use cases did not throw. -/
inductive Exception : Type
  | thrown (error : Failure)
  | bodyParser (type : Text) (transient : Bool)
  | http (status : Nat) (transient : Bool)

/-- `Described`. -/
structure Described : Type where
  status : Nat
  code : ErrorCode
  message : Text
  existingId : Option Text
deriving DecidableEq

/-- `BODY_PARSER_FAILURES`. -/
def bodyParserFailures : List (Text × ErrorCode × Text) :=
  [(utf16 "entity.too.large", .payloadTooLarge, utf16 "request body is too large"),
   (utf16 "entity.parse.failed", .invalidPayload, utf16 "invalid request payload"),
   (utf16 "charset.unsupported", .unsupportedMediaType,
     utf16 "unsupported charset; send the body as application/json with utf-8"),
   (utf16 "encoding.unsupported", .unsupportedMediaType, utf16 "unsupported content encoding"),
   (utf16 "request.size.invalid", .invalidPayload, utf16 "invalid content length"),
   (utf16 "request.aborted", .invalidPayload, utf16 "the request was aborted"),
   (utf16 "parameters.too.many", .invalidPayload, utf16 "too many parameters")]

/-- `bodyParserFailure`, of an error with this `type`. -/
def bodyParserFailure (type : Text) : Option Described :=
  (bodyParserFailures.lookup type).map fun failure =>
    ⟨failure.1.status, failure.1, failure.2, none⟩

/-- What is left of `describe` for an error that no earlier case took. -/
def describeUnknown (transient : Bool) : Described :=
  if transient then
    ⟨503, .serviceUnavailable,
      utf16 "the database was temporarily unavailable; retry with the same idempotency key", none⟩
  else ⟨500, .internalError, utf16 "internal error", none⟩

/-- `describe`. -/
def describe [Driver] : Exception → Described
  | .thrown (.application error) => ⟨error.code.status, error.code, error.message, error.existingId⟩
  | .thrown (.domain error) => ⟨400, .invalidPayload, error.message, none⟩
  | .thrown (.repository error) => describeUnknown (Driver.isTransientFailure (.repository error))
  | .thrown .stackOverflow => describeUnknown (Driver.isTransientFailure .stackOverflow)
  | .bodyParser type transient => (bodyParserFailure type).getD (describeUnknown transient)
  | .http status transient =>
    if status < 500 then
      if status = 404 then ⟨status, .resourceNotFound, utf16 "resource not found", none⟩
      else ⟨status, .invalidPayload, utf16 "invalid request payload", none⟩
    else describeUnknown transient

/-! ## Responses -/

/-- What `transactionView` shows of a transaction. -/
structure TransactionView : Type where
  transactionId : Text
  providerId : Text
  externalTransactionId : Text
  walletId : Text
  kind : WagerTransactionKind
  money : MoneyProps
  status : WagerTransactionStatus
  failureCode : Option FailureCode
  balance : Option MoneyProps
  processedAt : Option Text
deriving DecidableEq

/-- The body of a response. -/
inductive ResponseBody : Type
  | wallet (view : WalletView)
  | submitted (result : SubmitWagerResult)
  | transaction (view : TransactionView)
  | ledger (page : LedgerResponse)
  | report (report : ReconciliationReport)
  | error (code : ErrorCode) (message : Text) (existingId : Option Text) (correlationId : Text)
deriving DecidableEq

/-- A response, with the headers `X-Correlation-Id` and `Retry-After`. -/
structure HttpResponse : Type where
  status : Nat
  correlationId : Text
  retryAfter : Option Text
  body : ResponseBody
deriving DecidableEq

/-- `RETRY_AFTER_SECONDS`. -/
def retryAfterSeconds : Text := utf16 "1"

/-- `ErrorFilter.catch`. -/
def caught [Driver] (correlationId : Text) (exception : Exception) : HttpResponse :=
  let described := describe exception
  { status := described.status
    correlationId
    retryAfter := if described.status = 503 then some retryAfterSeconds else none
    body := .error described.code described.message described.existingId correlationId }

/-- A response that no error interrupted. -/
def answered (correlationId : Text) (status : Nat) (body : ResponseBody) : HttpResponse :=
  ⟨status, correlationId, none, body⟩

/-- The response of a handler that answers `status`, or throws. -/
def respond [Driver] {α : Type} (correlationId : Text) (status : α → Nat)
    (body : α → ResponseBody) : Except Failure α → HttpResponse
  | .ok a => answered correlationId (status a) (body a)
  | .error error => caught correlationId (.thrown error)

/-- `httpStatusFor`. -/
def httpStatusFor (result : SubmitWagerResult) : Nat :=
  match result.status with
  | .processed => if result.idempotentReplay then 200 else 201
  | .rejected => 422
  | .pendingReference => 202
  | _ => 500

section Views

variable [Platform]

/-- `transactionView`. -/
def transactionView (transaction : WagerTransaction) : TransactionView where
  transactionId := transaction.id
  providerId := transaction.providerId
  externalTransactionId := transaction.externalTransactionId
  walletId := transaction.walletId
  kind := transaction.kind
  money := transaction.money.toJSON
  status := transaction.status
  failureCode := transaction.failureCode
  balance := transaction.resultBalance.map Money.toJSON
  processedAt := transaction.processedAt.map fun at_ => toISOString at_.date

end Views

/-! ## Requests -/

/-- `AppRole`. -/
inductive AppRole : Type
  | api | consumer | pendingWorker | outboxPublisher
deriving DecidableEq

/-- `ApiRoleGuard.canActivate`. -/
def canActivate (roles : List AppRole) : Except Failure Unit :=
  if AppRole.api ∈ roles then .ok ()
  else .error (.application ⟨.resourceNotFound,
    utf16 "the api role is not enabled on this instance", none⟩)

/-- The headers as they were sent, and the values that `randomUUID` returns for them. -/
structure RequestHeaders : Type where
  rawHeaders : List (Text × Text)
  freshCorrelationId : Text
  requestId : Text

/-- The values that a header was sent with. -/
def RequestHeaders.sent (headers : RequestHeaders) (name : Text) : List Text :=
  (headers.rawHeaders.filter fun header => foldCase header.1 = name).map Prod.snd

/-- `countHeader`. -/
def countHeader (headers : RequestHeaders) (name : Text) : Nat := (headers.sent name).length

/-- The header as the server hands it on: the values joined with a comma. -/
def RequestHeaders.get (headers : RequestHeaders) (name : Text) : Option Text :=
  match headers.sent name with
  | [] => none
  | value :: rest => some (rest.foldl (fun joined next => joined ++ utf16 ", " ++ next) value)

/-- `authorization`, of which the server keeps the first. -/
def RequestHeaders.authorization (headers : RequestHeaders) : Option Text :=
  (headers.sent (utf16 "authorization")).head?

/-- The correlation id of the request's context. -/
def RequestHeaders.correlationId (headers : RequestHeaders) : Text :=
  requestCorrelationId (headers.get (utf16 "x-correlation-id")) headers.freshCorrelationId

section Handlers

variable [Platform]

/-- `providerIdentity.resolve`, of `TrustedProviderIdentityAdapter`. -/
def resolveProvider (_authorization : Option Text) (claimedProviderId : Text) : Text :=
  claimedProviderId

/-- What `postWallet` hands to the use case. -/
def postWalletCommand (roles : List AppRole) (headers : RequestHeaders) (body : Json) :
    Except Failure CreateWalletCommand := do
  canActivate roles
  let parsed ← parseCreateWallet body
  pure
    { playerId := parsed.playerId
      initialBalance := parsed.initialBalance
      correlationId := headers.correlationId }

/-- What `postWager` hands to the use case. -/
def postWagerCommand (roles : List AppRole) (headers : RequestHeaders) (body : Json) :
    Except Failure SubmitWagerCommand := do
  canActivate roles
  let key ← requireIdempotencyKey (headers.get (utf16 "idempotency-key"))
    (countHeader headers (utf16 "idempotency-key"))
  let parsed ← parseSubmitWager body
  let providerId := resolveProvider headers.authorization parsed.providerId
  pure { parsed.command key headers.correlationId (some headers.requestId) with providerId }

/-- The transaction of a row that a query found. -/
def loadWager : Option WagerTransactionRow → Except Failure (Option WagerTransaction)
  | none => .ok none
  | some row => (some <$> toWagerTransaction row).mapError .domain

/-- `wagerTransactions.findById`. -/
def findWagerById (db : Database) (id : Text) : Except Failure (Option WagerTransaction) :=
  if !isUuid id then .error (.repository (.malformedText (utf16 "id")))
  else loadWager (db.wagerById (uuidText id))

/-- `wagerTransactions.findByExternalId`. -/
def findWagerByExternalId (db : Database) (providerId externalTransactionId : Text) :
    Except Failure (Option WagerTransaction) :=
  loadWager (db.wagerByExternal providerId externalTransactionId)

/-- `mustBeOwnedBy`. -/
def mustBeOwnedBy (transaction : Option WagerTransaction) (providerId : Text) :
    Except Failure WagerTransaction :=
  match transaction with
  | some transaction =>
    if transaction.providerId = providerId then .ok transaction
    else .error (.application ⟨.resourceNotFound, utf16 "transaction not found", none⟩)
  | none => .error (.application ⟨.resourceNotFound, utf16 "transaction not found", none⟩)

/-- The work of `getTransaction`. -/
def readTransaction (roles : List AppRole) (headers : RequestHeaders) (transactionId : Text)
    (db : Database) : Except Failure TransactionView := do
  canActivate roles
  let validTransactionId ← requireUuid (some (.string transactionId)) (utf16 "transactionId")
  let declared ← boundedString ((headers.get (utf16 "x-provider-id")).map Json.string)
    (utf16 "X-Provider-Id") 64
  let providerId := resolveProvider headers.authorization declared
  let found ← findWagerById db validTransactionId
  transactionView <$> mustBeOwnedBy found providerId

/-- The work of `getTransactionByProvider`. -/
def readTransactionByProvider (roles : List AppRole) (headers : RequestHeaders)
    (providerId externalTransactionId : Text) (db : Database) : Except Failure TransactionView := do
  canActivate roles
  let validProviderId ← boundedString (some (.string providerId)) (utf16 "providerId") 64
  let validExternalId ← boundedString (some (.string externalTransactionId))
    (utf16 "externalTransactionId") 128
  let providerId := resolveProvider headers.authorization validProviderId
  let found ← findWagerByExternalId db providerId validExternalId
  transactionView <$> mustBeOwnedBy found providerId

/-- The work of `getWallet`. -/
def readWallet (roles : List AppRole) (walletId : Text) (db : Database) :
    Except Failure WalletView := do
  canActivate roles
  let validWalletId ← requireUuid (some (.string walletId)) (utf16 "walletId")
  match ← findWalletById db validWalletId with
  | none => .error (.application ⟨.resourceNotFound, utf16 "wallet not found", none⟩)
  | some wallet => pure (walletView wallet)

/-- The work of `postReconciliation`. -/
def readReconciliation (roles : List AppRole) (walletId : Text) (db : Database) :
    Except Failure ReconciliationReport := do
  canActivate roles
  let validWalletId ← requireUuid (some (.string walletId)) (utf16 "walletId")
  (readOnly (reconcileWallet validWalletId) db).1

variable [Driver]

/-- The response of `postWallet` to what the use case returned or threw. -/
def walletResponse (headers : RequestHeaders) : Except Failure Answer → HttpResponse
  | .ok (.wallet view) => answered headers.correlationId 201 (.wallet view)
  | .ok _ => caught headers.correlationId (.http 500 false)
  | .error error => caught headers.correlationId (.thrown error)

/-- The response of `postWager` to what the use case returned or threw. -/
def wagerResponse (headers : RequestHeaders) : Except Failure Answer → HttpResponse
  | .ok (.submitted result) =>
    answered headers.correlationId (httpStatusFor result) (.submitted result)
  | .ok _ => caught headers.correlationId (.http 500 false)
  | .error error => caught headers.correlationId (.thrown error)

/-- `getTransaction`. -/
def getTransaction (roles : List AppRole) (headers : RequestHeaders) (transactionId : Text)
    (db : Database) : HttpResponse :=
  respond headers.correlationId (fun _ => 200) .transaction
    (readTransaction roles headers transactionId db)

/-- `getTransactionByProvider`. -/
def getTransactionByProvider (roles : List AppRole) (headers : RequestHeaders)
    (providerId externalTransactionId : Text) (db : Database) : HttpResponse :=
  respond headers.correlationId (fun _ => 200) .transaction
    (readTransactionByProvider roles headers providerId externalTransactionId db)

/-- `getWallet`. -/
def getWallet (roles : List AppRole) (headers : RequestHeaders) (walletId : Text)
    (db : Database) : HttpResponse :=
  respond headers.correlationId (fun _ => 200) .wallet (readWallet roles walletId db)

/-- `postReconciliation`. -/
def postReconciliation (roles : List AppRole) (headers : RequestHeaders) (walletId : Text)
    (db : Database) : HttpResponse :=
  respond headers.correlationId (fun _ => 200) .report (readReconciliation roles walletId db)

end Handlers

end Wagering
