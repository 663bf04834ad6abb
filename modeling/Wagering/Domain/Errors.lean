import Wagering.Text

/-!
# Errors

The domain's errors with the texts they are built with, the application's
coded errors, and what a repository call may fail with.
-/

namespace Wagering

/-- An instant in milliseconds, the time value of a `Date`.  A value beyond
±8.64e15 is an Invalid Date. -/
abbrev Instant := Int

/-- `Number.isFinite(at.getTime())`. -/
def Instant.isFinite (at_ : Instant) : Bool := at_.natAbs ≤ 8640000000000000

/-- `domain/domain-error.ts`. -/
inductive DomainError : Type
  | invalidMoney (message : Text)
  | currencyMismatch (expected received : Text)
  | insufficientFunds (balance requested : Text)
  | invalidTransactionState (before after : Text)
  | invalidTimestamp (at_ : Instant)
  | invalidLedgerEntry (message : Text)
  | invalidWagerTransaction (message : Text)
deriving DecidableEq

/-- The class name of an error, `new.target.name`. -/
def DomainError.name : DomainError → Text
  | .invalidMoney _ => utf16 "InvalidMoneyError"
  | .currencyMismatch _ _ => utf16 "CurrencyMismatchError"
  | .insufficientFunds _ _ => utf16 "InsufficientFundsError"
  | .invalidTransactionState _ _ => utf16 "InvalidTransactionStateError"
  | .invalidTimestamp _ => utf16 "InvalidTimestampError"
  | .invalidLedgerEntry _ => utf16 "InvalidLedgerEntryError"
  | .invalidWagerTransaction _ => utf16 "InvalidWagerTransactionError"

/-- `error.message`. -/
def DomainError.message : DomainError → Text
  | .invalidMoney message | .invalidLedgerEntry message | .invalidWagerTransaction message =>
    message
  | .currencyMismatch expected received =>
    utf16 "currency mismatch: expected " ++ expected ++ utf16 ", received " ++ received
  | .insufficientFunds balance requested =>
    utf16 "insufficient funds: available " ++ balance ++ utf16 ", requested " ++ requested
  | .invalidTransactionState before after =>
    utf16 "invalid transition: " ++ before ++ utf16 " to " ++ after
  | .invalidTimestamp at_ =>
    utf16 "timestamp is not a usable instant: " ++
      -- the time value of an Invalid Date is NaN
      (if at_.isFinite then (if at_ < 0 then utf16 "-" else []) ++ Text.decimal at_.natAbs
       else utf16 "NaN")

/-- `ErrorCode` of `application/errors.ts`. -/
inductive ErrorCode : Type
  | invalidPayload | payloadTooLarge | unsupportedMediaType | missingIdempotencyKey
  | idempotencyKeyConflict | externalTransactionIdReused | referenceRequired
  | amountNotPositive | reservedProviderId | walletAlreadyExists | resourceNotFound
  | serviceUnavailable | internalError
deriving DecidableEq

def ErrorCode.text : ErrorCode → Text
  | .invalidPayload => utf16 "INVALID_PAYLOAD"
  | .payloadTooLarge => utf16 "PAYLOAD_TOO_LARGE"
  | .unsupportedMediaType => utf16 "UNSUPPORTED_MEDIA_TYPE"
  | .missingIdempotencyKey => utf16 "MISSING_IDEMPOTENCY_KEY"
  | .idempotencyKeyConflict => utf16 "IDEMPOTENCY_KEY_CONFLICT"
  | .externalTransactionIdReused => utf16 "EXTERNAL_TRANSACTION_ID_REUSED"
  | .referenceRequired => utf16 "REFERENCE_REQUIRED"
  | .amountNotPositive => utf16 "AMOUNT_NOT_POSITIVE"
  | .reservedProviderId => utf16 "RESERVED_PROVIDER_ID"
  | .walletAlreadyExists => utf16 "WALLET_ALREADY_EXISTS"
  | .resourceNotFound => utf16 "RESOURCE_NOT_FOUND"
  | .serviceUnavailable => utf16 "SERVICE_UNAVAILABLE"
  | .internalError => utf16 "INTERNAL_ERROR"

/-- `ApplicationError`.  The only detail the use cases attach is the id of the
row that already exists, under `existingTransactionId` or `existingWalletId`. -/
structure ApplicationError : Type where
  code : ErrorCode
  message : Text
  existingId : Option Text
deriving DecidableEq

/-- What the schema may object to: a constraint or trigger by its name in the
migrations, or the range or the type of a column. -/
inductive Violation : Type
  | constraint (name : Text)
  | tooLong (column : Text)
  | outOfRange (column : Text)
deriving DecidableEq

/-- What a repository call may fail with.  `connection` is any failure of the
driver or the server that is not about the rows (a lost connection, a lock
timeout, a deadlock), by its code; `malformedText` is a value that
the server's type input refuses before it looks at any constraint. -/
inductive RepositoryError : Type
  | integrity (violation : Violation)
  | staleWrite (table id : Text) (affected : Nat)
  | notPending (status id : Text)
  | malformedText (column : Text)
  | connection (code : Text)
deriving DecidableEq

/-- Everything that a parser or a use case may throw.  `stackOverflow` is the
`RangeError` of the runtime: a recursion left no room on the call stack. -/
inductive Failure : Type
  | domain (error : DomainError)
  | application (error : ApplicationError)
  | repository (error : RepositoryError)
  | stackOverflow
deriving DecidableEq

/-- What the use cases are given about errors: `isTransientFailure`, and the
message of an error that the driver made. -/
class Driver : Type where
  isTransientFailure : Failure → Bool
  messageOf : RepositoryError → Text

/-- `messageOf`. -/
def Failure.message [Driver] : Failure → Text
  | .domain error => error.message
  | .application error => error.message
  | .repository error => Driver.messageOf error
  | .stackOverflow => utf16 "Maximum call stack size exceeded."

/-- Code that returns went through each of its steps. -/
theorem bind_ok {ε α β : Type} {r : Except ε α} {f : α → Except ε β} {b : β}
    (h : (r >>= f) = .ok b) : ∃ a, r = .ok a ∧ f a = .ok b := by
  cases r with
  | error e => cases h
  | ok a => exact ⟨a, rfl, h⟩

end Wagering
