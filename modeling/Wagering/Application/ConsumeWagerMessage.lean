import Wagering.Application.SubmitWager

/-!
# Consuming a message

`application/use-cases/consume-wager-message.ts`: the inbox row, the business
effect and the mark of completion in one transaction, and what the delivery is
worth when it fails.
-/

namespace Wagering

open Interleave

/-- `InboxDelivery`. -/
structure InboxDelivery : Type where
  consumerName : Text
  providerId : Text
  messageId : Text
  payloadHash : Text
  brokerMessageId : Option Text
deriving DecidableEq

/-- `keyOf`. -/
def InboxDelivery.key (delivery : InboxDelivery) : InboxKey :=
  ⟨delivery.consumerName, delivery.providerId, delivery.messageId⟩

/-- The inbox row that a delivery reserves. -/
def InboxDelivery.row (delivery : InboxDelivery) (receivedAt : Instant) : InboxMessageRow :=
  { delivery with receivedAt, processedAt := none }

/-- `ConsumeOutcome`. -/
inductive ConsumeOutcome : Type
  | processed (result : SubmitWagerResult)
  | duplicate
  | permanent (reason : Text)
  | transient (reason : Text)
deriving DecidableEq

/-- `PERMANENT_CODES`. -/
def ErrorCode.isPermanent : ErrorCode → Bool
  | .invalidPayload | .missingIdempotencyKey | .idempotencyKeyConflict
  | .externalTransactionIdReused | .referenceRequired | .amountNotPositive
  | .reservedProviderId => true
  | _ => false

variable [Platform]

/-- `classifyRedelivery`. -/
def classifyRedelivery (delivery : InboxDelivery) : Code ConsumeOutcome := do
  match ← call (.findInbox delivery.key) with
  | none =>
    pure (.transient (utf16 "the inbox row disappeared after a lost reservation"))
  | some existing =>
    if existing.payloadHash ≠ delivery.payloadHash then
      pure (.permanent (utf16 "the messageId was already delivered with another payload"))
    else if existing.processedAt.isNone then
      pure (.transient (utf16 "the inbox row is reserved but not processed"))
    else pure .duplicate

/-- The transaction of `consume`. -/
def consumeWithin (delivery : InboxDelivery) (command : SubmitWagerCommand) :
    Code ConsumeOutcome := do
  let receivedAt ← call .now
  match ← call (.reserveInbox (delivery.row receivedAt)) with
  | none => classifyRedelivery delivery
  | some _ => do
    let result ← executeWithin command
    let processedAt ← call .now
    call (.markInboxProcessed delivery.key processedAt)
    pure (.processed result)

/-- `classifyFailure`. -/
def classifyFailure [Driver] (error : Failure) : ConsumeOutcome :=
  if Driver.isTransientFailure error then .transient error.message
  else match error with
    | .application e =>
      let reason := e.code.text ++ utf16 ": " ++ e.message
      if e.code.isPermanent then .permanent reason else .transient reason
    | .domain e => .permanent (e.name ++ utf16 ": " ++ e.message)
    | .repository _ | .stackOverflow => .transient error.message

end Wagering
