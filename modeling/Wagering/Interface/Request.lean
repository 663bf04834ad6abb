import Wagering.Application.Units
import Wagering.Interface.Worker

/-!
# Requests

What reaches the use cases: `interface/http/request-context.ts`,
`interface/http/wagering.controller.ts` and the consumer of the input queue.
-/

namespace Wagering

open Text

/-- A unit of `[\w.:-]`. -/
def isCorrelationUnit (u : UInt16) : Bool :=
  isDigit u || isUpper u || (97 ≤ u.toNat && u.toNat ≤ 122) || u = 95 || u = 46 || u = 58 || u = 45

/-- `VALID_CORRELATION`. -/
def isCorrelation (value : Text) : Bool :=
  1 ≤ value.length && value.length ≤ 128 && value.all isCorrelationUnit

/-- `correlationIdOf` of a request's header; `fresh` is what `randomUUID` returns. -/
def requestCorrelationId (header : Option Text) (fresh : Text) : Text :=
  match header with
  | some value => if isCorrelation value then value else fresh
  | none => fresh

variable [Platform]

/-- What the controller and the worker hand to the use cases: a body that its
parser accepted, with the metadata that the transport adds. -/
inductive Entry.Accepted : Entry → Prop
  | createWallet {json : Json} {body : CreateWalletBody} (header : Option Text) {fresh : Text}
    (parsed : parseCreateWallet json = .ok body) (uuid : isUuid fresh = true) :
    Accepted (.createWallet
      { playerId := body.playerId, initialBalance := body.initialBalance,
        correlationId := requestCorrelationId header fresh })
  | submit {json : Json} {body : SubmitWagerBody} {keyHeader : Option Text} {occurrences : Nat}
    {idempotencyKey requestId fresh : Text} (header : Option Text)
    (key : requireIdempotencyKey keyHeader occurrences = .ok idempotencyKey)
    (parsed : parseSubmitWager json = .ok body) (uuid : isUuid fresh = true) :
    Accepted (.submit (body.command idempotencyKey (requestCorrelationId header fresh)
      (some requestId)))
  | consume {rawBody : Text} {parsed : WagerMessage} {options : WagerConsumerOptions}
    {message : QueueMessage} (accepted : parseWagerMessage rawBody = .ok parsed)
    (consumer : options.consumerName = consumerName)
    (broker : ∀ id ∈ message.messageId, Text.Fits 128 id) :
    Accepted (.consume (parsed.delivery options message) parsed.command)
  | resolvePending : Accepted .resolvePending

end Wagering
