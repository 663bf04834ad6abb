import Mathlib.Algebra.Order.Field.Rat
import Wagering.Application.ConsumeWagerMessage
import Wagering.Interface.Envelope
import Wagering.Lib.Trace

/-!
# The queue worker

`interface/sqs/wager-consumer.worker.ts`: one poll of the input queue, as a
program over the queue service and the use case.  Any call may fail and any call
may be the last one; what the worker logs and measures is left out.
-/

namespace Wagering

open Text Interleave

/-- A received `Message`, with the attributes that the worker reads. -/
structure QueueMessage : Type where
  messageId : Option Text
  receiptHandle : Option Text
  body : Option Text
  messageGroupId : Option Text
  approximateReceiveCount : Option Text
deriving DecidableEq

/-- `WagerConsumerOptions`, as far as a poll reads them. -/
structure WagerConsumerOptions : Type where
  consumerName : Text
  inputQueue : Text
  dlqQueue : Text
  batchSize : Nat
  waitTimeSeconds : Nat
  visibilityTimeoutSeconds : Nat

/-- `BASE_RETRY_DELAY_SECONDS`. -/
def baseRetryDelaySeconds : ℚ := 5

/-- `MAX_RETRY_DELAY_SECONDS`. -/
def maxRetryDelaySeconds : ℚ := 60

/-- `retryDelaySeconds`. -/
def retryDelaySeconds (receiveCount : Int) : ℚ :=
  min maxRetryDelaySeconds (baseRetryDelaySeconds * 2 ^ (receiveCount - 1))

/-- `Number.parseInt(text, 10)`; `none` is NaN. -/
def parseInt (text : Text) : Option Int :=
  let trimmed := text.dropWhile isSpace
  let (negative, unsigned) := match trimmed with
    | 45 :: rest => (true, rest)
    | 43 :: rest => (false, rest)
    | rest => (false, rest)
  let digits := unsigned.takeWhile isDigit
  if digits.isEmpty then none
  else some (if negative then -digitsValue digits else digitsValue digits)

/-- `PERMANENT_INPUT_CODES`. -/
def permanentInputCodes : List ErrorCode := [.invalidPayload, .referenceRequired, .reservedProviderId]

variable [Platform]

/-- What the worker calls.  A message stands for its receipt handle; `consume`
also names the message and its place in the batch, which the use case is not told. -/
inductive WorkerOp : Type
  | resolveUrl (queueName : Text)
  | receive (queueUrl : Text) (maxNumberOfMessages waitTimeSeconds : Nat)
  | isStopping
  | consume (index : Nat) (message : QueueMessage) (delivery : InboxDelivery)
    (command : SubmitWagerCommand)
  | changeVisibility (queueUrl : Text) (message : QueueMessage) (seconds : ℚ)
  | sendMessage (queueUrl messageBody messageGroupId messageDeduplicationId : Text)
  | deleteMessage (queueUrl : Text) (message : QueueMessage)

/-- What a call returns.  A use case that throws is caught where it is called. -/
def WorkerOp.Answer : WorkerOp → Type
  | .resolveUrl _ => Text
  | .receive _ _ _ => List QueueMessage
  | .isStopping => Bool
  | .consume _ _ _ _ => Except Failure ConsumeOutcome
  | .changeVisibility _ _ _ => Unit
  | .sendMessage _ _ _ _ => Unit
  | .deleteMessage _ _ => Unit

/-- The queue service and the use case, as the worker sees them. -/
def workerPorts : Signature := ⟨WorkerOp, WorkerOp.Answer⟩

/-- Worker code.  A call to the queue service fails with a message. -/
abbrev WorkerCode (α : Type) : Type := Program workerPorts Text α

/-- One call. -/
abbrev ask (op : WorkerOp) : WorkerCode op.Answer := @Program.perform workerPorts Text op

/-- `ack`. -/
def ack (queueUrl : Text) (message : QueueMessage) : WorkerCode Unit :=
  ask (.deleteMessage queueUrl message)

/-- `deadLetter`. -/
def deadLetter (options : WagerConsumerOptions) (rawBody : Text) (message : QueueMessage) :
    WorkerCode Unit := do
  let brokerMessageId := message.messageId.getD []
  let queueUrl ← ask (.resolveUrl options.dlqQueue)
  ask (.sendMessage queueUrl rawBody (message.messageGroupId.getD brokerMessageId)
    (sha256Hex (options.consumerName ++ [0] ++ brokerMessageId ++ [0] ++ sha256Hex rawBody)))

/-- `returnForRetry`. -/
def returnForRetry (queueUrl : Text) (message : QueueMessage) : WorkerCode Unit :=
  let receiveCount := parseInt (message.approximateReceiveCount.getD (utf16 "1"))
  ask (.changeVisibility queueUrl message (retryDelaySeconds (receiveCount.getD 1)))

/-- What the worker hands to the use case. -/
def WagerMessage.delivery (parsed : WagerMessage) (options : WagerConsumerOptions)
    (message : QueueMessage) : InboxDelivery where
  consumerName := options.consumerName
  providerId := parsed.command.providerId
  messageId := parsed.messageId
  payloadHash := parsed.inboxPayloadHash
  brokerMessageId := message.messageId

variable [Driver]

/-- The outcome of a body on which `parseWagerMessage` throws. -/
def refusalOutcome (error : Failure) : ConsumeOutcome :=
  match error with
  | .application e =>
    if e.code ∈ permanentInputCodes then .permanent (e.code.text ++ utf16 ": " ++ e.message)
    else .transient error.message
  | _ => .transient error.message

/-- `outcomeOf`. -/
def outcomeOf (options : WagerConsumerOptions) (rawBody : Text) (index : Nat)
    (message : QueueMessage) : WorkerCode ConsumeOutcome :=
  match parseWagerMessage rawBody with
  | .error error => pure (refusalOutcome error)
  | .ok parsed => do
    match ← ask (.consume index message (parsed.delivery options message) parsed.command) with
    | .ok outcome => pure outcome
    | .error error => pure (.transient error.message)

/-- `decide`, which `handle` runs while it holds the message. -/
def decideMessage (options : WagerConsumerOptions) (queueUrl : Text) (index : Nat)
    (message : QueueMessage) : WorkerCode Unit := do
  let rawBody := message.body.getD []
  match ← outcomeOf options rawBody index message with
  | .processed _ => ack queueUrl message
  | .duplicate => ack queueUrl message
  | .permanent _ => do
    deadLetter options rawBody message
    ack queueUrl message
  | .transient _ => returnForRetry queueUrl message

/-- The loop of `pollOnce`, from the message at `index` on. -/
def handleBatch (options : WagerConsumerOptions) (queueUrl : Text) :
    Nat → List QueueMessage → WorkerCode Unit
  | _, [] => pure ()
  | index, message :: rest => do
    let stopping : Bool ← ask .isStopping
    if stopping then
      ask (.changeVisibility queueUrl message 0)
      handleBatch options queueUrl (index + 1) rest
    else if 0 < index then
      ask (.changeVisibility queueUrl message options.visibilityTimeoutSeconds)
      decideMessage options queueUrl index message
      handleBatch options queueUrl (index + 1) rest
    else
      decideMessage options queueUrl index message
      handleBatch options queueUrl (index + 1) rest

/-- `pollOnce`. -/
def pollOnce (options : WagerConsumerOptions) : WorkerCode Nat := do
  let queueUrl ← ask (.resolveUrl options.inputQueue)
  let messages : List QueueMessage ← ask (.receive queueUrl options.batchSize options.waitTimeSeconds)
  handleBatch options queueUrl 0 messages
  pure messages.length

end Wagering
