import Wagering.Guarantees.Messages

/-!
# Message groups

SQS holds back a group only while a message of it is invisible and not yet
received.  Messages of one group that came in one batch are handled one after
the other whatever becomes of the earlier ones, so one that ends as transient
is overtaken by the next.
-/

namespace Wagering

open Text Interleave

section Statements

variable [Platform]

/-- The body of a message is one that `parseWagerMessage` accepts. -/
def QueueMessage.Accepted (message : QueueMessage) : Prop :=
  ∃ parsed, parseWagerMessage (message.body.getD []) = .ok parsed

variable [Driver]

/-- A call that disposes of a message, or looks up the queue for it. -/
def WorkerOp.isDisposal : WorkerOp → Bool
  | .resolveUrl _ | .changeVisibility _ _ _ | .sendMessage _ _ _ _ | .deleteMessage _ _ => true
  | _ => false

omit [Platform] [Driver] in
theorem ask_calls {P : WorkerOp → Prop} {op : WorkerOp} (h : P op) : (ask op).Calls P :=
  ⟨h, fun _ => trivial⟩

/-- The calls that ask for the outcome of a message. -/
theorem outcomeOf_calls {P : WorkerOp → Prop} {options : WagerConsumerOptions} {rawBody : Text}
    {index : Nat} {message : QueueMessage}
    (hconsume : ∀ parsed, parseWagerMessage rawBody = .ok parsed →
      P (.consume index message (parsed.delivery options message) parsed.command)) :
    (outcomeOf options rawBody index message).Calls P := by
  unfold outcomeOf
  split
  · trivial
  · rename_i parsed hparsed
    refine Program.Calls.bind (ask_calls (hconsume parsed hparsed)) fun answer => ?_
    split <;> trivial

/-- The calls that handle a message. -/
theorem decideMessage_calls {P : WorkerOp → Prop} {options : WagerConsumerOptions}
    {queueUrl : Text} {index : Nat} {message : QueueMessage}
    (hconsume : ∀ parsed, parseWagerMessage (message.body.getD []) = .ok parsed →
      P (.consume index message (parsed.delivery options message) parsed.command))
    (hqueue : ∀ op : WorkerOp, op.isDisposal = true → P op) :
    (decideMessage options queueUrl index message).Calls P := by
  have hask : ∀ op, op.isDisposal = true → (ask op).Calls P :=
    fun op hop => ask_calls (hqueue op hop)
  unfold decideMessage
  refine Program.Calls.bind (outcomeOf_calls hconsume) fun outcome => ?_
  cases outcome with
  | processed result => exact hask _ rfl
  | duplicate => exact hask _ rfl
  | permanent reason =>
    exact Program.Calls.bind (Program.Calls.bind (hask _ rfl) fun _ => hask _ rfl)
      fun _ => hask _ rfl
  | transient reason => exact hask _ rfl

/-- The calls of the loop, from those that handle each message. -/
theorem handleBatch_calls {P : WorkerOp → Prop} {options : WagerConsumerOptions}
    {queueUrl : Text} (messages : List QueueMessage) (index : Nat) (hstopping : P .isStopping)
    (hqueue : ∀ op : WorkerOp, op.isDisposal = true → P op)
    (hdecide : ∀ i message, messages[i]? = some message →
      (decideMessage options queueUrl (index + i) message).Calls P) :
    (handleBatch options queueUrl index messages).Calls P := by
  induction messages generalizing index with
  | nil => trivial
  | cons message rest ih =>
    have hrest := ih (index + 1) fun i message hi => by
      have := hdecide (i + 1) message hi
      rwa [← Nat.add_assoc, Nat.add_right_comm] at this
    have hfirst := Program.Calls.bind (hdecide 0 message rfl) fun _ => hrest
    unfold handleBatch
    refine Program.Calls.bind (ask_calls hstopping) fun stopping => ?_
    cases stopping with
    | true => exact Program.Calls.bind (ask_calls (hqueue _ rfl)) fun _ => hrest
    | false =>
      by_cases hindex : 0 < index
      · simp only [hindex, if_true, if_false, Bool.false_eq_true]
        exact Program.Calls.bind (ask_calls (hqueue _ rfl)) fun _ => hfirst
      · simp only [hindex, if_false, Bool.false_eq_true]
        exact hfirst

/-- The answers of a poll in which nothing fails and nobody shuts down. -/
def smooth (batch : List QueueMessage) (outcome : Nat → Except Failure ConsumeOutcome) :
    ∀ op : workerPorts.Op, workerPorts.Answer op
  | .resolveUrl _ => ([] : Text)
  | .receive _ _ _ => batch
  | .isStopping => false
  | .consume index _ _ _ => outcome index
  | .changeVisibility _ _ _ => ()
  | .sendMessage _ _ _ _ => ()
  | .deleteMessage _ _ => ()

variable {options : WagerConsumerOptions} {queueUrl : Text} {batch : List QueueMessage}
  {outcome : Nat → Except Failure ConsumeOutcome}

theorem outcomeOf_result (rawBody : Text) (index : Nat) (message : QueueMessage) :
    ∃ o, Program.result (smooth batch outcome) (outcomeOf options rawBody index message) =
      .ok o := by
  unfold outcomeOf
  split
  · exact ⟨_, rfl⟩
  · rename_i parsed _
    have hask : Program.result (smooth batch outcome)
        (ask (.consume index message (parsed.delivery options message) parsed.command)) =
        .ok (outcome index) := rfl
    rw [Program.result_bind _ _ hask]
    cases outcome index with
    | error e => exact ⟨_, rfl⟩
    | ok o => exact ⟨_, rfl⟩

end Statements

/-! ## A batch that is overtaken -/

/-- Two bets on one wallet. -/
def firstBet : Json := sampleEnvelope (utf16 "msg-1") (sampleId 1)

def secondBet : Json := sampleEnvelope (utf16 "msg-2") (sampleId 1)

local instance betPlatform : Platform := messagePlatform [firstBet, secondBet]

local instance betDriver : Driver := sampleDriver

/-- A received message of the wallet's group. -/
def sampleQueueMessage (id : Text) (body : Json) : QueueMessage where
  messageId := some id
  receiptHandle := some id
  body := some (canonicalize body)
  messageGroupId := some (sampleId 1)
  approximateReceiveCount := some (utf16 "1")

def sampleOptions : WagerConsumerOptions where
  consumerName := consumerName
  inputQueue := utf16 "wager-transactions.fifo"
  dlqQueue := utf16 "wager-transactions-dlq.fifo"
  batchSize := 10
  waitTimeSeconds := 20
  visibilityTimeoutSeconds := 60

theorem firstBet_accepted : (sampleQueueMessage (utf16 "1") firstBet).Accepted := by
  have h : (parseWagerMessage (canonicalize firstBet)).isOk = true := by decide +kernel
  cases hparse : parseWagerMessage (canonicalize firstBet) with
  | error e =>
    rw [hparse] at h
    cases h
  | ok parsed => exact ⟨parsed, hparse⟩

end Wagering
