import Wagering.Lib.Keyed
import Wagering.Persistence.Rows

/-!
# Outbox publishers

`infrastructure/persistence/outbox-claim.repository.ts` and
`application/use-cases/publish-outbox-message.ts`.  Every repository call is a
transaction of its own, so a publisher is a state machine: it claims a row,
sends it outside any transaction, and then marks, reschedules or abandons it.

`calls` and `claims` record what the publishers did; no code reads them.
-/

namespace Wagering

/-- `OutboxClaim`. -/
structure OutboxClaim : Type where
  id : Text
  eventId : Text
  eventType : Text
  aggregateId : Text
  payload : IntegrationEvent
  attempts : Int
deriving DecidableEq

/-- Where a publisher stands in `run`. -/
inductive Stage : Type
  | idle
  | claimed (claim : OutboxClaim)
  | sent (claim : OutboxClaim)
  | refused (claim : OutboxClaim) (reason : Text)
deriving DecidableEq

/-- The publishers, by `publisherId`, with every publish call they made (the
event and whether it succeeded) and every row they claimed, oldest first. -/
structure Publishing : Type where
  stage : Text → Stage
  calls : List (Text × Bool)
  claims : List Text

def Publishing.start : Publishing := ⟨fun _ => .idle, [], []⟩

def Publishing.setStage (p : Publishing) (publisherId : Text) (stage : Stage) : Publishing :=
  { p with stage := fun id => if id = publisherId then stage else p.stage id }

/-! ## The claim -/

/-- `published_at IS NULL AND abandoned_at IS NULL`. -/
def OutboxMessageRow.unsettled (m : OutboxMessageRow) : Bool :=
  m.publishedAt.isNone && m.abandonedAt.isNone

/-- `(occurred_at, id) <= (occurred_at, id)`. -/
def OutboxMessageRow.le (m n : OutboxMessageRow) : Bool :=
  m.occurredAt < n.occurredAt || (m.occurredAt = n.occurredAt && Text.le m.id n.id)

/-- `(older.occurred_at, older.id) < (m.occurred_at, m.id)`. -/
def OutboxMessageRow.lt (older m : OutboxMessageRow) : Bool := !m.le older

/-- The NOT EXISTS of `CLAIMABLE_SQL`: no older message of the group is pending. -/
def firstOfGroup (rows : List OutboxMessageRow) (m : OutboxMessageRow) : Bool :=
  !rows.any fun older => older.aggregateId = m.aggregateId && older.unsettled && older.lt m

/-- The WHERE of `CLAIMABLE_SQL`. -/
def claimable (rows : List OutboxMessageRow) (now : Instant) (m : OutboxMessageRow) : Bool :=
  m.unsettled && m.nextAttemptAt ≤ now && (m.claimedUntil.all fun until_ => until_ ≤ now) &&
    firstOfGroup rows m

/-- The row that `CLAIMABLE_SQL` returns when the rows in `locked` are held by
claims that have not committed yet. -/
def selectClaimable (rows : List OutboxMessageRow) (locked : List Text) (now : Instant) :
    Option OutboxMessageRow :=
  Keyed.least OutboxMessageRow.le (rows.filter fun m => claimable rows now m && m.id ∉ locked)

/-- `nativeUpdate(outboxMessageSchema, { id, claimedBy: publisherId }, …)`: the
rows after it, and whether it affected one. -/
def updateClaimed (rows : List OutboxMessageRow) (id publisherId : Text)
    (set : OutboxMessageRow → OutboxMessageRow) : List OutboxMessageRow :=
  rows.map fun m => if m.id = id && m.claimedBy = some publisherId then set m else m

/-- `markPublished`. -/
def markPublished (publishedAt : Instant) (m : OutboxMessageRow) : OutboxMessageRow :=
  { m with publishedAt := some publishedAt, claimedBy := none, claimedUntil := none }

/-- `abandon`. -/
def abandon (abandonedAt : Instant) (lastError : Text) (m : OutboxMessageRow) :
    OutboxMessageRow :=
  { m with
    abandonedAt := some abandonedAt, lastError := some lastError, claimedBy := none,
    claimedUntil := none }

/-- `reschedule`. -/
def reschedule (nextAttemptAt : Instant) (lastError : Text) (m : OutboxMessageRow) :
    OutboxMessageRow :=
  { m with
    attempts := m.attempts + 1, nextAttemptAt, lastError := some lastError, claimedBy := none,
    claimedUntil := none }

/-! ## One run of the use case -/

/-- `Math.round(delay * (0.8 + jitter * 0.4))` for a jitter of `jitter / 2 ^ 53`. -/
def jittered (delay : Int) (jitter : Nat) : Int :=
  (2 * delay * (8 * 2 ^ 53 + 4 * jitter) + 10 * 2 ^ 53) / (20 * 2 ^ 53)

/-- `MAX_ATTEMPTS` of the publisher. -/
def maxPublishAttempts : Int := 600

/-- `outboxBackoffMs`. -/
def outboxBackoffMs (attempts : Int) (jitter : Nat) : Int :=
  jittered (min 60000 (1000 * 2 ^ (attempts - 1).toNat)) jitter

/-- One atomic step of one publisher, or what the environment does to it: its
send succeeds or fails, its completion write fails, its process dies. -/
inductive PublisherAction : Type
  | claim (publisherId : Text) (locked : List Text) (claimedAt leaseMs : Instant)
  | publish (publisherId : Text) (failure : Option Text)
  | complete (publisherId : Text) (now : Instant) (jitter : Nat)
  | drop (publisherId : Text)
deriving DecidableEq

/-- The completion write of a publisher whose send is over. -/
def completion (stage : Stage) (now : Instant) (jitter : Nat) :
    Option (OutboxClaim × (OutboxMessageRow → OutboxMessageRow)) :=
  match stage with
  | .sent claim => some (claim, markPublished now)
  | .refused claim reason =>
    if claim.attempts + 1 ≥ maxPublishAttempts then some (claim, abandon now reason)
    else some (claim, reschedule (now + outboxBackoffMs (claim.attempts + 1) jitter) reason)
  | _ => none

/-- `PublishOutboxMessageUseCase.run`, step by step. -/
def Publishing.step (rows : List OutboxMessageRow) (p : Publishing) :
    PublisherAction → Option (List OutboxMessageRow × Publishing)
  | .claim publisherId locked claimedAt leaseMs =>
    match p.stage publisherId, selectClaimable rows locked claimedAt with
    | .idle, some m =>
      let claim : OutboxClaim :=
        { id := m.id, eventId := m.eventId, eventType := m.eventType,
          aggregateId := m.aggregateId, payload := m.payload, attempts := m.attempts }
      some
        (Keyed.adjust OutboxMessageRow.id m.id (fun row =>
          { row with claimedBy := some publisherId, claimedUntil := some (claimedAt + leaseMs) })
          rows,
         { p.setStage publisherId (.claimed claim) with claims := p.claims ++ [m.id] })
    | .idle, none => some (rows, p)
    | _, _ => none
  | .publish publisherId failure =>
    match p.stage publisherId with
    | .claimed claim =>
      some (rows,
        { p.setStage publisherId (match failure with
            | none => .sent claim
            | some reason => .refused claim reason) with
          calls := p.calls ++ [(claim.eventId, failure.isNone)] })
    | _ => none
  | .complete publisherId now jitter =>
    match completion (p.stage publisherId) now jitter with
    | some (claim, set) =>
      some (updateClaimed rows claim.id publisherId set, p.setStage publisherId .idle)
    | none => none
  | .drop publisherId => some (rows, p.setStage publisherId .idle)

end Wagering
