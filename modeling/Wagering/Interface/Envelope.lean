import Wagering.Application.SubmitWager
import Wagering.Interface.Validation
import Wagering.Lib.Calendar

/-!
# The message envelope

`interface/sqs/envelope.ts`: the body of a queue message, as the command it
carries and the hash that tells one delivery's content from another's.
-/

namespace Wagering

open Text

/-! ## `Date.prototype.toISOString` -/

/-- The last `k` decimal digits of a number. -/
def padded : Nat → Nat → Text
  | 0, _ => []
  | k + 1, n => padded k (n / 10) ++ [digit (n % 10)]

/-- The year, of four digits, or of six with a sign. -/
def isoYear (year : Int) : Text :=
  if 0 ≤ year && year ≤ 9999 then padded 4 year.toNat
  else (if year < 0 then 45 else 43) :: padded 6 year.natAbs

/-- The time of the day, from its milliseconds. -/
def isoTime (ms : Nat) : Text :=
  padded 2 (ms / 3600000) ++ utf16 ":" ++ padded 2 (ms / 60000 % 60) ++ utf16 ":" ++
    padded 2 (ms / 1000 % 60) ++ utf16 "." ++ padded 3 (ms % 1000)

/-- `toISOString`. -/
def toISOString (at_ : TimeValue) : Text :=
  let date := Calendar.civil (at_.val / 86400000)
  isoYear date.year ++ (utf16 "-" ++ padded 2 date.month.toNat ++ utf16 "-" ++
    padded 2 date.day.toNat ++ utf16 "T" ++ isoTime (at_.val % 86400000).toNat ++ utf16 "Z")

example : toISOString ⟨1785337200000, by decide⟩ = utf16 "2026-07-29T15:00:00.000Z" := by
  decide +kernel

/-! ## The message -/

/-- `CONSUMER_NAME`. -/
def consumerName : Text := utf16 "wager-transactions-consumer"

/-- `EXPECTED_TYPE`. -/
def expectedType : Text := utf16 "WagerTransactionRequested"

variable [Platform]

/-- `WagerMessage`. -/
structure WagerMessage : Type where
  messageId : Text
  occurredAt : TimeValue
  inboxPayloadHash : Text
  command : SubmitWagerCommand

/-- `correlationIdOf`. -/
def correlationIdOf (consumerName messageId : Text) : Text :=
  sha256Hex (consumerName ++ [0] ++ messageId)

/-- `timestamp`. -/
def timestamp (source : Record) (field : Text) : Except Failure TimeValue := do
  let value ← requiredString source field maxSafeInteger
  match Platform.parseDate value with
  | none => invalid (field ++ utf16 " must be an ISO-8601 timestamp")
  | some at_ => pure at_

/-- What the transport hash covers: the envelope without its key. -/
def hashedEnvelope (type : Text) (occurredAt : TimeValue) (data : Record) : Json :=
  .object [(utf16 "type", .string type), (utf16 "occurredAt", .string (toISOString occurredAt)),
    (utf16 "data", .object data)]

/-- `inboxPayloadHash`, of an envelope that `canonicalize` returns on. -/
def inboxPayloadHashOf (type : Text) (occurredAt : TimeValue) (data : Record) : Text :=
  sha256Hex (canonicalize (hashedEnvelope type occurredAt data))

/-- The command of a message: what `parseSubmitWager` accepted, and its metadata. -/
def SubmitWagerBody.command (body : SubmitWagerBody) (idempotencyKey correlationId : Text)
    (causationId : Option Text) : SubmitWagerCommand :=
  { body with idempotencyKey, correlationId, causationId }

/-- `parseWagerMessage`. -/
def parseWagerMessage (rawBody : Text) : Except Failure WagerMessage := do
  match Platform.parseJson rawBody with
  | none => invalid (utf16 "the message body must be valid JSON")
  | some body =>
    let envelope ← asRecord (some body)
    let messageId ← requiredString envelope (utf16 "messageId") 128
    let type ← requiredString envelope (utf16 "type") maxSafeInteger
    if type ≠ expectedType then invalid (utf16 "type must be " ++ expectedType)
    else
      let occurredAt ← timestamp envelope (utf16 "occurredAt")
      let data ← asRecord (envelope.get (utf16 "data"))
      let idempotencyKey ← requiredString data (utf16 "idempotencyKey") 255
      -- the properties of the result are evaluated in order: the hash comes first
      let canonical ← canonicalizeWithin Platform.maxNesting (hashedEnvelope type occurredAt data)
      let parsed ← parseSubmitWager (.object data)
      pure
        { messageId, occurredAt
          inboxPayloadHash := sha256Hex canonical
          command := parsed.command idempotencyKey (correlationIdOf consumerName messageId)
            (some messageId) }

end Wagering
