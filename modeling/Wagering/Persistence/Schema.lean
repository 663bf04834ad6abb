import Wagering.Persistence.Rows

/-!
# The schema's own rules for one row

What the migrations, applied up to `20260906000004`, ask of a single row: the
type of every column and every CHECK.  A CHECK passes when SQL evaluates it to
NULL, so a comparison with a missing value never refuses.

Rules that look at other rows (UNIQUE, FOREIGN KEY, the triggers) are in
`Wagering.Persistence.Repositories`.
-/

namespace Wagering

open Text

/-- One rule: what it decided, and the error it raises when it refuses. -/
structure Rule : Type where
  holds : Bool
  error : RepositoryError

/-- The error of the first rule that refuses. -/
def refusal (rules : List Rule) : Option RepositoryError :=
  (rules.find? fun rule => !rule.holds).map Rule.error

theorem refusal_eq_none {rules : List Rule} :
    refusal rules = none ↔ ∀ rule ∈ rules, rule.holds = true := by
  simp [refusal]

/-! ## Columns -/

/-- A text the server can take in at all. -/
def textRule (column : String) (value : Text) : Rule :=
  ⟨!hasNul value, .malformedText (utf16 column)⟩

def uuidRule (column : String) (value : Text) : Rule :=
  ⟨isUuid value, .malformedText (utf16 column)⟩

/-- `varchar(n)` and `char(n)`. -/
def lengthRule (column : String) (n : Nat) (value : Text) : Rule :=
  ⟨characters value ≤ n, .integrity (.tooLong (utf16 column))⟩

/-- A text that a `varchar(n)` column holds. -/
def Text.Fits (n : Nat) (t : Text) : Prop := hasNul t = false ∧ characters t ≤ n

theorem Text.Fits.text {n : Nat} {t : Text} (h : Fits n t) (column : String) :
    (textRule column t).holds = true := by
  simp [textRule, h.1]

theorem Text.Fits.length {n : Nat} {t : Text} (h : Fits n t) (column : String) :
    (lengthRule column n t).holds = true := decide_eq_true h.2

/-- `numeric(20,2)`, in hundredths. -/
def moneyRule (column : String) (value : Int) : Rule :=
  ⟨value.natAbs ≤ maxAbsolute, .integrity (.outOfRange (utf16 column))⟩

/-- `integer`. -/
def integerRule (column : String) (value : Int) : Rule :=
  ⟨-2147483648 ≤ value && value < 2147483648, .integrity (.outOfRange (utf16 column))⟩

/-- An instant that `timestamptz` holds: from 4714-11-24 BC up to the last one
that a `Date` can express. -/
def Instant.isTimestamp (at_ : Instant) : Bool :=
  -210866803200000 ≤ at_ && at_ ≤ 8640000000000000

def timestampRule (column : String) (value : Instant) : Rule :=
  ⟨value.isTimestamp, .integrity (.outOfRange (utf16 column))⟩

/-- A rule for a column that may be NULL. -/
def optional {α : Type} (rule : α → Rule) : Option α → Rule
  | none => ⟨true, .connection []⟩
  | some value => rule value

/-- A CHECK, by its name. -/
def check (name : String) (holds : Bool) : Rule :=
  ⟨holds, .integrity (.constraint (utf16 name))⟩

/-! ## Tables -/

/-- `wallet`. -/
def walletRules (row : WalletRow) : List Rule :=
  [textRule "player_id" row.playerId,
   lengthRule "player_id" 64 row.playerId,
   lengthRule "currency" 3 row.currency,
   moneyRule "balance" row.balance,
   integerRule "version" row.version,
   timestampRule "created_at" row.createdAt,
   timestampRule "updated_at" row.updatedAt,
   check "wallet_balance_non_negative_ck" (0 ≤ row.balance),
   check "wallet_version_min_ck" (1 ≤ row.version),
   check "wallet_currency_iso_ck" (isCurrencyFormat row.currency),
   check "wallet_updated_after_created_ck" (row.createdAt ≤ row.updatedAt)]

/-- The column types of `wager_transaction`. -/
def wagerColumnRules (row : WagerTransactionRow) : List Rule :=
  [textRule "provider_id" row.providerId,
   textRule "external_transaction_id" row.externalTransactionId,
   textRule "idempotency_key" row.idempotencyKey,
   textRule "player_id" row.playerId,
   textRule "round_id" row.roundId,
   textRule "game_id" row.gameId,
   optional (textRule "reference_external_transaction_id") row.referenceExternalTransactionId,
   textRule "correlation_id" row.correlationId,
   uuidRule "wallet_id" row.walletId,
   lengthRule "provider_id" 64 row.providerId,
   lengthRule "external_transaction_id" 128 row.externalTransactionId,
   lengthRule "idempotency_key" 255 row.idempotencyKey,
   lengthRule "payload_hash" 64 row.payloadHash,
   lengthRule "player_id" 64 row.playerId,
   lengthRule "round_id" 128 row.roundId,
   lengthRule "game_id" 128 row.gameId,
   moneyRule "amount" row.amount,
   lengthRule "currency" 3 row.currency,
   optional (lengthRule "reference_external_transaction_id" 128)
     row.referenceExternalTransactionId,
   optional (moneyRule "result_balance_amount") row.resultBalanceAmount,
   optional (lengthRule "result_balance_currency" 3) row.resultBalanceCurrency,
   integerRule "attempts" row.attempts,
   optional (timestampRule "next_attempt_at") row.nextAttemptAt,
   optional (timestampRule "expires_at") row.expiresAt,
   lengthRule "correlation_id" 128 row.correlationId,
   timestampRule "created_at" row.createdAt,
   optional (timestampRule "processed_at") row.processedAt]

/-- The CHECKs of `wager_transaction`. -/
def wagerCheckRules (row : WagerTransactionRow) : List Rule :=
  [check "wager_amount_positive_ck" (0 < row.amount),
   check "wager_currency_iso_ck" (isCurrencyFormat row.currency),
   check "wager_attempts_non_negative_ck" (0 ≤ row.attempts),
   check "wager_no_self_reference_ck" (row.referenceTransactionId ≠ some row.id),
   check "wager_failure_code_states_ck"
     (row.failureCode.isSome = (row.status = .rejected || row.status = .failed)),
   check "wager_infrastructure_failure_ck"
     (if row.status = .failed then
       row.failureCode = none || row.failureCode = some .infrastructureFailure
      else row.failureCode ≠ some .infrastructureFailure),
   check "wager_processed_at_states_ck" (row.processedAt.isSome = row.status.isTerminal),
   check "wager_result_balance_pair_ck"
     (row.resultBalanceAmount.isNone = row.resultBalanceCurrency.isNone),
   check "wager_result_balance_non_negative_ck"
     (row.resultBalanceAmount.all fun amount => 0 ≤ amount),
   check "wager_result_balance_presence_ck"
     (match row.status with
      | .pending => row.resultBalanceAmount.isNone
      | .rejected =>
        if row.failureCode = some .walletNotFound ||
            row.failureCode = some .walletPlayerMismatch then
          row.resultBalanceAmount.isNone
        else row.resultBalanceAmount.isSome
      | _ => row.resultBalanceAmount.isSome),
   check "wager_result_balance_currency_ck"
     (row.resultBalanceCurrency = none || row.resultBalanceCurrency = some row.currency ||
       row.failureCode = none || row.failureCode = some .currencyMismatch),
   check "wager_reference_external_by_kind_ck"
     (match row.kind with
      | .refund | .rollback => row.referenceExternalTransactionId.isSome
      | .win => true
      | _ => row.referenceExternalTransactionId.isNone),
   check "wager_reference_resolved_ck"
     (row.status ≠ .processed || !row.kind.isReversal || row.referenceTransactionId.isSome),
   check "wager_pending_reference_ck"
     (row.status ≠ .pendingReference ||
       (row.kind.isReversal && row.referenceTransactionId.isNone && row.nextAttemptAt.isSome &&
         row.expiresAt.isSome))]

/-- `wallet_ledger_entry`. -/
def ledgerRules (row : WalletLedgerEntryRow) : List Rule :=
  [moneyRule "amount" row.amount,
   lengthRule "currency" 3 row.currency,
   moneyRule "balance_before" row.balanceBefore,
   moneyRule "balance_after" row.balanceAfter,
   timestampRule "created_at" row.createdAt,
   check "ledger_amount_positive_ck" (0 < row.amount),
   check "ledger_currency_iso_ck" (isCurrencyFormat row.currency),
   check "ledger_balance_before_non_negative_ck" (0 ≤ row.balanceBefore),
   check "ledger_balance_after_non_negative_ck" (0 ≤ row.balanceAfter),
   check "ledger_arithmetic_ck"
     (match row.direction with
      | .credit => row.balanceAfter = row.balanceBefore + row.amount
      | .debit => row.balanceAfter = row.balanceBefore - row.amount)]

/-- `inbox_message`. -/
def inboxRules (row : InboxMessageRow) : List Rule :=
  [textRule "consumer_name" row.consumerName,
   textRule "provider_id" row.providerId,
   textRule "message_id" row.messageId,
   optional (textRule "broker_message_id") row.brokerMessageId,
   lengthRule "consumer_name" 64 row.consumerName,
   lengthRule "provider_id" 64 row.providerId,
   lengthRule "message_id" 128 row.messageId,
   lengthRule "payload_hash" 64 row.payloadHash,
   optional (lengthRule "broker_message_id" 128) row.brokerMessageId,
   timestampRule "received_at" row.receivedAt,
   optional (timestampRule "processed_at") row.processedAt,
   check "inbox_processed_after_received_ck"
     (row.processedAt.all fun processedAt => row.receivedAt ≤ processedAt)]

/-- `outbox_message`.  `jsonb` takes no U+0000 and no lone surrogate, which only
the texts that did not come out of the database can contain. -/
def outboxRules (row : OutboxMessageRow) : List Rule :=
  [⟨row.payload.foreignTexts.all fun t => !hasNul t && Text.stored t = t,
    .malformedText (utf16 "payload")⟩,
   optional (textRule "claimed_by") row.claimedBy,
   optional (textRule "last_error") row.lastError,
   lengthRule "aggregate_id" 128 row.aggregateId,
   lengthRule "event_type" 64 row.eventType,
   timestampRule "occurred_at" row.occurredAt,
   integerRule "attempts" row.attempts,
   timestampRule "next_attempt_at" row.nextAttemptAt,
   optional (lengthRule "claimed_by" 64) row.claimedBy,
   optional (timestampRule "claimed_until") row.claimedUntil,
   optional (timestampRule "published_at") row.publishedAt,
   optional (timestampRule "abandoned_at") row.abandonedAt,
   check "outbox_attempts_non_negative_ck" (0 ≤ row.attempts),
   check "outbox_claim_pair_ck" (row.claimedBy.isNone = row.claimedUntil.isNone),
   check "outbox_abandoned_unpublished_ck"
     (row.abandonedAt.isNone || row.publishedAt.isNone)]

end Wagering
