import Wagering.Persistence.OutboxClaim
import Wagering.Persistence.Schema

/-!
# The database

The five tables, the statements that change them, and the queries of the
repositories.  A transaction sees the committed tables with its own statements
on top (`view`): at READ COMMITTED each statement reads the committed state of
that moment.
-/

namespace Wagering

/-- `InboxKey`. -/
structure InboxKey : Type where
  consumerName : Text
  providerId : Text
  messageId : Text
deriving DecidableEq

def InboxMessageRow.key (row : InboxMessageRow) : InboxKey :=
  ⟨row.consumerName, row.providerId, row.messageId⟩

def InboxKey.stored (key : InboxKey) : InboxKey :=
  ⟨Text.stored key.consumerName, Text.stored key.providerId, Text.stored key.messageId⟩

/-- The tables, each in the order its rows were committed. -/
structure Database : Type where
  wallets : List WalletRow
  wagers : List WagerTransactionRow
  ledger : List WalletLedgerEntryRow
  inbox : List InboxMessageRow
  outbox : List OutboxMessageRow

def Database.empty : Database := ⟨[], [], [], [], []⟩

/-- A statement that changes rows.  An update carries the whole new row and sets
the columns that the repository's UPDATE names. -/
inductive Write : Type
  | insertWallet (row : WalletRow)
  | updateWallet (row : WalletRow)
  | insertWager (row : WagerTransactionRow)
  | updateWager (row : WagerTransactionRow)
  | insertLedger (row : WalletLedgerEntryRow)
  | insertInbox (row : InboxMessageRow)
  | markInbox (key : InboxKey) (processedAt : Instant)
  | insertOutbox (rows : List OutboxMessageRow)
deriving DecidableEq

/-- `UPDATE wallet SET balance, version, updated_at`. -/
def WalletRow.set (row old : WalletRow) : WalletRow :=
  { old with balance := row.balance, version := row.version, updatedAt := row.updatedAt }

/-- `UPDATE wager_transaction SET …`, the nine columns of the result. -/
def WagerTransactionRow.set (row old : WagerTransactionRow) : WagerTransactionRow :=
  { old with
    status := row.status
    failureCode := row.failureCode
    processedAt := row.processedAt
    referenceTransactionId := row.referenceTransactionId
    resultBalanceAmount := row.resultBalanceAmount
    resultBalanceCurrency := row.resultBalanceCurrency
    attempts := row.attempts
    nextAttemptAt := row.nextAttemptAt
    expiresAt := row.expiresAt }

/-- `UPDATE inbox_message SET processed_at`. -/
def InboxMessageRow.mark (processedAt : Instant) (old : InboxMessageRow) : InboxMessageRow :=
  { old with processedAt := some processedAt }

/-- What a statement does to the tables. -/
def Write.apply (db : Database) : Write → Database
  | .insertWallet row => { db with wallets := db.wallets ++ [row] }
  | .updateWallet row =>
    { db with wallets := Keyed.adjust WalletRow.id row.id row.set db.wallets }
  | .insertWager row => { db with wagers := db.wagers ++ [row] }
  | .updateWager row =>
    { db with wagers := Keyed.adjust WagerTransactionRow.id row.id row.set db.wagers }
  | .insertLedger row => { db with ledger := db.ledger ++ [row] }
  | .insertInbox row => { db with inbox := db.inbox ++ [row] }
  | .markInbox key processedAt =>
    { db with
      inbox := Keyed.adjust InboxMessageRow.key key (InboxMessageRow.mark processedAt) db.inbox }
  | .insertOutbox rows => { db with outbox := db.outbox ++ rows }

/-- The tables after a sequence of statements. -/
def Database.after (db : Database) (log : List Write) : Database :=
  log.foldl Write.apply db

@[simp] theorem Database.after_nil (db : Database) : db.after [] = db := rfl

@[simp] theorem Database.after_append (db : Database) (log log' : List Write) :
    db.after (log ++ log') = (db.after log).after log' := by
  simp [Database.after]

@[simp] theorem Database.after_cons (db : Database) (write : Write) (log : List Write) :
    db.after (write :: log) = (write.apply db).after log := rfl

/-! ## Queries -/

/-- A reversal that was applied to `referenceId` and has not been undone. -/
def isActiveReversal (wagers : List WagerTransactionRow) (referenceId : Text)
    (applied : WagerTransactionRow) : Bool :=
  applied.referenceTransactionId = some referenceId && applied.status = .processed &&
    applied.kind.isReversal &&
    !wagers.any fun undone =>
      undone.referenceTransactionId = some applied.id && undone.status = .processed &&
        undone.kind = .rollback

/-- `hasActiveReversal`. -/
def hasActiveReversal (wagers : List WagerTransactionRow) (referenceId : Text) : Bool :=
  wagers.any (isActiveReversal wagers referenceId)

/-- The rows of `lockDuePendingReference`, before any lock is looked at. -/
def isDue (now : Instant) (row : WagerTransactionRow) : Bool :=
  row.status = .pendingReference && row.nextAttemptAt.any fun at_ => at_ ≤ now

/-- `ORDER BY next_attempt_at, id`. -/
def dueBefore (row other : WagerTransactionRow) : Bool :=
  match row.nextAttemptAt, other.nextAttemptAt with
  | some at_, some otherAt => at_ < otherAt || (at_ = otherAt && Text.le row.id other.id)
  | some _, none => true
  | none, some _ => false
  | none, none => Text.le row.id other.id

namespace Database

def walletById (db : Database) (id : Text) : Option WalletRow :=
  Keyed.lookup WalletRow.id id db.wallets

def wagerById (db : Database) (id : Text) : Option WagerTransactionRow :=
  Keyed.lookup WagerTransactionRow.id id db.wagers

/-- `{ providerId, idempotencyKey }`. -/
def wagerByKey (db : Database) (providerId idempotencyKey : Text) : Option WagerTransactionRow :=
  Keyed.lookup (fun row => (row.providerId, row.idempotencyKey))
    (Text.stored providerId, Text.stored idempotencyKey) db.wagers

/-- `{ providerId, externalTransactionId }`. -/
def wagerByExternal (db : Database) (providerId externalTransactionId : Text) :
    Option WagerTransactionRow :=
  Keyed.lookup (fun row => (row.providerId, row.externalTransactionId))
    (Text.stored providerId, Text.stored externalTransactionId) db.wagers

/-- `{ playerId, currency }`. -/
def walletByPlayer (db : Database) (playerId currency : Text) : Option WalletRow :=
  Keyed.lookup (fun row => (row.playerId, row.currency)) (Text.stored playerId, currency)
    db.wallets

def inboxByKey (db : Database) (key : InboxKey) : Option InboxMessageRow :=
  Keyed.lookup InboxMessageRow.key key.stored db.inbox

/-- The first due row that no other transaction holds. -/
def duePendingReference (db : Database) (held : List Text) (now : Instant) :
    Option WagerTransactionRow :=
  Keyed.least dueBefore (db.wagers.filter fun row => isDue now row && row.id ∉ held)

end Database

/-! ## Unique keys -/

/-- A value that a UNIQUE constraint or a primary key keeps to one row. -/
inductive UniqueKey : Type
  | walletId (id : Text)
  | walletPlayer (playerId currency : Text)
  | wagerId (id : Text)
  | wagerIdempotency (providerId idempotencyKey : Text)
  | wagerExternal (providerId externalTransactionId : Text)
  | ledgerId (id : Text)
  | ledgerTransaction (transactionId walletId : Text)
  | inbox (key : InboxKey)
  | outboxId (id : Text)
deriving DecidableEq

def WalletRow.uniqueKeys (row : WalletRow) : List UniqueKey :=
  [.walletId row.id, .walletPlayer row.playerId row.currency]

def WagerTransactionRow.uniqueKeys (row : WagerTransactionRow) : List UniqueKey :=
  [.wagerId row.id, .wagerIdempotency row.providerId row.idempotencyKey,
    .wagerExternal row.providerId row.externalTransactionId]

def WalletLedgerEntryRow.uniqueKeys (row : WalletLedgerEntryRow) : List UniqueKey :=
  [.ledgerId row.id, .ledgerTransaction row.transactionId row.walletId]

/-- `outbox_message_pk` and `outbox_event_id_uq`: both columns hold the event id. -/
def OutboxMessageRow.uniqueKeys (row : OutboxMessageRow) : List UniqueKey := [.outboxId row.id]

/-- The keys that a statement takes. -/
def Write.uniqueKeys : Write → List UniqueKey
  | .insertWallet row => row.uniqueKeys
  | .insertWager row => row.uniqueKeys
  | .insertLedger row => row.uniqueKeys
  | .insertInbox row => [.inbox row.key]
  | .insertOutbox rows => rows.flatMap OutboxMessageRow.uniqueKeys
  | _ => []

/-- The keys of all rows. -/
def Database.uniqueKeys (db : Database) : List UniqueKey :=
  db.wallets.flatMap WalletRow.uniqueKeys ++ db.wagers.flatMap WagerTransactionRow.uniqueKeys ++
    db.ledger.flatMap WalletLedgerEntryRow.uniqueKeys ++
    db.inbox.map (fun row => .inbox row.key) ++ db.outbox.flatMap OutboxMessageRow.uniqueKeys

end Wagering
