import Wagering.Lib.Interleave
import Wagering.Persistence.Database

/-!
# Repositories

The ports of `application/ports.ts` as operations, and what each does in a
running transaction (`wallet.repository.ts`, `wager-transaction.repository.ts`,
`ledger.repository.ts`, `inbox.repository.ts`, `outbox.repository.ts`).

An operation waits (`none`) while another open transaction holds the row lock
or has taken the unique key that it needs.  A statement that the schema refuses
fails with the rule's name.  KEY SHARE locks of foreign keys only delay, so
they are left out.
-/

namespace Wagering

open Interleave

variable [Platform]

/-- The calls that a use case makes. -/
inductive Op : Type
  | now
  | nextId
  | jitter
  | attempt (id : Text)
  | insertIfAbsent (wallet : Wallet)
  | findByPlayerAndCurrency (playerId currency : Text)
  | lockWallet (id : Text)
  | updateWallet (wallet : Wallet)
  | reserve (transaction : WagerTransaction)
  | findByIdempotencyKey (providerId idempotencyKey : Text)
  | findByExternalId (providerId externalTransactionId : Text)
  | hasActiveReversal (referenceTransactionId : Text)
  | lockWager (id : Text)
  | lockDuePendingReference (now : Instant)
  | updateWager (transaction : WagerTransaction)
  | insertLedger (entry : WalletLedgerEntry)
  | reserveInbox (message : InboxMessageRow)
  | findInbox (key : InboxKey)
  | markInboxProcessed (key : InboxKey) (processedAt : Instant)
  | enqueue (events : List IntegrationEvent) (now : Instant)

/-- What each call answers. -/
abbrev Op.Answer : Op → Type
  | .now => Instant
  | .nextId => Text
  | .jitter => Nat
  | .attempt _ => Unit
  | .insertIfAbsent _ => Option Wallet
  | .findByPlayerAndCurrency _ _ => Option Wallet
  | .lockWallet _ => Option Wallet
  | .updateWallet _ => Unit
  | .reserve _ => Option WagerTransaction
  | .findByIdempotencyKey _ _ => Option WagerTransaction
  | .findByExternalId _ _ => Option WagerTransaction
  | .hasActiveReversal _ => Bool
  | .lockWager _ => Option WagerTransaction
  | .lockDuePendingReference _ => Option WagerTransaction
  | .updateWager _ => Unit
  | .insertLedger _ => Unit
  | .reserveInbox _ => Option InboxMessageRow
  | .findInbox _ => Option InboxMessageRow
  | .markInboxProcessed _ _ => Unit
  | .enqueue _ _ => Unit

/-- The interface that the use cases are written against. -/
abbrev ports : Signature := ⟨Op, Op.Answer⟩

/-- What the environment decides at a call: the clock's reading, the generated
identifier, the jitter as a multiple of 2⁻⁵³. -/
inductive Input : Type
  | step
  | instant (at_ : Instant)
  | identity (id : Text)
  | jitter (numerator : Nat)
deriving DecidableEq

/-- What all sessions share: the committed tables, the identifiers handed out so
far, and the publishers. -/
structure Shared : Type where
  db : Database
  issued : List Text
  publishing : Publishing

def Shared.start : Shared := ⟨.empty, [], .start⟩

/-- What an open transaction keeps to itself: its statements, the rows it holds
FOR UPDATE, the identifiers it generated, its clock readings (latest first), the
variable `attempted` of the worker, and the committed tables that its
reservation lost against and that it looked up the key in. -/
structure Local : Type where
  log : List Write
  wallets : List Text
  wagers : List Text
  ids : List Text
  readings : List Instant
  attempted : Option Text
  lostAt : Option Database
  lookedAt : Option Database

def Local.start : Local := ⟨[], [], [], [], [], none, none, none⟩

/-- The keys that the transaction has taken. -/
def Local.keys (l : Local) : List UniqueKey := l.log.flatMap Write.uniqueKeys

/-- The tables as the transaction sees them. -/
def Local.view (l : Local) (db : Database) : Database := db.after l.log

def Local.push (l : Local) (write : Write) : Local := { l with log := l.log ++ [write] }

/-- A reading that the code can work with: it is an instant of `timestamptz`,
and so is the one six hours later. -/
def Instant.isReading (at_ : Instant) : Bool :=
  at_.isTimestamp && (at_ + 21600000).isTimestamp

/-- The result of a call: it waits, or it leaves a shared state and an answer or
an error. -/
abbrev Result (α : Type) : Type := Option (Shared × Except Failure (α × Local))

section Results

variable {α : Type} (sh : Shared) (l : Local)

def Result.answer (a : α) : Result α := some (sh, .ok (a, l))

def Result.refuse (e : RepositoryError) : Result α := some (sh, .error (.repository e))

/-- An answer that the mapper may fail to build. -/
def Result.mapped (a : Except DomainError α) : Result α :=
  match a with
  | .ok a => .answer sh l a
  | .error e => some (sh, .error (.domain e))

/-- The answer for a row that may be missing. -/
def Result.found {ρ : Type} (mapper : ρ → Except DomainError α) (row : Option ρ) :
    Result (Option α) :=
  match row with
  | none => .answer sh l none
  | some row => .mapped sh l (some <$> mapper row)

end Results

/-- `INSERT … ON CONFLICT DO NOTHING RETURNING *`: it waits for an open
transaction that has taken one of the keys, and yields to a row that holds one:
`lost` is what the transaction then keeps. -/
def insertOrIgnore {ρ α : Type} (rules : List Rule) (keys : List UniqueKey) (row : ρ)
    (write : ρ → Write) (mapper : ρ → Except DomainError α) (sh : Shared)
    (others : List Local) (l lost : Local) : Result (Option α) :=
  match refusal rules with
  | some e => .refuse sh e
  | none =>
    if others.any fun o => keys.any fun k => k ∈ o.keys then none
    else if keys.any fun k => k ∈ (l.view sh.db).uniqueKeys then
      .answer sh lost none
    else .found sh (l.push (write row)) mapper (some row)

/-- A plain INSERT: a key that is taken, or taken twice, is an error. -/
def insertPlain (rules : List Rule) (keys : List UniqueKey) (foreignKeys : List Rule)
    (write : Write) (sh : Shared) (others : List Local) (l : Local) : Result Unit :=
  match refusal rules with
  | some e => .refuse sh e
  | none =>
    if others.any fun o => keys.any fun k => k ∈ o.keys then none
    else if (keys.any fun k => k ∈ (l.view sh.db).uniqueKeys) || !decide keys.Nodup then
      .refuse sh (.integrity (.constraint (utf16 "unique")))
    else match refusal foreignKeys with
      | some e => .refuse sh e
      | none => .answer sh (l.push write) ()

/-- `wager_result_balance_wallet_fk` and `ledger_wallet_fk`. -/
def walletForeignKey (name : String) (db : Database) (walletId currency : Text) : Rule :=
  check name (db.wallets.any fun w => w.id = walletId && w.currency = currency)

/-- The triggers of `wager_transaction`, the CHECKs and the foreign keys, for an
update of `old` to `new`. -/
def wagerUpdateRules (db : Database) (old new : WagerTransactionRow) : List Rule :=
  wagerColumnRules new ++
  [check "wager_reversal_guard"
     (new.status ≠ .processed || !new.kind.isReversal ||
       new.referenceTransactionId.all fun reference =>
         !db.wagers.any fun applied =>
           applied.id ≠ new.id && isActiveReversal db.wagers reference applied),
   check "wager_transaction_guard" (!old.status.isTerminal)] ++
  wagerCheckRules new ++
  [check "wager_reference_fk"
     (new.referenceTransactionId.all fun reference =>
       db.wagers.any fun row => row.id = reference),
   optional (fun currency =>
     walletForeignKey "wager_result_balance_wallet_fk" db new.walletId currency)
     new.resultBalanceCurrency]

/-- `inbox_message_guard`, the column and the CHECK, for an update that sets
`processed_at`. -/
def inboxUpdateRules (old new : InboxMessageRow) : List Rule :=
  check "inbox_message_guard" (old.processedAt.isNone || new.processedAt = old.processedAt) ::
    inboxRules new

/-- An UPDATE of the one row `old?`, held by nobody else. -/
def updateRow {ρ : Type} (table : String) (id : Text) (locked : Bool) (old? : Option ρ)
    (rules : ρ → List Rule) (write : ρ → Write) (sh : Shared) (l : Local) : Result Unit :=
  if locked then none
  else match old? with
    | none => .refuse sh (.staleWrite (utf16 table) id 0)
    | some old =>
      match refusal (rules old) with
      | some e => .refuse sh e
      | none => .answer sh (l.push (write old)) ()

/-- One call of a session, next to the open transactions of the others. -/
def exec (sh : Shared) (others : List Local) (l : Local) :
    (op : Op) → Input → Result op.Answer
  | .now, .instant at_ =>
    if at_.isReading then .answer sh { l with readings := at_ :: l.readings } at_ else none
  | .nextId, .identity id =>
    if isCanonicalUuid id && id ∉ sh.issued then
      .answer { sh with issued := id :: sh.issued } { l with ids := id :: l.ids } id
    else none
  | .jitter, .jitter numerator =>
    if numerator < 2 ^ 53 then .answer sh l numerator else none
  | .attempt id, .step => .answer sh { l with attempted := some id } ()
  | .insertIfAbsent wallet, .step =>
    let row := (toWalletRow wallet).stored
    insertOrIgnore (walletRules (toWalletRow wallet)) row.uniqueKeys row .insertWallet toWallet
      sh others l { l with lostAt := some sh.db }
  | .findByPlayerAndCurrency playerId currency, .step =>
    .found sh l toWallet ((l.view sh.db).walletByPlayer playerId currency)
  | .lockWallet id, .step =>
    if !isUuid id then .refuse sh (.malformedText (utf16 "id"))
    else if others.any fun o => uuidText id ∈ o.wallets then none
    else match (l.view sh.db).walletById (uuidText id) with
      | none => .answer sh l none
      | some row => .found sh { l with wallets := row.id :: l.wallets } toWallet (some row)
  | .updateWallet wallet, .step =>
    let row := toWalletRow wallet
    updateRow "wallet" row.id (others.any fun o => row.id ∈ o.wallets)
      ((l.view sh.db).walletById row.id) (fun old => walletRules (row.set old))
      (fun old => .updateWallet (row.set old)) sh l
  | .reserve transaction, .step =>
    if transaction.status ≠ .pending then
      .refuse sh (.notPending transaction.status.text transaction.id)
    else
      let row := toWagerTransactionRow transaction
      insertOrIgnore (wagerColumnRules row ++ wagerCheckRules row) row.stored.uniqueKeys
        row.stored .insertWager toWagerTransaction sh others l { l with lostAt := some sh.db }
  | .findByIdempotencyKey providerId idempotencyKey, .step =>
    .found sh { l with lookedAt := some sh.db } toWagerTransaction
      ((l.view sh.db).wagerByKey providerId idempotencyKey)
  | .findByExternalId providerId externalTransactionId, .step =>
    .found sh l toWagerTransaction
      ((l.view sh.db).wagerByExternal providerId externalTransactionId)
  | .hasActiveReversal referenceTransactionId, .step =>
    .answer sh l (hasActiveReversal (l.view sh.db).wagers referenceTransactionId)
  | .lockWager id, .step =>
    if others.any fun o => id ∈ o.wagers then none
    else match (l.view sh.db).wagerById id with
      | none => .answer sh l none
      | some row => .found sh { l with wagers := row.id :: l.wagers } toWagerTransaction (some row)
  | .lockDuePendingReference now, .step =>
    match (l.view sh.db).duePendingReference (others.flatMap Local.wagers) now with
    | none => .answer sh l none
    | some row => .found sh { l with wagers := row.id :: l.wagers } toWagerTransaction (some row)
  | .updateWager transaction, .step =>
    let row := toWagerTransactionRow transaction
    updateRow "wager_transaction" row.id (others.any fun o => row.id ∈ o.wagers)
      ((l.view sh.db).wagerById row.id)
      (fun old => wagerUpdateRules (l.view sh.db) old (row.set old))
      (fun old => .updateWager (row.set old)) sh l
  | .insertLedger entry, .step =>
    let row := toLedgerEntryRow entry
    insertPlain (ledgerRules row) row.uniqueKeys
      [walletForeignKey "ledger_wallet_fk" (l.view sh.db) row.walletId row.currency,
       check "ledger_transaction_fk"
         ((l.view sh.db).wagers.any fun t => t.id = row.transactionId)]
      (.insertLedger row) sh others l
  | .reserveInbox message, .step =>
    insertOrIgnore (inboxRules message) [.inbox message.stored.key] message.stored .insertInbox
      .ok sh others l l
  | .findInbox key, .step => .found sh l .ok ((l.view sh.db).inboxByKey key)
  | .markInboxProcessed key processedAt, .step =>
    updateRow "inbox_message"
      (key.consumerName ++ utf16 "/" ++ key.providerId ++ utf16 "/" ++ key.messageId) false
      ((l.view sh.db).inboxByKey key)
      (fun old => inboxUpdateRules old (old.mark processedAt))
      (fun _ => .markInbox key.stored processedAt) sh l
  | .enqueue events now, .step =>
    let rows := events.map (toOutboxRow now)
    if rows.isEmpty then .answer sh l ()
    else insertPlain (rows.flatMap outboxRules) (rows.flatMap OutboxMessageRow.uniqueKeys) []
      (.insertOutbox rows) sh others l
  | _, _ => none

/-- A lost connection, a lock timeout, a deadlock: a call may end so at any time. -/
def Failure.isOutage : Failure → Bool
  | .repository (.connection _) => true
  | _ => false

/-- Transactions of the use cases, next to the outbox publishers. -/
abbrev store : Store ports Failure where
  Shared := Shared
  Local := Local
  Input := Input
  Ambient := PublisherAction
  start := .start
  exec := exec
  commit sh l := { sh with db := sh.db.after l.log }
  ambient sh action :=
    (sh.publishing.step sh.db.outbox action).map fun next =>
      { sh with db := { sh.db with outbox := next.1 }, publishing := next.2 }
  outage := Failure.isOutage

end Wagering
