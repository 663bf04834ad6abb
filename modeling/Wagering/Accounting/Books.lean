import Wagering.Lib.Chain
import Wagering.Persistence.Database

/-!
# The books

What the tables are for, in their own terms.  `Books` is what accounting sees
of the database: wallets, transactions, the ledger and the facts announced in
the outbox.  `Consistent` says when the books are right, and `Decides` what it
takes to decide one transaction on them; neither mentions code, locks or
sessions.

A decision is recorded in one piece (`Books.record`): the transaction's row, at
most one movement of its wallet, and the events that announce both.
-/

namespace Wagering

open RunningBalance

/-- What accounting sees of the database. -/
structure Books : Type where
  wallets : List WalletRow
  wagers : List WagerTransactionRow
  ledger : List WalletLedgerEntryRow
  events : List IntegrationEvent

def Database.books (db : Database) : Books where
  wallets := db.wallets
  wagers := db.wagers
  ledger := db.ledger
  events := db.outbox.map OutboxMessageRow.payload

/-! ## Facts about one row -/

/-- What an entry adds to its wallet. -/
def WalletLedgerEntryRow.signed (e : WalletLedgerEntryRow) : Int := e.direction.signed e.amount

/-- The direction that a kind has by itself. -/
def WagerTransactionKind.baseDirection : WagerTransactionKind → Option LedgerDirection
  | .bet => some .debit
  | .opening | .win | .refund => some .credit
  | .loss | .rollback => none

/-- The columns of a transaction that no update changes. -/
structure SameIdentity (t u : WagerTransactionRow) : Prop where
  id : t.id = u.id
  providerId : t.providerId = u.providerId
  externalTransactionId : t.externalTransactionId = u.externalTransactionId
  idempotencyKey : t.idempotencyKey = u.idempotencyKey
  payloadHash : t.payloadHash = u.payloadHash
  walletId : t.walletId = u.walletId
  playerId : t.playerId = u.playerId
  roundId : t.roundId = u.roundId
  gameId : t.gameId = u.gameId
  kind : t.kind = u.kind
  amount : t.amount = u.amount
  currency : t.currency = u.currency
  referenceExternalTransactionId :
    t.referenceExternalTransactionId = u.referenceExternalTransactionId
  correlationId : t.correlationId = u.correlationId
  createdAt : t.createdAt = u.createdAt

theorem SameIdentity.refl (t : WagerTransactionRow) : SameIdentity t t := by
  constructor <;> rfl

theorem SameIdentity.trans {t u v : WagerTransactionRow} (h : SameIdentity t u)
    (h' : SameIdentity u v) : SameIdentity t v := by
  constructor
  all_goals first | exact h.id.trans h'.id | skip
  all_goals cases h; cases h'; simp_all

theorem SameIdentity.set (row old : WagerTransactionRow) : SameIdentity old (row.set old) := by
  constructor <;> rfl

/-- The attempts of a waiting row `p` that becomes `t`: a row that goes on waiting
counts one more and changes nothing else, any other keeps their number. -/
def WagerTransactionRow.Counts (p t : WagerTransactionRow) : Prop :=
  p.status = .pendingReference ∧
    if t.status = .pendingReference then
      t = { p with attempts := p.attempts + 1, nextAttemptAt := t.nextAttemptAt }
    else t.attempts = p.attempts

/-- A row that still waits has changed in nothing but its attempts. -/
def WagerTransactionRow.StillWaits (t t' : WagerTransactionRow) : Prop :=
  t'.status = .pendingReference →
    t' = { t with attempts := t'.attempts, nextAttemptAt := t'.nextAttemptAt }

theorem WagerTransactionRow.StillWaits.refl (t : WagerTransactionRow) : t.StillWaits t :=
  fun _ => rfl

theorem WagerTransactionRow.StillWaits.trans {t u v : WagerTransactionRow} (h : t.StillWaits u)
    (h' : u.StillWaits v) : t.StillWaits v := by
  intro hv
  have huv := h' hv
  have hu : u.status = .pendingReference := by rw [huv] at hv; exact hv
  have htu := h hu
  rw [huv, htu]

/-- A wallet that has only moved: everything but balance, version and time is the same. -/
structure SameWallet (w w' : WalletRow) : Prop where
  id : w.id = w'.id
  playerId : w.playerId = w'.playerId
  currency : w.currency = w'.currency
  createdAt : w.createdAt = w'.createdAt

theorem SameWallet.refl (w : WalletRow) : SameWallet w w := ⟨rfl, rfl, rfl, rfl⟩

theorem SameWallet.trans {u v w : WalletRow} (h : SameWallet u v) (h' : SameWallet v w) :
    SameWallet u w :=
  ⟨h.id.trans h'.id, h.playerId.trans h'.playerId, h.currency.trans h'.currency,
    h.createdAt.trans h'.createdAt⟩

/-- `t` may reverse `r`: a processed transaction of a kind that `t` reverses, in
the same round, wallet and currency, over the same amount. -/
structure Reverses (t r : WagerTransactionRow) : Prop where
  processed : r.status = .processed
  kind : r.kind ∈ t.kind.reversibleKinds
  providerId : r.providerId = t.providerId
  playerId : r.playerId = t.playerId
  walletId : r.walletId = t.walletId
  roundId : r.roundId = t.roundId
  currency : r.currency = t.currency
  amount : r.amount = t.amount

/-! ## The image of a fact in the outbox -/

/-- An amount as `toJSON` writes it. -/
def moneyText (amount : Int) (currency : Text) : MoneyProps := ⟨toFixed amount, currency⟩

namespace WagerTransactionRow

/-- The data of `WagerTransactionPendingReference`. -/
def pendingData (t : WagerTransactionRow) : EventData :=
  .pendingReference
    { transactionId := t.id
      providerId := t.providerId
      externalTransactionId := t.externalTransactionId
      walletId := t.walletId
      kind := t.kind
      referenceExternalTransactionId := t.referenceExternalTransactionId.getD []
      money := moneyText t.amount t.currency }

/-- The data of `WagerTransactionProcessed`. -/
def processedData (t : WagerTransactionRow) : EventData :=
  .processed
    { transactionId := t.id
      providerId := t.providerId
      externalTransactionId := t.externalTransactionId
      walletId := t.walletId
      playerId := t.playerId
      roundId := t.roundId
      gameId := t.gameId
      kind := t.kind
      money := moneyText t.amount t.currency
      processedAt := t.processedAt.getD 0
      referenceTransactionId := t.referenceTransactionId }

/-- The data of `WagerTransactionRejected`. -/
def rejectedData (t : WagerTransactionRow) : EventData :=
  .rejected
    { transactionId := t.id
      providerId := t.providerId
      externalTransactionId := t.externalTransactionId
      walletId := t.walletId
      kind := t.kind
      money := moneyText t.amount t.currency
      failureCode := (t.failureCode.map FailureCode.text).getD (utf16 "UNKNOWN")
      processedAt := t.processedAt.getD 0 }

/-- What a transaction announced while it waited for its reference. -/
def pendingImage (t : WagerTransactionRow) : List EventData :=
  if t.expiresAt.isSome then [t.pendingData] else []

end WagerTransactionRow

/-- The data of `WalletBalanceChanged`, for an entry that led to `version`. -/
def WalletLedgerEntryRow.changedData (e : WalletLedgerEntryRow) (version : Int) :
    WalletBalanceChangedData where
  walletId := e.walletId
  transactionId := e.transactionId
  direction := e.direction
  money := moneyText e.amount e.currency
  balanceBefore := moneyText e.balanceBefore e.currency
  balanceAfter := moneyText e.balanceAfter e.currency
  walletVersion := version

/-- The group an event is published in. -/
def EventData.aggregateId : EventData → Text
  | .balanceChanged data => data.walletId
  | data => data.transactionId

/-- The balance change that an event announces for a wallet, if it does. -/
def EventData.changeOf (walletId : Text) : EventData → Option WalletBalanceChangedData
  | .balanceChanged data => if data.walletId = walletId then some data else none
  | _ => none

/-! ## The books at one wallet or one transaction -/

namespace Books

/-- The entries of a wallet, in the order they were committed. -/
def walletEntries (b : Books) (walletId : Text) : List WalletLedgerEntryRow :=
  b.ledger.filter fun e => e.walletId = walletId

/-- The entries of a transaction. -/
def entriesOf (b : Books) (transactionId : Text) : List WalletLedgerEntryRow :=
  b.ledger.filter fun e => e.transactionId = transactionId

/-- What the outbox says about a transaction. -/
def imageOf (b : Books) (transactionId : Text) : List EventData :=
  (b.events.map IntegrationEvent.data).filter fun d => d.transactionId = transactionId

/-- The balance changes that the outbox announces for a wallet. -/
def changesOf (b : Books) (walletId : Text) : List WalletBalanceChangedData :=
  b.events.filterMap fun ev => ev.data.changeOf walletId

/-- The wallet was opened with a positive balance. -/
def opened (b : Books) (walletId : Text) : Bool :=
  b.wagers.any fun t => t.kind = .opening && t.walletId = walletId

/-- The version that the first balance change of a wallet leads to. -/
def firstVersion (b : Books) (walletId : Text) : Int := if b.opened walletId then 1 else 2

/-- The entry belongs to an OPENING. -/
def isOpeningEntry (b : Books) (e : WalletLedgerEntryRow) : Bool :=
  b.wagers.any fun t => t.id = e.transactionId && t.kind = .opening

/-- The direction in which a transaction moves its wallet. -/
def Directed (b : Books) (t : WagerTransactionRow) (direction : LedgerDirection) : Prop :=
  t.kind.baseDirection = some direction ∨
    t.kind = .rollback ∧ ∃ r ∈ b.wagers, t.referenceTransactionId = some r.id ∧
      r.status = .processed ∧ r.kind.baseDirection = some direction.opposite

variable [Platform]

/-- The wallet is right: its balance is in range and is where its entries lead,
its version counts them, and the outbox announces them one by one. -/
structure WalletRight (b : Books) (w : WalletRow) : Prop where
  nonneg : 0 ≤ w.balance
  inRange : w.balance.natAbs ≤ maxAbsolute
  isoCurrency : isIsoCurrency w.currency = true
  chain : Chain WalletLedgerEntryRow.balanceBefore WalletLedgerEntryRow.balanceAfter 0
    (b.walletEntries w.id) w.balance
  version : w.version + 1 = b.firstVersion w.id + (b.walletEntries w.id).length
  opening : ∀ e ∈ b.walletEntries w.id, b.isOpeningEntry e = true →
    (b.walletEntries w.id).head? = some e
  openingFirst : b.opened w.id = true →
    ∃ e, (b.walletEntries w.id).head? = some e ∧ b.isOpeningEntry e = true
  changes : b.changesOf w.id =
    (b.walletEntries w.id).mapIdx fun i e => e.changedData (b.firstVersion w.id + i)

/-- The entry is the movement of the transaction. -/
structure Enters (b : Books) (t : WagerTransactionRow) (e : WalletLedgerEntryRow) : Prop where
  walletId : e.walletId = t.walletId
  amount : e.amount = t.amount
  currency : e.currency = t.currency
  arithmetic : e.balanceAfter = e.balanceBefore + e.signed
  directed : b.Directed t e.direction

/-- What the books hold about a transaction, by its status. -/
def Settled (b : Books) (t : WagerTransactionRow) : Prop :=
  match t.status with
  | .pending => False
  | .pendingReference =>
    b.entriesOf t.id = [] ∧ b.imageOf t.id = t.pendingImage ∧ t.expiresAt.isSome
  | .processed =>
    if t.kind = .loss then
      b.entriesOf t.id = [] ∧ b.imageOf t.id = t.pendingImage ++ [t.processedData]
    else ∃ e version, b.entriesOf t.id = [e] ∧ b.Enters t e ∧
      b.imageOf t.id =
        t.pendingImage ++ [t.processedData, .balanceChanged (e.changedData version)]
  | .rejected | .failed =>
    b.entriesOf t.id = [] ∧ b.imageOf t.id = t.pendingImage ++ [t.rejectedData]

/-- The transaction is right. -/
structure WagerRight (b : Books) (t : WagerTransactionRow) : Prop where
  positive : 0 < t.amount
  inRange : t.amount.natAbs ≤ maxAbsolute
  isoCurrency : isIsoCurrency t.currency = true
  wallet : t.status = .processed ∨ t.status = .pendingReference →
    ∃ w ∈ b.wallets, w.id = t.walletId ∧ w.currency = t.currency
  reversal : t.status = .processed → t.kind.isReversal = true →
    ∃ r ∈ b.wagers, t.referenceTransactionId = some r.id ∧ Reverses t r
  linked : ∀ id, t.referenceTransactionId = some id →
    t.status = .processed ∧ ∃ r ∈ b.wagers, r.id = id ∧ r.status = .processed
  observed : ∀ c ∈ t.resultBalanceCurrency, ∃ w ∈ b.wallets, w.id = t.walletId ∧ w.currency = c
  openingProcessed : t.kind = .opening → t.status = .processed
  waits : t.status = .pendingReference → t.kind.isReversal = true
  settled : b.Settled t

/-- The books are right. -/
structure Consistent (b : Books) : Prop where
  walletIds : Keyed.Distinct WalletRow.id b.wallets
  wagerIds : Keyed.Distinct WagerTransactionRow.id b.wagers
  wallets : ∀ w ∈ b.wallets, b.WalletRight w
  wagers : ∀ t ∈ b.wagers, b.WagerRight t
  slots : ∀ {referenceId : Text} {s t : WagerTransactionRow}, s ∈ b.wagers → t ∈ b.wagers →
    isActiveReversal b.wagers referenceId s = true →
    isActiveReversal b.wagers referenceId t = true → s = t
  entries : ∀ e ∈ b.ledger, ∃ t ∈ b.wagers, t.id = e.transactionId
  events : ∀ ev ∈ b.events, ev.aggregateId = ev.data.aggregateId ∧
    ∃ t ∈ b.wagers, t.id = ev.data.transactionId

end Books

/-! ## Decisions -/

/-- One decided transaction: its row, its movement, and what is announced. -/
structure Decision : Type where
  tx : WagerTransactionRow
  movement : Option (WalletLedgerEntryRow × WalletRow)
  events : List IntegrationEvent

namespace Books

/-- The books with a decision in them. -/
def record (b : Books) (d : Decision) : Books where
  wallets := match d.movement with
    | none => b.wallets
    | some (_, w) => Keyed.put WalletRow.id w b.wallets
  wagers := Keyed.put WagerTransactionRow.id d.tx b.wagers
  ledger := b.ledger ++ (d.movement.map Prod.fst).toList
  events := b.events ++ d.events

/-- The books with a new, empty wallet. -/
def openWallet (b : Books) (w : WalletRow) : Books := { b with wallets := b.wallets ++ [w] }

/-- The movement `e` of wallet `w` to `w'` is what transaction `t` is due. -/
structure Moves (b : Books) (t : WagerTransactionRow) (e : WalletLedgerEntryRow)
    (w w' : WalletRow) : Prop where
  wallet : w ∈ b.wallets
  walletId : w.id = t.walletId
  walletCurrency : w.currency = t.currency
  same : SameWallet w w'
  entryWallet : e.walletId = t.walletId
  entryTransaction : e.transactionId = t.id
  amount : e.amount = t.amount
  currency : e.currency = t.currency
  before : e.balanceBefore = w.balance
  after : e.balanceAfter = w'.balance
  arithmetic : w'.balance = w.balance + e.signed
  nonneg : 0 ≤ w'.balance
  inRange : w'.balance.natAbs ≤ maxAbsolute
  directed : b.Directed t e.direction
  version : w'.version = if t.kind = .opening then 1 else w.version + 1
  first : t.kind = .opening → b.walletEntries w.id = [] ∧ b.opened w.id = false

/-- What it takes to decide `t` on the books: with which movement, and with
which announcements. -/
inductive Outcome (b : Books) (t : WagerTransactionRow) :
    Option (WalletLedgerEntryRow × WalletRow) → List EventData → Prop
  | moved {e : WalletLedgerEntryRow} {w w' : WalletRow}
    (status : t.status = .processed) (moves : b.Moves t e w w')
    (reversal : t.kind.isReversal = true → ∃ r ∈ b.wagers,
      t.referenceTransactionId = some r.id ∧ Reverses t r ∧
      hasActiveReversal b.wagers r.id = false)
    (linked : ∀ id, t.referenceTransactionId = some id →
      ∃ r ∈ b.wagers, r.id = id ∧ r.status = .processed) :
    Outcome b t (some (e, w')) [t.processedData, .balanceChanged (e.changedData w'.version)]
  | unmoved (status : t.status = .processed) (kind : t.kind = .loss)
    (reference : t.referenceTransactionId = none)
    (wallet : ∃ w ∈ b.wallets, w.id = t.walletId ∧ w.currency = t.currency) :
    Outcome b t none [t.processedData]
  | refused (status : t.status = .rejected ∨ t.status = .failed)
    (kind : t.kind ≠ .opening) (reference : t.referenceTransactionId = none) :
    Outcome b t none [t.rejectedData]
  | awaits (status : t.status = .pendingReference) (kind : t.kind.isReversal = true)
    (reference : t.referenceTransactionId = none) (expires : t.expiresAt.isSome)
    (wallet : ∃ w ∈ b.wallets, w.id = t.walletId ∧ w.currency = t.currency)
    (fresh : ∀ r ∈ b.wagers, r.id ≠ t.id) :
    Outcome b t none [t.pendingData]
  | retried (status : t.status = .pendingReference) (reference : t.referenceTransactionId = none)
    (pending : ∃ p ∈ b.wagers, p.id = t.id) : Outcome b t none []

/-- The decision `d` is right on the books `b`: `d.tx` is new, or it was waiting
for its reference and only its result changes. -/
structure Decides [Platform] (b : Books) (d : Decision) : Prop where
  prior : (∀ r ∈ b.wagers, r.id ≠ d.tx.id) ∧
      (d.tx.expiresAt.isSome → d.tx.status = .pendingReference) ∨
    ∃ p ∈ b.wagers, p.status = .pendingReference ∧ SameIdentity p d.tx ∧
      p.expiresAt = d.tx.expiresAt
  counted : (∀ r ∈ b.wagers, r.id ≠ d.tx.id) ∧ d.tx.attempts = 0 ∨
    ∃ p ∈ b.wagers, p.id = d.tx.id ∧ p.Counts d.tx
  positive : 0 < d.tx.amount
  inRange : d.tx.amount.natAbs ≤ maxAbsolute
  isoCurrency : isIsoCurrency d.tx.currency = true
  observed : ∀ c ∈ d.tx.resultBalanceCurrency,
    ∃ w ∈ b.wallets, w.id = d.tx.walletId ∧ w.currency = c
  outcome : b.Outcome d.tx d.movement (d.events.map IntegrationEvent.data)
  aggregates : ∀ ev ∈ d.events, ev.aggregateId = ev.data.aggregateId

end Books

/-! ## Changes -/

/-- What one unit of work adds to the books: a wallet, a decision, both, or
nothing at all. -/
structure Change : Type where
  opened : Option WalletRow
  decision : Option Decision

/-- The wallet rows that a change writes. -/
def Change.wallets (c : Change) : List WalletRow :=
  ((c.decision.bind Decision.movement).map Prod.snd).toList ++ c.opened.toList

namespace Books

/-- The books with the wallet of a change. -/
def withWallet (b : Books) : Option WalletRow → Books
  | none => b
  | some w => b.openWallet w

/-- The books with a change in them. -/
def amend (b : Books) (c : Change) : Books :=
  match c.decision with
  | none => b.withWallet c.opened
  | some d => (b.withWallet c.opened).record d

/-- The change is right on the books `b`. -/
structure Allows [Platform] (b : Books) (c : Change) : Prop where
  fresh : ∀ w ∈ c.opened, ∀ v ∈ b.wallets, v.id ≠ w.id
  empty : ∀ w ∈ c.opened, w.balance = 0 ∧ w.version = 1 ∧ isIsoCurrency w.currency = true
  decides : ∀ d ∈ c.decision, (b.withWallet c.opened).Decides d
  opening : ∀ d ∈ c.decision, d.tx.kind = .opening → ∃ w ∈ c.opened, w.id = d.tx.walletId

end Books

end Wagering
