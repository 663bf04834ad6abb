import Wagering.Lib.Keyset
import Wagering.Lib.Serving
import Wagering.Persistence.Database

/-!
# Reading the ledger

The queries of `infrastructure/persistence/ledger.repository.ts`, and the
transaction that reads (`readOnly`): REPEATABLE READ and READ ONLY, so that all
its calls are answered from one snapshot.
-/

namespace Wagering

open Text Interleave

/-- `LedgerCursor`. -/
structure LedgerCursor : Type where
  createdAt : Instant
  id : Text
deriving DecidableEq

/-- The place of a row in the order of the ledger. -/
def WalletLedgerEntryRow.cursor (row : WalletLedgerEntryRow) : LedgerCursor :=
  ⟨row.createdAt, row.id⟩

/-- `(created_at, id) < (created_at, id)`. -/
def LedgerCursor.lt (a b : LedgerCursor) : Prop :=
  a.createdAt < b.createdAt ∨ a.createdAt = b.createdAt ∧ Text.le a.id b.id = true ∧ a.id ≠ b.id

instance : DecidableRel LedgerCursor.lt := fun _ _ => inferInstanceAs (Decidable (_ ∨ _))

/-- The rows of one wallet. -/
def Database.ledgerOf (db : Database) (walletId : Text) : List WalletLedgerEntryRow :=
  db.ledger.filter fun row => row.walletId = walletId

/-- `SUM(CASE WHEN direction = 'CREDIT' THEN amount ELSE -amount END)`, in hundredths. -/
def netCents (rows : List WalletLedgerEntryRow) : Int :=
  (rows.map fun row => row.direction.signed row.amount).sum

/-- `COALESCE(SUM(…), 0)::text`: the sum has two decimal places, the default none. -/
def netText (rows : List WalletLedgerEntryRow) : Text :=
  if rows.isEmpty then utf16 "0" else toFixed (netCents rows)

variable [Platform]

/-- `toLedgerEntry`. -/
def toLedgerEntry (row : WalletLedgerEntryRow) : Except DomainError WalletLedgerEntry := do
  let money ← moneyColumn row.amount row.currency
  let balanceBefore ← moneyColumn row.balanceBefore row.currency
  let balanceAfter ← moneyColumn row.balanceAfter row.currency
  pure
    { id := row.id
      walletId := row.walletId
      transactionId := row.transactionId
      direction := row.direction
      money
      balanceBefore
      balanceAfter
      createdAt := row.createdAt }

/-- `LedgerPage`. -/
structure LedgerPage : Type where
  entries : List WalletLedgerEntry
  hasMore : Bool

/-- `ReconstructedBalance`. -/
structure ReconstructedBalance : Type where
  balance : Money
  entries : Nat

/-- The rows that the query of `page` returns.  A cursor's id is compared as a `uuid`. -/
def pageRows (db : Database) (wallet : Wallet) (limit : Nat) (after : Option LedgerCursor) :
    List WalletLedgerEntryRow :=
  Keyset.found WalletLedgerEntryRow.cursor LedgerCursor.lt (db.ledgerOf wallet.id) limit
    (after.map fun cursor => { cursor with id := uuidText cursor.id })

/-- `page`. -/
def ledgerPage (db : Database) (wallet : Wallet) (limit : Nat) (after : Option LedgerCursor) :
    Except DomainError LedgerPage := do
  let rows := pageRows db wallet limit after
  let entries ← (Keyset.page limit rows).mapM toLedgerEntry
  pure { entries, hasMore := Keyset.hasMore limit rows }

/-- `reconstructedMoney`. -/
def reconstructedMoney (amount currency : Text) : Except DomainError Money :=
  match amount with
  | 45 :: magnitude => do
    let money ← Money.from { amount := magnitude, currency }
    money.negate
  | amount => Money.from { amount, currency }

/-- `reconstructBalance`.  A table holds fewer rows than a number counts exactly,
so `Number.parseInt` reads `COUNT(*)::text` back as it is. -/
def reconstructBalance (db : Database) (wallet : Wallet) :
    Except DomainError ReconstructedBalance := do
  let rows := db.ledgerOf wallet.id
  let balance ← reconstructedMoney (netText rows) wallet.currency
  pure { balance, entries := digitsValue (decimal rows.length) }

/-! ## Transactions that read -/

/-- The calls of a transaction that only reads. -/
inductive ReadOp : Type
  | findWallet (id : Text)
  | page (wallet : Wallet) (limit : Nat) (after : Option LedgerCursor)
  | reconstructBalance (wallet : Wallet)

/-- What each call answers. -/
abbrev ReadOp.Answer : ReadOp → Type
  | .findWallet _ => Option Wallet
  | .page _ _ _ => LedgerPage
  | .reconstructBalance _ => ReconstructedBalance

/-- The repositories, as such a transaction sees them. -/
abbrev readPorts : Signature := ⟨ReadOp, ReadOp.Answer⟩

/-- Code that only reads. -/
abbrev ReadCode (α : Type) : Type := Program readPorts Failure α

/-- One call. -/
abbrev query (op : ReadOp) : ReadCode op.Answer := @Program.perform readPorts Failure op

/-- `wallets.findById`. -/
def findWalletById (db : Database) (id : Text) : Except Failure (Option Wallet) :=
  if !isUuid id then .error (.repository (.malformedText (utf16 "id")))
  else match db.walletById (uuidText id) with
    | none => .ok none
    | some row => (some <$> toWallet row).mapError .domain

/-- The snapshot answers a call, and stays as it is. -/
def snapshotAnswer (op : readPorts.Op) (db : Database) :
    Except Failure (readPorts.Answer op) × Database :=
  (match op with
    | .findWallet id => findWalletById db id
    | .page wallet limit after => (ledgerPage db wallet limit after).mapError .domain
    | .reconstructBalance wallet => (reconstructBalance db wallet).mapError .domain, db)

/-- `readOnly`: the result, and the tables afterwards. -/
def readOnly {α : Type} (work : ReadCode α) (db : Database) : Except Failure α × Database :=
  Program.serve snapshotAnswer work db

end Wagering
