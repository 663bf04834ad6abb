import Wagering.Application.ReconcileWallet
import Wagering.Correctness.Service

/-!
# Reconciliation

The net of the ledger is exact whatever the turnover, but the report holds it as
`Money`.  So a wallet is reported on exactly when its net and its difference
from the stored balance fit into the range of `Money`.
-/

namespace Wagering

open Text Interleave

section Statements

variable [Platform] {db : Database} {row : WalletRow} {rows : List WalletLedgerEntryRow}
  {currency : Text}

/-! ## The net as money -/

theorem reconstructedMoney_nonneg (cents : Nat) :
    reconstructedMoney (toFixed cents) currency = Money.from ⟨toFixed cents, currency⟩ := by
  unfold reconstructedMoney
  split
  · exact absurd ‹_› (toFixed_unsigned cents _)
  · rfl

theorem reconstructedMoney_neg {cents : Nat} (h : 0 < cents) :
    reconstructedMoney (toFixed (-cents)) currency =
      Money.from ⟨toFixed cents, currency⟩ >>= Money.negate := by
  rw [toFixed_neg h]
  rfl

/-- The text of an empty ledger is read as zero. -/
theorem reconstructedMoney_zero (hiso : isIsoCurrency currency = true) :
    reconstructedMoney (utf16 "0") currency = .ok ⟨0, currency, by decide, hiso⟩ := by
  have hmatch : matchAmount (utf16 "0") = some (false, [48], []) := by decide
  have hzero : hundredths [48] [] = 0 := by decide
  show Money.from ⟨utf16 "0", currency⟩ = _
  simp only [Money.from, Money.assertCurrency_ok hiso, hmatch, hzero, bind, Except.bind]
  rfl

theorem iso_of_from {amount : Text} {m : Money} (h : Money.from ⟨amount, currency⟩ = .ok m) :
    isIsoCurrency currency = true := by
  have hiso := m.isoCurrency
  rwa [(Money.from_spec h).2] at hiso

/-- What `reconstructedMoney` reads from the net is the net. -/
theorem cents_of_reconstructed {m : Money}
    (h : reconstructedMoney (netText rows) currency = .ok m) :
    m.cents = netCents rows := by
  cases rows with
  | nil =>
    have hiso : isIsoCurrency currency = true := iso_of_from (show Money.from _ = .ok m from h)
    rw [show netText [] = utf16 "0" from rfl, reconstructedMoney_zero hiso] at h
    cases h
    rfl
  | cons row rows =>
    rw [show netText (row :: rows) = toFixed (netCents (row :: rows)) from rfl] at h
    rcases Int.lt_or_le (netCents (row :: rows)) 0 with hneg | hnonneg
    · obtain ⟨n, hn⟩ : ∃ n : Nat, netCents (row :: rows) = -n :=
        ⟨_, Int.eq_neg_natAbs_of_nonpos hneg.le⟩
      rw [hn, reconstructedMoney_neg (by omega)] at h
      obtain ⟨m', hm', h⟩ := bind_ok h
      have hcents := Money.cents_of_from_toFixed hm'
      unfold Money.negate Money.of at h
      split at h
      · cases h
        show -m'.cents = _
        omega
      · cases h
    · obtain ⟨n, hn⟩ := Int.eq_ofNat_of_zero_le hnonneg
      rw [hn, reconstructedMoney_nonneg] at h
      rw [Money.cents_of_from_toFixed h, hn]

/-- A net in the range of `Money` is read. -/
theorem reconstructed_ok (hiso : isIsoCurrency currency = true)
    (hnet : (netCents rows).natAbs ≤ maxAbsolute) :
    reconstructedMoney (netText rows) currency = .ok ⟨netCents rows, currency, hnet, hiso⟩ := by
  cases rows with
  | nil => exact reconstructedMoney_zero hiso
  | cons row rows =>
    rw [show netText (row :: rows) = toFixed (netCents (row :: rows)) from rfl]
    rcases Int.lt_or_le (netCents (row :: rows)) 0 with hneg | hnonneg
    · obtain ⟨n, hn⟩ : ∃ n : Nat, netCents (row :: rows) = -n :=
        ⟨_, Int.eq_neg_natAbs_of_nonpos hneg.le⟩
      simp only [hn] at hnet ⊢
      rw [reconstructedMoney_neg (by omega),
        Money.from_toFixed (Int.natCast_nonneg n) (by omega) hiso]
      show Money.of (-n) _ = _
      rw [Money.of, dif_pos hnet]
    · obtain ⟨n, hn⟩ := Int.eq_ofNat_of_zero_le hnonneg
      have hfrom := Money.from_toFixed hnonneg hnet hiso
      rw [← hfrom, hn, reconstructedMoney_nonneg]

/-! ## The report -/

/-- What a report must say of a wallet row and its ledger rows. -/
def exactReport (row : WalletRow) (rows : List WalletLedgerEntryRow) : ReconciliationReport where
  walletId := row.id
  storedBalance := ⟨toFixed row.balance, row.currency⟩
  calculatedBalance := ⟨toFixed (netCents rows), row.currency⟩
  difference := ⟨toFixed (row.balance - netCents rows), row.currency⟩
  consistent := row.balance = netCents rows
  checkedEntries := rows.length

/-- The request is answered with the exact report, and no row changes. -/
def Reports (db : Database) (walletId : Text) (row : WalletRow) : Prop :=
  readOnly (reconcileWallet walletId) db = (.ok (exactReport row (db.ledgerOf row.id)), db)

/-- The request for a wallet that is there, once the wallet has been read. -/
theorem readOnly_reconcile {walletId : Text} {w : Wallet} (hid : isUuid walletId = true)
    (hrow : db.walletById (uuidText walletId) = some row) (hw : toWallet row = .ok w) :
    readOnly (reconcileWallet walletId) db =
      ((match (reconstructBalance db w).mapError Failure.domain with
        | .error e => .error e
        | .ok reconstructed => match w.balance.subtract reconstructed.balance with
          | .error e => .error (.domain e)
          | .ok difference => .ok
              { walletId := w.id
                storedBalance := w.balance.toJSON
                calculatedBalance := reconstructed.balance.toJSON
                difference := difference.toJSON
                consistent := difference.isZero
                checkedEntries := reconstructed.entries }), db) := by
  have hfind : snapshotAnswer (.findWallet walletId) db = (.ok (some w), db) := by
    simp [snapshotAnswer, findWalletById, hid, hrow, hw, Except.mapError]
  unfold readOnly reconcileWallet
  rw [Program.perform_bind_eq, Program.serve_call hfind]
  cases hbalance : (reconstructBalance db w).mapError Failure.domain with
  | error e =>
    have hread : snapshotAnswer (.reconstructBalance w) db = (.error e, db) := by
      simp [snapshotAnswer, hbalance]
    show Program.serve snapshotAnswer (.call (.reconstructBalance w) _) db = _
    rw [Program.serve, hread]
  | ok reconstructed =>
    have hread : snapshotAnswer (.reconstructBalance w) db = (.ok reconstructed, db) := by
      simp [snapshotAnswer, hbalance]
    show Program.serve snapshotAnswer (.call (.reconstructBalance w) _) db = _
    rw [Program.serve_call hread]
    cases hdifference : w.balance.subtract reconstructed.balance with
    | error e =>
      simp only [Program.bind, hdifference]
      rfl
    | ok difference =>
      simp only [Program.bind, hdifference]
      rfl

theorem reconstructBalance_eq {w : Wallet} :
    reconstructBalance db w =
      (reconstructedMoney (netText (db.ledgerOf w.id)) w.currency).map fun balance =>
        ⟨balance, (db.ledgerOf w.id).length⟩ := by
  simp only [reconstructBalance, digitsValue_decimal]
  cases reconstructedMoney (netText (db.ledgerOf w.id)) w.currency <;> rfl

/-- The values of `Money` can hold the report of the wallet. -/
structure Reportable (db : Database) (row : WalletRow) : Prop where
  isoCurrency : isIsoCurrency row.currency = true
  net : (netCents (db.ledgerOf row.id)).natAbs ≤ maxAbsolute
  difference : (row.balance - netCents (db.ledgerOf row.id)).natAbs ≤ maxAbsolute

/-- A wallet that was reported on has a currency that the runtime knows. -/
theorem iso_of_reports {walletId : Text} (hid : isUuid walletId = true)
    (hrow : db.walletById (uuidText walletId) = some row) (h : Reports db walletId row) :
    isIsoCurrency row.currency = true := by
  cases hmoney : moneyColumn row.balance row.currency with
  | ok m => exact iso_of_from hmoney
  | error e =>
    have hfind : snapshotAnswer (.findWallet walletId) db = (.error (.domain e), db) := by
      simp [snapshotAnswer, findWalletById, hid, hrow, toWallet, hmoney, bind, Except.bind,
        Except.mapError]
    have hread : readOnly (reconcileWallet walletId) db = (.error (.domain e), db) := by
      unfold readOnly reconcileWallet
      rw [Program.perform_bind_eq, Program.serve, hfind]
    rw [Reports, hread] at h
    cases h

/-- A wallet is reported on, exactly and without a change, when its net and its
difference from the stored balance fit into `Money`, and only then. -/
theorem reconcileWallet_reports_iff (db : Database) (walletId : Text) (row : WalletRow)
    (hid : isUuid walletId = true) (hrow : db.walletById (uuidText walletId) = some row)
    (hrules : ∀ rule ∈ walletRules row, rule.holds = true) :
    Reports db walletId row ↔ Reportable db row := by
  constructor
  · intro hreports
    have hiso := iso_of_reports hid hrow hreports
    obtain ⟨w, hw, hwid, hcurrency, hcents, hbalance⟩ := toWallet_of_rules hrules hiso
    rw [Reports, readOnly_reconcile hid hrow hw, reconstructBalance_eq, hwid, hcurrency]
      at hreports
    replace hreports := (Prod.mk.inj hreports).1
    cases hread : reconstructedMoney (netText (db.ledgerOf row.id)) row.currency with
    | error e =>
      rw [hread] at hreports
      cases hreports
    | ok m =>
      have hnet := cents_of_reconstructed hread
      simp only [hread, Except.map, Except.mapError] at hreports
      cases hdifference : w.balance.subtract m with
      | error e =>
        rw [hdifference] at hreports
        cases hreports
      | ok difference =>
        obtain ⟨-, -, hof⟩ := bind_ok hdifference
        refine ⟨hiso, hnet ▸ m.inRange, ?_⟩
        rw [← hnet, ← hcents]
        unfold Money.of at hof
        split at hof
        · assumption
        · cases hof
  · intro h
    obtain ⟨w, hw, hwid, hcurrency, hcents, hbalance⟩ := toWallet_of_rules hrules h.isoCurrency
    rw [Reports, readOnly_reconcile hid hrow hw, reconstructBalance_eq, hwid, hcurrency,
      reconstructed_ok h.isoCurrency h.net]
    have hdifference : w.balance.subtract ⟨netCents (db.ledgerOf row.id), row.currency, h.net,
        h.isoCurrency⟩ = .ok ⟨row.balance - netCents (db.ledgerOf row.id), row.currency,
        h.difference, h.isoCurrency⟩ := by
      simp [Money.subtract, Money.assertSameCurrency, Money.of, hbalance, hcents, h.difference,
        bind, Except.bind]
    have hzero : (row.balance - netCents (db.ledgerOf row.id) = 0) ↔
        row.balance = netCents (db.ledgerOf row.id) := Int.sub_eq_zero
    simp only [Except.map, Except.mapError, hdifference, exactReport, Money.toJSON, Money.toString,
      Money.isZero, hcents, hbalance, hzero]

end Statements

/-! ## Ledgers that were tampered with -/

local instance ledgerPlatform : Platform := samplePlatform

/-- A wallet whose balance was emptied behind the ledger's back. -/
def emptiedWallet : WalletRow :=
  ⟨sampleId 1, utf16 "p1", utf16 "BRL", 0, 1, 1000, 1000⟩

/-- A credit of that wallet, from an empty balance. -/
def sampleCredit (n : Nat) (amount : Int) : WalletLedgerEntryRow :=
  ⟨sampleId n, sampleId 1, sampleId (n + 1), .credit, amount, utf16 "BRL", 0, amount, 1000⟩

/-- The tables with these credits of the wallet. -/
def tampered (amounts : List Int) : Database :=
  { Database.empty with
    wallets := [emptiedWallet]
    ledger := amounts.mapIdx fun n amount => sampleCredit (2 * n + 2) amount }

/-- A divergence within the range is reported as it is. -/
theorem tampered_reports : Reports (tampered [1000, 250]) (sampleId 1) emptiedWallet :=
  (reconcileWallet_reports_iff (tampered [1000, 250]) (sampleId 1) emptiedWallet (by decide)
    (by decide) (by decide)).mpr ⟨by decide, by decide, by decide⟩

/-- Two credits of the largest amount make the request fail. -/
theorem tampered_fails : ¬ ∀ (db : Database) (walletId : Text) (row : WalletRow),
    isUuid walletId = true → db.walletById (uuidText walletId) = some row →
    (∀ rule ∈ walletRules row, rule.holds = true) → isIsoCurrency row.currency = true →
    (∀ entry ∈ db.ledgerOf row.id, ∀ rule ∈ ledgerRules entry, rule.holds = true) →
    Reports db walletId row := by
  intro h
  have hreports := h (tampered [maxAbsolute, maxAbsolute]) (sampleId 1) emptiedWallet (by decide)
    (by decide) (by decide) (by decide) (by decide)
  have hok : (readOnly (reconcileWallet (sampleId 1)) (tampered [maxAbsolute, maxAbsolute])).1.isOk =
      false := by
    decide +kernel
  rw [hreports] at hok
  cases hok

end Wagering
