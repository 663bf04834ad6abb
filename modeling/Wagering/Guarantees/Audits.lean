import Wagering.Guarantees.Balances
import Wagering.Guarantees.Reconciliation
import Wagering.Interface.Http

/-!
# Audits

`POST /wallets/:id/reconciliation` over every run of the service: it never raises
a false alarm, and a balance that somebody changed behind the ledger's back is
reported with the exact amount that is missing or too much.
-/

namespace Wagering

open Text Interleave

/-- The tables after a wallet's balance was overwritten. -/
def Database.overwriteBalance (db : Database) (walletId : Text) (balance : Int) : Database :=
  { db with
    wallets := Keyed.adjust WalletRow.id walletId (fun row => { row with balance }) db.wallets }

section Statements

variable [Platform] [Driver]

/-- What audits of a wallet report, whatever its balance was overwritten with. -/
structure Audits (w : Service) : Prop where
  reports : ∀ row ∈ w.shared.db.wallets, ∀ walletId, isUuid walletId = true →
    uuidText walletId = row.id → ∀ balance : Int, 0 ≤ balance → balance ≤ maxAbsolute →
    ∀ roles headers, AppRole.api ∈ roles →
    postReconciliation roles headers walletId (w.shared.db.overwriteBalance row.id balance) =
      answered headers.correlationId 200 (.report
        { walletId := row.id
          storedBalance := ⟨toFixed balance, row.currency⟩
          calculatedBalance := ⟨toFixed row.balance, row.currency⟩
          difference := ⟨toFixed (balance - row.balance), row.currency⟩
          consistent := balance = row.balance
          checkedEntries := (w.shared.db.ledgerOf row.id).length })
  kept : ∀ row ∈ w.shared.db.wallets,
    w.shared.db.overwriteBalance row.id row.balance = w.shared.db
  missing : ∀ walletId, isUuid walletId = true →
    w.shared.db.walletById (uuidText walletId) = none → ∀ roles headers, AppRole.api ∈ roles →
    (postReconciliation roles headers walletId w.shared.db).status = 404

end Statements

section Proofs

variable [Platform] {sh : Shared} {row : WalletRow} {walletId : Text} {balance : Int}

/-- The net of a wallet's entries is its balance. -/
theorem Sound.net_eq (hs : Sound sh) (hrow : row ∈ sh.db.wallets) :
    netCents (sh.db.ledgerOf row.id) = row.balance :=
  (hs.books.balanced hrow).sum.symm

/-- A balance in range leaves the row one that its table takes. -/
theorem overwritten_rules (hvalid : row.Valid) (hnonneg : 0 ≤ balance)
    (hlimit : balance ≤ maxAbsolute) :
    ∀ rule ∈ walletRules { row with balance }, rule.holds = true := by
  have hrules := hvalid.rules
  simp only [walletRules, List.forall_mem_cons] at hrules ⊢
  obtain ⟨h1, h2, h3, -, h5, h6, h7, -, h9⟩ := hrules
  refine ⟨h1, h2, h3, ?_, h5, h6, h7, ?_, h9⟩
  · simp only [moneyRule, decide_eq_true_eq]
    omega
  · simpa [check] using hnonneg

/-- The row that an audit of the overwritten tables reads. -/
theorem Sound.overwritten (hs : Sound sh) (hrow : row ∈ sh.db.wallets) :
    (sh.db.overwriteBalance row.id balance).walletById row.id = some { row with balance } := by
  have hdistinct := hs.books.walletIds.adjust (f := fun row => { row with balance }) (k := row.id)
    fun _ => rfl
  refine hdistinct.lookup (x := { row with balance }) (Keyed.mem_adjust.mpr ?_)
  exact .inl ⟨row, hrow, rfl, rfl⟩

/-- The values of `Money` hold the report of an overwritten wallet. -/
theorem Sound.overwritten_difference (hs : Sound sh) (hrow : row ∈ sh.db.wallets)
    (hnonneg : 0 ≤ balance) (hlimit : balance ≤ maxAbsolute) :
    (balance - netCents (sh.db.ledgerOf row.id)).natAbs ≤ maxAbsolute := by
  have right := hs.books.balanced hrow
  have hbelow := right.nonneg
  have habove := right.limit
  rw [hs.net_eq hrow]
  omega

/-- An audit of overwritten tables reports the wallet exactly. -/
theorem Sound.audit (hs : Sound sh) (hrow : row ∈ sh.db.wallets) (hid : isUuid walletId = true)
    (hwallet : uuidText walletId = row.id) (hnonneg : 0 ≤ balance)
    (hlimit : balance ≤ maxAbsolute) :
    (readOnly (reconcileWallet walletId) (sh.db.overwriteBalance row.id balance)).1 =
      .ok (exactReport { row with balance } (sh.db.ledgerOf row.id)) := by
  have hiso := (hs.wallets row hrow).isoCurrency
  have hlookup : (sh.db.overwriteBalance row.id balance).walletById (uuidText walletId) =
      some { row with balance } := hwallet.symm ▸ hs.overwritten hrow
  obtain ⟨w, hw, hwid, hcurrency, hcents, hbalance⟩ :=
    toWallet_of_rules (overwritten_rules (hs.wallets row hrow) hnonneg hlimit) hiso
  have hnet : (netCents (sh.db.ledgerOf row.id)).natAbs ≤ maxAbsolute := by
    rw [hs.net_eq hrow]
    exact (hs.books.wallets row hrow).inRange
  have hdifference := hs.overwritten_difference hrow hnonneg hlimit
  have hreconstructed : reconstructBalance (sh.db.overwriteBalance row.id balance) w =
      .ok ⟨⟨netCents (sh.db.ledgerOf row.id), row.currency, hnet, hiso⟩,
        (sh.db.ledgerOf row.id).length⟩ := by
    rw [reconstructBalance_eq, hwid, hcurrency]
    change (reconstructedMoney (netText (sh.db.ledgerOf row.id)) row.currency).map _ = _
    rw [reconstructed_ok hiso hnet]
    rfl
  have hsubtract : w.balance.subtract
      ⟨netCents (sh.db.ledgerOf row.id), row.currency, hnet, hiso⟩ =
      .ok ⟨balance - netCents (sh.db.ledgerOf row.id), row.currency, hdifference, hiso⟩ := by
    simp [Money.subtract, Money.assertSameCurrency, Money.of, hbalance, hcents, hdifference, bind,
      Except.bind]
  have hzero : (balance - netCents (sh.db.ledgerOf row.id) = 0) ↔
      balance = netCents (sh.db.ledgerOf row.id) := Int.sub_eq_zero
  rw [readOnly_reconcile hid hlookup hw, hreconstructed]
  simp only [Except.mapError, hsubtract, exactReport, Money.toJSON, Money.toString, Money.isZero,
    hwid, hcents, hbalance, hzero]

theorem Sound.overwriteBalance_same (hs : Sound sh) (hrow : row ∈ sh.db.wallets) :
    sh.db.overwriteBalance row.id row.balance = sh.db := by
  have hsame : Keyed.adjust WalletRow.id row.id (fun r => { r with balance := row.balance })
      sh.db.wallets = sh.db.wallets := by
    unfold Keyed.adjust
    refine (List.map_congr_left fun r hr => ?_).trans (List.map_id _)
    split
    · rw [hs.books.walletIds.eq_of_key hr hrow ‹_›]
      rfl
    · rfl
  unfold Database.overwriteBalance
  rw [hsame]

variable [Driver] {w : Service}

/-- Over every run of the service an audit reports what is there, and nothing else. -/
theorem Reachable.audits (h : Reachable w) : Audits w where
  reports := fun row hrow walletId hid hwallet balance hnonneg hlimit roles headers hrole => by
    have hs := h.sound.inv
    unfold postReconciliation readReconciliation canActivate
    rw [if_pos hrole]
    simp only [requireUuid, hid, if_true]
    change respond _ _ _
      (readOnly (reconcileWallet walletId) (w.shared.db.overwriteBalance row.id balance)).1 = _
    rw [hs.audit hrow hid hwallet hnonneg hlimit, exactReport, hs.net_eq hrow]
    rfl
  kept := fun row hrow => h.sound.inv.overwriteBalance_same hrow
  missing := fun walletId hid hnone roles headers hrole => by
    have hfind : snapshotAnswer (.findWallet walletId) w.shared.db = (.ok none, w.shared.db) := by
      simp [snapshotAnswer, findWalletById, hid, hnone]
    unfold postReconciliation readReconciliation canActivate
    rw [if_pos hrole]
    simp only [requireUuid, hid, if_true]
    change (respond _ _ _ (readOnly (reconcileWallet walletId) w.shared.db).1).status = _
    unfold readOnly reconcileWallet
    rw [Program.perform_bind_eq, Program.serve_call hfind]
    rfl

end Proofs

theorem sample_audits : @Audits samplePlatform sampleDriver sampleService :=
  @Reachable.audits samplePlatform sampleDriver sampleService sample_reachable

end Wagering
