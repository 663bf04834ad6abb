import Wagering.Guarantees.Transitions
import Wagering.Persistence.Ledger

/-!
# Storage

A use case creates a transaction object, inserts it while it is PENDING, and
writes nine columns after each transition.  The row always holds the whole
object (`Kept.whole`), so whoever loads it gets the object back.  Wallets and
entries come back from their rows as well.
-/

namespace Wagering

open Objects TransactionObject

section Statements

variable [Platform]

/-! ## What the domain produces -/

/-- A wallet that was opened, and then moved and read back any number of times. -/
inductive Wallet.Produced : Wallet → Prop
  | opened {id playerId : Text} {initialBalance : Money} {at_ : Instant}
      {entryId transactionId : Text} {opening : WalletOpening}
      (h : Wallet.open id playerId initialBalance at_ entryId transactionId = .ok opening) :
      Produced opening.wallet
  | moved {w w' : Wallet} {direction : LedgerDirection} {props : MovementProps}
      {entry : WalletLedgerEntry} (hw : Produced w)
      (h : w.move direction props = .ok (entry, w')) : Produced w'
  | reread {w w' : Wallet} (hw : Produced w) (h : toWallet (toWalletRow w).stored = .ok w') :
      Produced w'

/-- An entry that `create` let through.  Those of `open`, `credit` and `debit` are
(`open_produced`, `move_produced`). -/
inductive WalletLedgerEntry.Produced : WalletLedgerEntry → Prop
  | created {props entry : WalletLedgerEntry} (h : WalletLedgerEntry.create props = .ok entry) :
      Produced entry

/-- The result balances that a call sets. -/
def TransactionObject.Call.balances : Call → List Money
  | .markProcessed _ balance _ | .markPendingReference balance _ _ | .fail balance _ => [balance]
  | .reject _ balance _ => balance.toList
  | .scheduleRetry _ => []

/-- The object that a use case works with, and the row of its transaction. -/
inductive WagerTransaction.Kept : WagerTransaction → WagerTransactionRow → Prop
  /-- Inserted into columns that keep every text. -/
  | inserted {t : WagerTransaction} (h : t.Made) : Kept t (toWagerTransactionRow t)
  /-- Inserted into the columns of the server; the use case goes on with the row
  that the insertion returned. -/
  | reserved {made t : WagerTransaction} (h : made.Made)
      (hread : toWagerTransaction (toWagerTransactionRow made).stored = .ok t) :
      Kept t (toWagerTransactionRow made).stored
  /-- A transition, and the `update` after it; the balance is that of a wallet. -/
  | updated {t t' : WagerTransaction} {row : WagerTransactionRow} {call : Call} (h : Kept t row)
      (hcall : call.method t = (.ok (), t'))
      (hbalances : ∀ m ∈ call.balances, ∃ w : Wallet, w.Produced ∧ w.balance = m) :
      Kept t' ((toWagerTransactionRow t').set row)
  /-- Another use case loads the row. -/
  | loaded {t t' : WagerTransaction} {row : WagerTransactionRow} (h : Kept t row)
      (hread : toWagerTransaction row = .ok t') : Kept t' row

/-! ## Wallets and entries -/

theorem cents_of_moneyColumn {cents : Int} {currency : Text} {m : Money} (hcents : 0 ≤ cents)
    (h : moneyColumn cents currency = .ok m) : m.cents = cents ∧ m.currency = currency := by
  obtain ⟨n, rfl⟩ := Int.eq_ofNat_of_zero_le hcents
  exact ⟨Money.cents_of_from_toFixed h, (Money.from_spec h).2⟩

theorem Money.assertSameCurrency_ok {m other : Money} {u : Unit}
    (h : m.assertSameCurrency other = .ok u) : m.currency = other.currency := by
  unfold Money.assertSameCurrency at h
  split at h
  · assumption
  · cases h

theorem Money.of_ok {cents : Int} {like m : Money} (h : Money.of cents like = .ok m) :
    m.cents = cents ∧ m.currency = like.currency := by
  unfold Money.of at h
  split at h
  · cases h
    exact ⟨rfl, rfl⟩
  · cases h

/-- The check of the arithmetic goes through only within one currency. -/
theorem WalletLedgerEntry.isBalanced_ok {entry : WalletLedgerEntry} {balanced : Bool}
    (h : entry.isBalanced = .ok balanced) : entry.balanceBefore.currency = entry.money.currency ∧
      entry.balanceAfter.currency = entry.money.currency := by
  have hcase : ∀ {moved : Except DomainError Money},
      (moved >>= fun expected => expected.equals entry.balanceAfter) = .ok balanced →
      (∀ m, moved = .ok m → entry.balanceBefore.currency = entry.money.currency ∧
        m.currency = entry.balanceBefore.currency) →
      entry.balanceBefore.currency = entry.money.currency ∧
        entry.balanceAfter.currency = entry.money.currency := by
    intro moved h hmoved
    obtain ⟨expected, hexpected, h⟩ := bind_ok h
    obtain ⟨u, hafter, -⟩ := bind_ok h
    obtain ⟨hbefore, hsame⟩ := hmoved expected hexpected
    exact ⟨hbefore, by rw [← Money.assertSameCurrency_ok hafter, hsame, hbefore]⟩
  unfold WalletLedgerEntry.isBalanced at h
  split at h
  · refine hcase h fun m hm => ?_
    obtain ⟨v, hsame, hof⟩ := bind_ok hm
    exact ⟨Money.assertSameCurrency_ok hsame, (Money.of_ok hof).2⟩
  · refine hcase h fun m hm => ?_
    obtain ⟨v, hsame, hof⟩ := bind_ok hm
    exact ⟨Money.assertSameCurrency_ok hsame, (Money.of_ok hof).2⟩

theorem WalletLedgerEntry.create_ok {props entry : WalletLedgerEntry}
    (h : WalletLedgerEntry.create props = .ok entry) :
    entry = props ∧ 0 < props.money.cents ∧ 0 ≤ props.balanceBefore.cents ∧
      0 ≤ props.balanceAfter.cents ∧ props.balanceBefore.currency = props.money.currency ∧
      props.balanceAfter.currency = props.money.currency := by
  unfold WalletLedgerEntry.create at h
  split at h
  · cases h
  · rename_i hpositive
    split at h
    · cases h
    · rename_i hnegative
      obtain ⟨balanced, hbalanced, h⟩ := bind_ok h
      split at h
      · cases h
        simp only [Money.isPositive, Money.isNegative, Bool.not_eq_true', Bool.or_eq_true,
          decide_eq_true_eq, decide_eq_false_iff_not, not_or, Int.not_lt] at hpositive hnegative
        exact ⟨rfl, Int.not_le.mp hpositive, hnegative.1, hnegative.2,
          WalletLedgerEntry.isBalanced_ok hbalanced⟩
      · cases h

/-- An entry comes back from its row. -/
theorem WalletLedgerEntry.Produced.restored {entry : WalletLedgerEntry} (h : entry.Produced) :
    toLedgerEntry (toLedgerEntryRow entry) = .ok entry := by
  cases h with
  | created h =>
    obtain ⟨rfl, hpositive, hbefore, hafter, hcurrency, hcurrency'⟩ :=
      WalletLedgerEntry.create_ok h
    have hmoney := moneyColumn_eq entry.money hpositive.le
    have hb : moneyColumn entry.balanceBefore.cents entry.money.currency =
        .ok entry.balanceBefore := hcurrency ▸ moneyColumn_eq entry.balanceBefore hbefore
    have ha : moneyColumn entry.balanceAfter.cents entry.money.currency =
        .ok entry.balanceAfter := hcurrency' ▸ moneyColumn_eq entry.balanceAfter hafter
    simp [toLedgerEntry, toLedgerEntryRow, hmoney, hb, ha, bind, Except.bind, pure, Except.pure]

theorem open_ok {id playerId : Text} {initialBalance : Money} {at_ : Instant}
    {entryId transactionId : Text} {opening : WalletOpening}
    (h : Wallet.open id playerId initialBalance at_ entryId transactionId = .ok opening) :
    opening.wallet.Storable ∧ ∀ entry, opening.openingEntry = some entry → entry.Produced := by
  unfold Wallet.open at h
  split at h
  · cases h
  · rename_i hnegative
    have hstorable : 0 ≤ initialBalance.cents := by
      simpa [Money.isNegative] using hnegative
    split at h
    · cases h
      exact ⟨⟨rfl, hstorable⟩, fun entry hentry => by cases hentry⟩
    · obtain ⟨zero, -, h⟩ := bind_ok h
      obtain ⟨entry, hentry, h⟩ := bind_ok h
      cases h
      exact ⟨⟨rfl, hstorable⟩, fun entry' hentry' => by cases hentry'; exact .created hentry⟩

theorem apply_ok {w w' : Wallet} {direction : LedgerDirection} {balanceAfter : Money}
    {props : MovementProps} {entry : WalletLedgerEntry} (hw : w.Storable)
    (h : w.apply direction balanceAfter props = .ok (entry, w')) :
    w'.Storable ∧ entry.Produced ∧ SameWallet (toWalletRow w) (toWalletRow w') := by
  obtain ⟨created, hcreate, h⟩ := bind_ok h
  cases h
  obtain ⟨-, -, -, hafter, hbefore, hcurrency⟩ := WalletLedgerEntry.create_ok hcreate
  exact ⟨⟨hcurrency.trans (hbefore.symm.trans hw.currency), hafter⟩, .created hcreate,
    ⟨rfl, rfl, rfl, rfl⟩⟩

/-- A movement leaves a wallet that a row can hold, and an entry. -/
theorem Wallet.Storable.move {w w' : Wallet} {direction : LedgerDirection}
    {props : MovementProps} {entry : WalletLedgerEntry} (hw : w.Storable)
    (h : w.move direction props = .ok (entry, w')) :
    w'.Storable ∧ entry.Produced ∧ SameWallet (toWalletRow w) (toWalletRow w') := by
  cases direction with
  | credit =>
    obtain ⟨-, -, h⟩ := bind_ok h
    obtain ⟨balanceAfter, -, h⟩ := bind_ok h
    exact apply_ok hw h
  | debit =>
    obtain ⟨-, -, h⟩ := bind_ok h
    obtain ⟨enough, -, h⟩ := bind_ok h
    cases enough with
    | false => cases h
    | true =>
      obtain ⟨balanceAfter, -, h⟩ := bind_ok h
      exact apply_ok hw h

/-- What is read from a row can be stored. -/
theorem toWallet_storable {row : WalletRow} {w : Wallet} (h : toWallet row = .ok w) :
    w.Storable := by
  obtain ⟨balance, hbalance, h⟩ := bind_ok h
  cases h
  exact ⟨(Money.from_spec hbalance).2, (Money.from_spec hbalance).1⟩

theorem Wallet.Produced.storable {w : Wallet} (h : w.Produced) : w.Storable := by
  induction h with
  | opened h => exact (open_ok h).1
  | moved _ h ih => exact (ih.move h).1
  | reread _ h => exact toWallet_storable h

/-- The entries of a wallet that is opened or moved are produced. -/
theorem Wallet.Produced.entry {w w' : Wallet} {direction : LedgerDirection}
    {props : MovementProps} {entry : WalletLedgerEntry} (hw : w.Produced)
    (h : w.move direction props = .ok (entry, w')) : entry.Produced :=
  (hw.storable.move h).2.1

/-! ## Transactions -/

theorem toWagerTransactionRow_of_read {row : WagerTransactionRow} {t : WagerTransaction}
    (hamount : 0 < row.amount) (hresult : row.resultBalanceAmount = none)
    (hcurrency : row.resultBalanceCurrency = none) (h : toWagerTransaction row = .ok t) :
    toWagerTransactionRow t = row ∧ t.Storable := by
  simp only [toWagerTransaction, hresult] at h
  obtain ⟨balance, hbalance, h⟩ := bind_ok h
  obtain ⟨money, hmoney, h⟩ := bind_ok h
  replace hbalance : Except.ok none = Except.ok balance := hbalance
  cases hbalance
  obtain ⟨hcents, hcur⟩ := cents_of_moneyColumn hamount.le hmoney
  cases h
  refine ⟨?_, hcents ▸ hamount, fun balance hb => by cases hb⟩
  cases row
  simp_all [toWagerTransactionRow]

/-- A transaction that was made has no result yet. -/
theorem WagerTransaction.Made.storable {t : WagerTransaction} (h : t.Made) :
    t.Storable ∧ t.resultBalance = none := by
  have hreserve : ∃ props, WagerTransaction.reserve props = .ok t := by
    cases h with
    | created h => exact ⟨_, (create_ok h).2.2⟩
    | opening h => exact ⟨_, h⟩
  obtain ⟨props, hreserve⟩ := hreserve
  obtain ⟨-, hpositive, rfl⟩ := reserve_ok hreserve
  exact ⟨⟨hpositive, fun balance hb => by cases hb⟩, rfl⟩

/-- A transition changes nothing but the columns that `update` writes, and leaves
an object that a row can hold. -/
theorem TransactionObject.Call.Does.stored {call : Call} {t t' : WagerTransaction}
    (h : call.Does t t') (ht : t.Storable) (hbalances : ∀ m ∈ call.balances, 0 ≤ m.cents) :
    t'.Storable ∧ SameIdentity (toWagerTransactionRow t) (toWagerTransactionRow t') := by
  have hpositive := ht.positive
  cases h with
  | processed reference balance at_ hstatus =>
    refine ⟨⟨hpositive, fun m hm => ?_⟩, by constructor <;> rfl⟩
    cases hm
    exact hbalances balance (List.mem_singleton.mpr rfl)
  | waits balance next expires hstatus hkind =>
    refine ⟨⟨hpositive, fun m hm => ?_⟩, by constructor <;> rfl⟩
    cases hm
    exact hbalances balance (List.mem_singleton.mpr rfl)
  | rejected code balance at_ hstatus hcode hbalance =>
    exact ⟨⟨hpositive, fun m hm => hbalances m (Option.mem_toList.mpr hm)⟩,
      by constructor <;> rfl⟩
  | failed balance at_ hstatus =>
    refine ⟨⟨hpositive, fun m hm => ?_⟩, by constructor <;> rfl⟩
    cases hm
    exact hbalances balance (List.mem_singleton.mpr rfl)
  | retried next hstatus =>
    exact ⟨⟨hpositive, ht.nonneg⟩, by constructor <;> rfl⟩

/-- The row holds the whole object, and the object is one that it can hold. -/
theorem WagerTransaction.Kept.whole {t : WagerTransaction} {row : WagerTransactionRow}
    (h : t.Kept row) : row = toWagerTransactionRow t ∧ t.Storable := by
  induction h with
  | inserted h => exact ⟨rfl, h.storable.1⟩
  | reserved h hread =>
    obtain ⟨hstorable, hnone⟩ := h.storable
    obtain ⟨hrow, ht⟩ := toWagerTransactionRow_of_read hstorable.positive
      (by simp [WagerTransactionRow.stored, toWagerTransactionRow, hnone])
      (by simp [WagerTransactionRow.stored, toWagerTransactionRow, hnone]) hread
    exact ⟨hrow.symm, ht⟩
  | @updated t t' row call _ hcall hbalances ih =>
    obtain ⟨rfl, ht⟩ := ih
    rcases call.cases t with ⟨e, herror⟩ | ⟨t'', hok, hdoes⟩
    · rw [herror] at hcall
      cases (Prod.mk.inj hcall).1
    · obtain rfl : t'' = t' := (Prod.mk.inj (hok.symm.trans hcall)).2
      obtain ⟨ht', hsame⟩ := hdoes.stored ht fun m hm => by
        obtain ⟨w, hw, rfl⟩ := hbalances m hm
        exact hw.storable.nonneg
      exact ⟨hsame.set_eq, ht'⟩
  | loaded _ hread ih =>
    obtain ⟨rfl, ht⟩ := ih
    rw [toWagerTransaction_toWagerTransactionRow ht] at hread
    cases hread
    exact ⟨rfl, ht⟩

/-- Whatever transitions a transaction goes through, its row is read as the object
itself; and so are the rows of wallets, also after an `update`, and of entries. -/
theorem persistence_lossless :
    (∀ (t : WagerTransaction) (row : WagerTransactionRow), t.Kept row →
      toWagerTransaction row = .ok t) ∧
    (∀ w : Wallet, w.Produced → toWallet (toWalletRow w) = .ok w) ∧
    (∀ (w w' : Wallet) (direction : LedgerDirection) (props : MovementProps)
      (entry : WalletLedgerEntry), w.Produced → w.move direction props = .ok (entry, w') →
      toWallet ((toWalletRow w').set (toWalletRow w)) = .ok w') ∧
    (∀ entry : WalletLedgerEntry, entry.Produced →
      toLedgerEntry (toLedgerEntryRow entry) = .ok entry) := by
  refine ⟨fun t row h => ?_, fun w hw => toWallet_toWalletRow hw.storable,
    fun w w' direction props entry hw h => ?_, fun entry h => h.restored⟩
  · obtain ⟨rfl, ht⟩ := h.whole
    exact toWagerTransaction_toWagerTransactionRow ht
  · obtain ⟨hstorable, -, hsame⟩ := hw.storable.move h
    rw [hsame.set_eq]
    exact toWallet_toWalletRow hstorable

/-- In every reachable state each transaction can be loaded, and its row holds all of it. -/
theorem Reachable.transaction_loads [Driver] {w : Service} (h : Reachable w)
    {row : WagerTransactionRow} (hrow : row ∈ w.shared.db.wagers) :
    ∃ t, toWagerTransaction row = .ok t ∧ toWagerTransactionRow t = row := by
  obtain ⟨t, hload, hback, -⟩ := (h.sound.inv.wagers row hrow).load
  exact ⟨t, hload, hback⟩

end Statements

/-! ## A refund that waits -/

local instance storagePlatform : Platform := samplePlatform

def fiftyReais : Money := ⟨5000, utf16 "BRL", by decide, by decide +kernel⟩

/-- A refund that waited and was tried again, its wallet and the wallet's first entry. -/
theorem refund_restored :
    (∃ (t : WagerTransaction) (row : WagerTransactionRow), t.attempts = 1 ∧
      t.resultBalance = some fiftyReais ∧ toWagerTransaction row = .ok t) ∧
    (∃ w : Wallet, w.balance = fiftyReais ∧ toWallet (toWalletRow w) = .ok w) ∧
    ∃ entry : WalletLedgerEntry, entry.balanceAfter = fiftyReais ∧
      toLedgerEntry (toLedgerEntryRow entry) = .ok entry := by
  obtain ⟨zero, -, -, hopen⟩ := Wallet.open_eq (show 0 ≤ fiftyReais.cents by decide) (sampleId 1)
    (utf16 "p1") 1000 (sampleId 2) (sampleId 3)
  have hw := Wallet.Produced.opened hopen
  obtain ⟨made, hcreate⟩ := WagerTransaction.create_eq refundProps (by decide)
    (by decide +kernel) (fun _ => by decide +kernel) (by decide)
  obtain ⟨-, -, rfl⟩ := WagerTransaction.reserve_ok (WagerTransaction.create_ok hcreate).2.2
  have hwaits := @WagerTransaction.Kept.updated _ _ _ _
    (.markPendingReference fiftyReais 6000 21601000) (.inserted (.created hcreate)) rfl
    (fun m hm => ⟨_, hw, (List.mem_singleton.mp hm).symm⟩)
  have hretried := @WagerTransaction.Kept.updated _ _ _ _ (.scheduleRetry 11000) hwaits rfl
    (fun m hm => by cases hm)
  exact ⟨⟨_, _, rfl, rfl, persistence_lossless.1 _ _ hretried⟩,
    ⟨_, rfl, persistence_lossless.2.1 _ hw⟩,
    ⟨_, rfl, persistence_lossless.2.2.2 _ ((open_ok hopen).2 _ rfl)⟩⟩

end Wagering
