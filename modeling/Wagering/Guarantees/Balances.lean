import Wagering.Correctness.History

/-!
# Balances

What right books say about money: every wallet is the signed sum of its ledger,
one entry leads to the next, the version counts them, and exactly the processed
transactions that move money have an entry.
-/

namespace Wagering

open RunningBalance

namespace Books

variable {b : Books} {w : WalletRow} {t : WagerTransactionRow} {e : WalletLedgerEntryRow}

/-- The entries of a wallet that no OPENING made. -/
def laterEntries (b : Books) (walletId : Text) : List WalletLedgerEntryRow :=
  (b.walletEntries walletId).filter fun e => !b.isOpeningEntry e

/-- What the ledger tells about a wallet. -/
structure Balanced (b : Books) (w : WalletRow) : Prop where
  nonneg : 0 ≤ w.balance
  limit : w.balance ≤ maxAbsolute
  sum : w.balance = ((b.walletEntries w.id).map WalletLedgerEntryRow.signed).sum
  chain : Chain WalletLedgerEntryRow.balanceBefore WalletLedgerEntryRow.balanceAfter 0
    (b.walletEntries w.id) w.balance
  arithmetic : ∀ e ∈ b.walletEntries w.id, e.balanceAfter = e.balanceBefore + e.signed
  version : w.version = 1 + (b.laterEntries w.id).length

/-- The entry is the one movement of the transaction. -/
structure MovesOnce (b : Books) (t : WagerTransactionRow) (e : WalletLedgerEntryRow) : Prop where
  entries : b.entriesOf t.id = [e]
  walletId : e.walletId = t.walletId
  amount : e.amount = t.amount
  currency : e.currency = t.currency

theorem mem_entriesOf : e ∈ b.entriesOf t.id ↔ e ∈ b.ledger ∧ e.transactionId = t.id := by
  simp [Books.entriesOf]

/-- A processed transaction that moves money has its entry. -/
theorem Settled.moved (h : b.Settled t) (hs : t.status = .processed) (hk : t.kind ≠ .loss) :
    ∃ e, b.entriesOf t.id = [e] ∧ b.Enters t e := by
  unfold Books.Settled at h
  rw [hs] at h
  simp only [hk, if_false] at h
  obtain ⟨e, version, hentries, henters, -⟩ := h
  exact ⟨e, hentries, henters⟩

variable [Platform]

/-- Every entry is the movement of a processed transaction. -/
theorem Consistent.entry (hc : b.Consistent) (he : e ∈ b.ledger) :
    ∃ t ∈ b.wagers, t.id = e.transactionId ∧ t.status = .processed ∧ t.kind ≠ .loss ∧
      b.entriesOf t.id = [e] ∧ b.Enters t e := by
  obtain ⟨t, ht, hid⟩ := hc.entries e he
  exact ⟨t, ht, hid, by
    obtain ⟨hs, hk, hentries, enters, -⟩ :=
      (hc.wagers t ht).settled.of_entry (mem_entriesOf.mpr ⟨he, hid.symm⟩)
    exact ⟨hs, hk, hentries, enters⟩⟩

/-- Only a wallet that was opened with money has an opening entry. -/
theorem Consistent.opened_of_entry (hc : b.Consistent) (he : e ∈ b.walletEntries w.id)
    (hopening : b.isOpeningEntry e = true) : b.opened w.id = true := by
  obtain ⟨hledger, hwallet⟩ := mem_walletEntries.mp he
  obtain ⟨t, ht, hid, -, -, -, enters⟩ := hc.entry hledger
  simp only [Books.isOpeningEntry, List.any_eq_true, Bool.and_eq_true, decide_eq_true_eq]
    at hopening
  obtain ⟨t', ht', hid', hkind⟩ := hopening
  have heq : t' = t := hc.eq_of_id ht' ht (hid'.trans hid.symm)
  simp only [Books.opened, List.any_eq_true, Bool.and_eq_true, decide_eq_true_eq]
  exact ⟨t, ht, heq ▸ hkind, enters.walletId.symm.trans hwallet⟩

/-- An entry is in the ledger once. -/
theorem Consistent.count_entry (hc : b.Consistent) (he : e ∈ b.ledger) : b.ledger.count e = 1 := by
  obtain ⟨t, -, hid, -, -, hentries, -⟩ := hc.entry he
  have hfilter : (b.entriesOf t.id).count e = b.ledger.count e :=
    List.count_filter (by simp [hid])
  rw [← hfilter, hentries, List.count_singleton_self]

/-- The version counts the entries that no OPENING made. -/
theorem Consistent.version (hc : b.Consistent) (hw : w ∈ b.wallets) :
    w.version = 1 + (b.laterEntries w.id).length := by
  have right := hc.wallets w hw
  have hversion := right.version
  unfold Books.firstVersion at hversion
  cases hopened : b.opened w.id with
  | false =>
    have hlater : b.laterEntries w.id = b.walletEntries w.id := by
      refine List.filter_eq_self.mpr fun e he => ?_
      by_contra hopening
      have := hc.opened_of_entry he (by simpa using hopening)
      rw [hopened] at this
      cases this
    rw [hopened] at hversion
    rw [hlater]
    simp only [Bool.false_eq_true, if_false] at hversion
    omega
  | true =>
    obtain ⟨first, hhead, hfirst⟩ := right.openingFirst hopened
    obtain ⟨rest, hentries⟩ : ∃ rest, b.walletEntries w.id = first :: rest :=
      ⟨_, (List.cons_head?_tail hhead).symm⟩
    have hledger : first ∈ b.ledger :=
      (mem_walletEntries.mp (hentries ▸ List.mem_cons_self : first ∈ b.walletEntries w.id)).1
    have hcount : (b.walletEntries w.id).count first ≤ 1 :=
      (List.filter_sublist.count_le first).trans (hc.count_entry hledger).le
    have hrest : first ∉ rest := by
      rw [hentries, List.count_cons_self] at hcount
      exact List.count_eq_zero.mp (by omega)
    have hlater : b.laterEntries w.id = rest := by
      rw [Books.laterEntries, hentries, List.filter_cons_of_neg (by simp [hfirst])]
      refine List.filter_eq_self.mpr fun e he => ?_
      by_contra hopening
      have hopens := right.opening e (hentries ▸ List.mem_cons_of_mem _ he) (by simpa using hopening)
      rw [hhead] at hopens
      cases hopens
      exact hrest he
    rw [hopened, hentries] at hversion
    rw [hlater]
    simp only [if_true, List.length_cons] at hversion
    push_cast at hversion
    omega

theorem Consistent.balanced (hc : b.Consistent) (hw : w ∈ b.wallets) : b.Balanced w := by
  have right := hc.wallets w hw
  have arithmetic : ∀ e ∈ b.walletEntries w.id, e.balanceAfter = e.balanceBefore + e.signed := by
    intro e he
    obtain ⟨_, _, _, _, _, _, enters⟩ := hc.entry (mem_walletEntries.mp he).1
    exact enters.arithmetic
  refine
    { nonneg := right.nonneg
      limit := ?_
      sum := by simpa using right.chain.sum arithmetic
      chain := right.chain
      arithmetic := arithmetic
      version := hc.version hw }
  have hrange := right.inRange
  have hnonneg := right.nonneg
  omega

/-- Which transactions have moved money. -/
theorem Consistent.moved_iff (hc : b.Consistent) (ht : t ∈ b.wagers) :
    (∃ e ∈ b.ledger, e.transactionId = t.id) ↔ t.status = .processed ∧ t.kind ≠ .loss := by
  have settled := (hc.wagers t ht).settled
  constructor
  · rintro ⟨e, he, hid⟩
    obtain ⟨hs, hk, -⟩ := settled.of_entry (mem_entriesOf.mpr ⟨he, hid⟩)
    exact ⟨hs, hk⟩
  · rintro ⟨hs, hk⟩
    obtain ⟨e, hentries, -⟩ := settled.moved hs hk
    exact ⟨e, mem_entriesOf.mp (hentries ▸ List.mem_cons_self)⟩

end Books

/-! ## Over every run -/

/-- The money in the books adds up: wallet by wallet, and transaction by transaction. -/
structure Books.AddUp (b : Books) : Prop where
  wallets : ∀ w ∈ b.wallets, b.Balanced w
  moved : ∀ t ∈ b.wagers,
    (∃ e ∈ b.ledger, e.transactionId = t.id) ↔ t.status = .processed ∧ t.kind ≠ .loss
  once : ∀ t ∈ b.wagers, ∀ e ∈ b.ledger, e.transactionId = t.id → b.MovesOnce t e

/-- In every state that the service reaches the money adds up. -/
theorem Reachable.addUp [Platform] [Driver] {w : Service} (h : Reachable w) :
    w.shared.db.books.AddUp := by
  have hc := h.sound.inv.books
  refine
    { wallets := fun v hv => hc.balanced hv
      moved := fun t ht => hc.moved_iff ht
      once := fun t ht e he hid => ?_ }
  obtain ⟨-, -, hentries, enters, -⟩ :=
    (hc.wagers t ht).settled.of_entry (Books.mem_entriesOf.mpr ⟨he, hid⟩)
  exact ⟨hentries, enters.walletId, enters.amount, enters.currency⟩

theorem sample_addUp : sampleService.shared.db.books.AddUp :=
  @Reachable.addUp samplePlatform sampleDriver sampleService sample_reachable

end Wagering
