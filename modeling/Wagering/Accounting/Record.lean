import Wagering.Accounting.Books

/-!
# Recording a decision

What a recorded decision changes, view by view: the transaction's own entries
and announcements, its wallet's entries and announcements, and nothing of any
other.  From that, `Consistent.record`: books that are right stay right when a
right decision is recorded.
-/

namespace Wagering

open RunningBalance

namespace Books

variable {b : Books} {d : Decision}

/-! ## Rows -/

theorem mem_wagers_record {r : WagerTransactionRow} :
    r ∈ (b.record d).wagers ↔ r = d.tx ∨ (r ∈ b.wagers ∧ r.id ≠ d.tx.id) :=
  Keyed.mem_put

theorem mem_ledger_record {e : WalletLedgerEntryRow} :
    e ∈ (b.record d).ledger ↔ e ∈ b.ledger ∨ ∃ w, d.movement = some (e, w) := by
  simp [record]

theorem isActiveReversal_iff {wagers : List WagerTransactionRow} {referenceId : Text}
    {a : WagerTransactionRow} :
    isActiveReversal wagers referenceId a = true ↔
      a.referenceTransactionId = some referenceId ∧ a.status = .processed ∧
        a.kind.isReversal = true ∧ ∀ u ∈ wagers, ¬ (u.referenceTransactionId = some a.id ∧
          u.status = .processed ∧ u.kind = .rollback) := by
  simp only [isActiveReversal, Bool.and_eq_true, decide_eq_true_eq, Bool.not_eq_true',
    List.any_eq_false, and_assoc]

/-- The balance changes that a decision announces. -/
def Decision.changes (d : Decision) (id : Text) : List WalletBalanceChangedData :=
  (d.events.map IntegrationEvent.data).filterMap (EventData.changeOf id)

theorem changesOf_record (id : Text) :
    (b.record d).changesOf id = b.changesOf id ++ Decision.changes d id := by
  simp [changesOf, Decision.changes, record, List.filterMap_map]

theorem mem_walletEntries {id : Text} {e : WalletLedgerEntryRow} :
    e ∈ b.walletEntries id ↔ e ∈ b.ledger ∧ e.walletId = id := by
  simp [walletEntries]

theorem pendingImage_congr {p t : WagerTransactionRow} (h : SameIdentity p t)
    (he : p.expiresAt = t.expiresAt) : p.pendingImage = t.pendingImage := by
  simp only [WagerTransactionRow.pendingImage, WagerTransactionRow.pendingData, he, h.id,
    h.providerId, h.externalTransactionId, h.walletId, h.kind, h.amount, h.currency,
    h.referenceExternalTransactionId]

/-! ## What an entry or an announcement says about its transaction -/

/-- A transaction with an entry is processed, and the entry is its movement. -/
theorem Settled.of_entry {t : WagerTransactionRow} (h : b.Settled t)
    {e : WalletLedgerEntryRow} (he : e ∈ b.entriesOf t.id) :
    t.status = .processed ∧ t.kind ≠ .loss ∧ b.entriesOf t.id = [e] ∧ b.Enters t e ∧
      ∃ version, b.imageOf t.id =
        t.pendingImage ++ [t.processedData, .balanceChanged (e.changedData version)] := by
  unfold Settled at h
  cases hs : t.status with
  | processed =>
    rw [hs] at h
    by_cases hk : t.kind = .loss
    · simp only [hk, if_true] at h
      rw [h.1] at he
      cases he
    · simp only [hk, if_false] at h
      obtain ⟨e', version, hent, henters, himg⟩ := h
      rw [hent, List.mem_singleton] at he
      subst he
      exact ⟨rfl, hk, hent, henters, version, himg⟩
  | pending => rw [hs] at h; exact h.elim
  | pendingReference => rw [hs] at h; rw [h.1] at he; cases he
  | rejected => rw [hs] at h; rw [h.1] at he; cases he
  | failed => rw [hs] at h; rw [h.1] at he; cases he

/-- A balance change in a transaction's image announces the transaction's entry. -/
theorem Settled.of_change {t : WagerTransactionRow} (h : b.Settled t)
    {data : WalletBalanceChangedData} (hdata : .balanceChanged data ∈ b.imageOf t.id) :
    ∃ e version, b.entriesOf t.id = [e] ∧ b.Enters t e ∧ data = e.changedData version := by
  have hpending : EventData.balanceChanged data ∉ t.pendingImage := by
    unfold WagerTransactionRow.pendingImage
    split <;> simp [WagerTransactionRow.pendingData]
  unfold Settled at h
  cases hs : t.status with
  | processed =>
    rw [hs] at h
    by_cases hk : t.kind = .loss
    · simp only [hk, if_true] at h
      rw [h.2] at hdata
      simp [hpending, WagerTransactionRow.processedData] at hdata
    · simp only [hk, if_false] at h
      obtain ⟨e, version, hent, henters, himg⟩ := h
      rw [himg] at hdata
      simp only [List.mem_append, hpending, false_or, List.mem_cons, List.not_mem_nil,
        or_false, WagerTransactionRow.processedData, reduceCtorEq, EventData.balanceChanged.injEq]
        at hdata
      exact ⟨e, version, hent, henters, hdata⟩
  | pending => rw [hs] at h; exact h.elim
  | pendingReference => rw [hs] at h; rw [h.2.1] at hdata; exact absurd hdata hpending
  | rejected =>
    rw [hs] at h
    rw [h.2] at hdata
    simp [hpending, WagerTransactionRow.rejectedData] at hdata
  | failed =>
    rw [hs] at h
    rw [h.2] at hdata
    simp [hpending, WagerTransactionRow.rejectedData] at hdata

theorem Settled.openWallet {t : WagerTransactionRow} {w : WalletRow} (h : b.Settled t) :
    (b.openWallet w).Settled t := by
  unfold Settled at h ⊢
  cases hs : t.status with
  | processed =>
    rw [hs] at h
    by_cases hk : t.kind = .loss
    · simp only [hk, if_true] at h ⊢
      exact h
    · simp only [hk, if_false] at h ⊢
      obtain ⟨e, version, hent, henters, himg⟩ := h
      exact ⟨e, version, hent, { henters with directed := henters.directed }, himg⟩
  | pending => rwa [hs] at h
  | pendingReference => rwa [hs] at h
  | rejected => rwa [hs] at h
  | failed => rwa [hs] at h

variable [Platform]

theorem Consistent.eq_of_id (hc : b.Consistent) {r s : WagerTransactionRow}
    (hr : r ∈ b.wagers) (hs : s ∈ b.wagers) (h : r.id = s.id) : r = s :=
  hc.wagerIds.eq_of_key hr hs h

theorem Consistent.wallet_eq_of_id (hc : b.Consistent) {w w' : WalletRow}
    (hw : w ∈ b.wallets) (hw' : w' ∈ b.wallets) (h : w.id = w'.id) : w = w' :=
  hc.walletIds.eq_of_key hw hw' h

/-- A terminal row is not the one that is decided. -/
theorem Decides.ne_of_terminal (hd : b.Decides d) (hc : b.Consistent)
    {r : WagerTransactionRow} (hr : r ∈ b.wagers) (hterm : r.status.isTerminal = true) :
    r.id ≠ d.tx.id := by
  rcases hd.prior with ⟨fresh, -⟩ | ⟨p, hp, hpending, same, -⟩
  · exact fresh r hr
  · intro heq
    have := hc.eq_of_id hr hp (heq.trans same.id.symm)
    subst this
    rw [hpending] at hterm
    cases hterm

theorem Decides.mem_of_terminal (hd : b.Decides d) (hc : b.Consistent)
    {r : WagerTransactionRow} (hr : r ∈ b.wagers) (hterm : r.status.isTerminal = true) :
    r ∈ (b.record d).wagers :=
  mem_wagers_record.mpr (.inr ⟨hr, hd.ne_of_terminal hc hr hterm⟩)

theorem Decides.mem_of_processed (hd : b.Decides d) (hc : b.Consistent)
    {r : WagerTransactionRow} (hr : r ∈ b.wagers) (h : r.status = .processed) :
    r ∈ (b.record d).wagers :=
  hd.mem_of_terminal hc hr (by rw [h]; rfl)

/-- The movement of a decision, taken apart. -/
theorem Decides.moves (hd : b.Decides d) {e : WalletLedgerEntryRow} {w' : WalletRow}
    (h : d.movement = some (e, w')) :
    d.tx.status = .processed ∧ ∃ w, b.Moves d.tx e w w' ∧
      d.events.map IntegrationEvent.data =
        [d.tx.processedData, .balanceChanged (e.changedData w'.version)] := by
  have hout := hd.outcome
  rw [h] at hout
  generalize hdata : d.events.map IntegrationEvent.data = data at hout
  cases hout with
  | moved status moves => exact ⟨status, _, moves, rfl⟩

theorem Decides.wallet_same (hd : b.Decides d) {w : WalletRow} (hw : w ∈ b.wallets)
    (hc : b.Consistent) : ∃ w' ∈ (b.record d).wallets, SameWallet w w' := by
  cases hm : d.movement with
  | none => exact ⟨w, by simpa [record, hm] using hw, .refl w⟩
  | some move =>
    obtain ⟨e, w'⟩ := move
    obtain ⟨-, v, moves, -⟩ := hd.moves hm
    by_cases heq : w.id = v.id
    · have := hc.wallet_eq_of_id hw moves.wallet heq
      subst this
      exact ⟨w', by simp [record, hm, Keyed.mem_put], moves.same⟩
    · have hne : w.id ≠ w'.id := fun h => heq (h.trans moves.same.id.symm)
      exact ⟨w, by simp [record, hm, Keyed.mem_put, hw, hne], .refl w⟩

theorem Decides.wallet_exists (hd : b.Decides d) (hc : b.Consistent) {id currency : Text}
    (h : ∃ w ∈ b.wallets, w.id = id ∧ w.currency = currency) :
    ∃ w ∈ (b.record d).wallets, w.id = id ∧ w.currency = currency := by
  obtain ⟨w, hw, hid, hcur⟩ := h
  obtain ⟨w', hw', same⟩ := hd.wallet_same hw hc
  exact ⟨w', hw', same.id.symm.trans hid, same.currency.symm.trans hcur⟩

/-! ## Before the decision -/

theorem Consistent.entriesOf_fresh (hc : b.Consistent) {id : Text}
    (h : ∀ r ∈ b.wagers, r.id ≠ id) : b.entriesOf id = [] := by
  refine List.filter_eq_nil_iff.mpr fun e he => ?_
  obtain ⟨t, ht, hid⟩ := hc.entries e he
  simpa using fun heq => h t ht (hid.trans heq)

theorem Consistent.imageOf_fresh (hc : b.Consistent) {id : Text}
    (h : ∀ r ∈ b.wagers, r.id ≠ id) : b.imageOf id = [] := by
  refine List.filter_eq_nil_iff.mpr fun data hdata => ?_
  obtain ⟨ev, hev, rfl⟩ := List.mem_map.mp hdata
  obtain ⟨-, t, ht, hid⟩ := hc.events ev hev
  simpa using fun heq => h t ht (hid.trans heq)

/-- A transaction that is about to be decided has no entry yet. -/
theorem Decides.entriesOf_before (hd : b.Decides d) (hc : b.Consistent) :
    b.entriesOf d.tx.id = [] := by
  rcases hd.prior with ⟨fresh, -⟩ | ⟨p, hp, hpending, same, -⟩
  · exact hc.entriesOf_fresh fresh
  · have := (hc.wagers p hp).settled
    rw [Settled, hpending] at this
    exact same.id ▸ this.1

/-- Before a decision the outbox says at most that the transaction waits. -/
theorem Decides.imageOf_before (hd : b.Decides d) (hc : b.Consistent) :
    b.imageOf d.tx.id = d.tx.pendingImage ∨
      (∀ r ∈ b.wagers, r.id ≠ d.tx.id) ∧ b.imageOf d.tx.id = [] := by
  rcases hd.prior with ⟨fresh, -⟩ | ⟨p, hp, hpending, same, hexp⟩
  · exact .inr ⟨fresh, hc.imageOf_fresh fresh⟩
  · have := (hc.wagers p hp).settled
    rw [Settled, hpending] at this
    exact .inl (same.id ▸ this.2.1.trans (pendingImage_congr same hexp))

theorem Decides.imageOf_decided (hd : b.Decides d) (hc : b.Consistent)
    (hstatus : d.tx.status ≠ .pendingReference) : b.imageOf d.tx.id = d.tx.pendingImage := by
  rcases hd.imageOf_before hc with h | ⟨fresh, h⟩
  · exact h
  · rcases hd.prior with ⟨-, hnone⟩ | ⟨p, hp, -, same, -⟩
    · have hexp : d.tx.expiresAt.isSome = false := by
        by_contra hne
        exact hstatus (hnone (by simpa only [Bool.not_eq_false] using hne))
      rw [h, WagerTransactionRow.pendingImage, hexp]
      rfl
    · exact absurd same.id (fresh p hp)

/-! ## After it -/

theorem Decides.data_id (hd : b.Decides d) {data : EventData}
    (h : data ∈ d.events.map IntegrationEvent.data) : data.transactionId = d.tx.id := by
  have hout := hd.outcome
  generalize d.movement = movement at hout
  generalize d.events.map IntegrationEvent.data = all at h hout
  cases hout with
  | moved _ moves =>
    rcases List.mem_cons.mp h with rfl | h
    · rfl
    · rw [List.mem_singleton] at h
      subst h
      exact moves.entryTransaction
  | unmoved => rw [List.mem_singleton] at h; subst h; rfl
  | refused => rw [List.mem_singleton] at h; subst h; rfl
  | awaits => rw [List.mem_singleton] at h; subst h; rfl
  | retried => cases h

theorem Decides.imageOf_record (hd : b.Decides d) (id : Text) :
    (b.record d).imageOf id =
      b.imageOf id ++ if id = d.tx.id then d.events.map IntegrationEvent.data else [] := by
  simp only [imageOf, record, List.map_append, List.filter_append]
  congr 1
  split
  · rename_i h
    exact List.filter_eq_self.mpr fun data hdata => by simpa [h] using hd.data_id hdata
  · rename_i h
    exact List.filter_eq_nil_iff.mpr fun data hdata => by
      simpa [hd.data_id hdata] using fun heq => h heq.symm

theorem Decides.entriesOf_record (hd : b.Decides d) (id : Text) :
    (b.record d).entriesOf id =
      b.entriesOf id ++ if id = d.tx.id then (d.movement.map Prod.fst).toList else [] := by
  simp only [entriesOf, record, List.filter_append]
  congr 1
  cases hm : d.movement with
  | none => simp
  | some move =>
    obtain ⟨e, w⟩ := move
    obtain ⟨-, v, moves, -⟩ := hd.moves hm
    by_cases h : id = d.tx.id
    · simp [moves.entryTransaction, h]
    · have : ¬ d.tx.id = id := fun heq => h heq.symm
      simp [moves.entryTransaction, h, this]

/-- The processed reference of a row is still there, so its direction stands. -/
theorem Directed.record {t : WagerTransactionRow} {direction : LedgerDirection}
    (h : b.Directed t direction) (hd : b.Decides d) (hc : b.Consistent) :
    (b.record d).Directed t direction := by
  rcases h with h | ⟨hk, r, hr, hid, hp, hdir⟩
  · exact .inl h
  · exact .inr ⟨hk, r, hd.mem_of_processed hc hr hp, hid, hp, hdir⟩

theorem Enters.record {t : WagerTransactionRow} {e : WalletLedgerEntryRow}
    (h : b.Enters t e) (hd : b.Decides d) (hc : b.Consistent) : (b.record d).Enters t e :=
  { h with directed := h.directed.record hd hc }

/-- What the books hold about another transaction does not change. -/
theorem Settled.record {t : WagerTransactionRow} (h : b.Settled t) (hne : t.id ≠ d.tx.id)
    (hd : b.Decides d) (hc : b.Consistent) : (b.record d).Settled t := by
  have he : (b.record d).entriesOf t.id = b.entriesOf t.id := by
    rw [hd.entriesOf_record, if_neg hne, List.append_nil]
  have hi : (b.record d).imageOf t.id = b.imageOf t.id := by
    rw [hd.imageOf_record, if_neg hne, List.append_nil]
  unfold Settled at h ⊢
  rw [he, hi]
  cases hs : t.status with
  | processed =>
    rw [hs] at h
    by_cases hk : t.kind = .loss
    · simpa only [hk, if_true] using h
    · simp only [hk, if_false] at h ⊢
      obtain ⟨e, version, hent, henters, himg⟩ := h
      exact ⟨e, version, hent, henters.record hd hc, himg⟩
  | pending => rwa [hs] at h
  | pendingReference => rwa [hs] at h
  | rejected => rwa [hs] at h
  | failed => rwa [hs] at h

/-- What the books hold about the decided transaction. -/
theorem Decides.settled (hd : b.Decides d) (hc : b.Consistent) :
    (b.record d).Settled d.tx := by
  have hent := hd.entriesOf_record d.tx.id
  have himg := hd.imageOf_record d.tx.id
  rw [if_pos rfl, hd.entriesOf_before hc, List.nil_append] at hent
  rw [if_pos rfl] at himg
  have hout := hd.outcome
  generalize hmove : d.movement = movement at hout hent
  generalize hdata : d.events.map IntegrationEvent.data = data at hout himg
  unfold Settled
  cases hout with
  | @moved e w w' status moves =>
    have hloss : d.tx.kind ≠ .loss := by
      intro hk
      rcases moves.directed with h | ⟨h, -⟩
      · rw [hk] at h
        cases h
      · rw [hk] at h
        cases h
    rw [status]
    simp only [hloss, if_false]
    refine ⟨e, w'.version, hent, ?_, ?_⟩
    · exact Enters.record
        { walletId := moves.entryWallet
          amount := moves.amount
          currency := moves.currency
          arithmetic := by rw [moves.after, moves.before, moves.arithmetic]
          directed := moves.directed } hd hc
    · rw [himg, hd.imageOf_decided hc (by rw [status]; decide)]
  | unmoved status kind =>
    rw [status]
    simp only [kind, if_true]
    exact ⟨hent, by rw [himg, hd.imageOf_decided hc (by rw [status]; decide)]⟩
  | refused status =>
    rcases status with status | status <;> rw [status] <;>
      exact ⟨hent, by rw [himg, hd.imageOf_decided hc (by rw [status]; decide)]⟩
  | awaits status _ _ expires _ fresh =>
    rw [status]
    refine ⟨hent, ?_, expires⟩
    rw [himg, hc.imageOf_fresh fresh, List.nil_append, WagerTransactionRow.pendingImage,
      if_pos expires]
  | retried status _ pending =>
    rw [status]
    obtain ⟨q, hq, hqid⟩ := pending
    rcases hd.prior with ⟨fresh, -⟩ | ⟨p, hp, hpending, same, hexp⟩
    · exact absurd hqid (fresh q hq)
    · have := (hc.wagers p hp).settled
      rw [Settled, hpending] at this
      refine ⟨hent, ?_, hexp ▸ this.2.2⟩
      rw [himg, List.append_nil, ← same.id, this.2.1, pendingImage_congr same hexp]

/-! ## Transactions -/

theorem WagerRight.record {t : WagerTransactionRow} (h : b.WagerRight t)
    (hne : t.id ≠ d.tx.id) (hd : b.Decides d) (hc : b.Consistent) :
    (b.record d).WagerRight t :=
  { h with
    wallet := fun hs => hd.wallet_exists hc (h.wallet hs)
    reversal := fun hs hk => by
      obtain ⟨r, hr, hid, hrev⟩ := h.reversal hs hk
      exact ⟨r, hd.mem_of_processed hc hr hrev.processed, hid, hrev⟩
    linked := fun id hid => by
      obtain ⟨hs, r, hr, hrid, hp⟩ := h.linked id hid
      exact ⟨hs, r, hd.mem_of_processed hc hr hp, hrid, hp⟩
    observed := fun c hcur => hd.wallet_exists hc (h.observed c hcur)
    settled := h.settled.record hne hd hc }

theorem Decides.right (hd : b.Decides d) (hc : b.Consistent) : (b.record d).WagerRight d.tx := by
  have hsettled := hd.settled hc
  have hout := hd.outcome
  generalize d.events.map IntegrationEvent.data = data at hout
  refine
    { positive := hd.positive
      inRange := hd.inRange
      isoCurrency := hd.isoCurrency
      wallet := fun hs => hd.wallet_exists hc ?wallet
      reversal := fun hs hk => ?reversal
      linked := fun id hid => ?linked
      observed := fun c hcur => hd.wallet_exists hc (hd.observed c hcur)
      openingProcessed := fun hk => ?opening
      waits := fun hs => ?waits
      settled := hsettled }
  case wallet =>
    generalize d.movement = movement at hout
    cases hout with
    | moved _ moves => exact ⟨_, moves.wallet, moves.walletId, moves.walletCurrency⟩
    | unmoved _ _ _ wallet => exact wallet
    | refused status => rcases status with h | h <;> rw [h] at hs <;> simp at hs
    | awaits _ _ _ _ wallet => exact wallet
    | retried status _ pending =>
      obtain ⟨q, hq, hqid⟩ := pending
      rcases hd.prior with ⟨fresh, -⟩ | ⟨p, hp, hpending, same, -⟩
      · exact absurd hqid (fresh q hq)
      · obtain ⟨w, hw, hid, hcur⟩ := (hc.wagers p hp).wallet (.inr hpending)
        exact ⟨w, hw, hid.trans same.walletId, hcur.trans same.currency⟩
  case reversal =>
    generalize d.movement = movement at hout
    cases hout with
    | moved _ _ reversal =>
      obtain ⟨r, hr, hid, hrev, -⟩ := reversal hk
      exact ⟨r, hd.mem_of_processed hc hr hrev.processed, hid, hrev⟩
    | unmoved _ kind => rw [kind] at hk; cases hk
    | refused status => rcases status with h | h <;> rw [h] at hs <;> cases hs
    | awaits status => rw [status] at hs; cases hs
    | retried status => rw [status] at hs; cases hs
  case linked =>
    generalize d.movement = movement at hout
    cases hout with
    | moved status _ _ linked =>
      obtain ⟨r, hr, hrid, hp⟩ := linked id hid
      exact ⟨status, r, hd.mem_of_processed hc hr hp, hrid, hp⟩
    | unmoved _ _ reference => rw [reference] at hid; cases hid
    | refused _ _ reference => rw [reference] at hid; cases hid
    | awaits _ _ reference => rw [reference] at hid; cases hid
    | retried _ reference => rw [reference] at hid; cases hid
  case opening =>
    generalize d.movement = movement at hout
    cases hout with
    | moved status => exact status
    | unmoved status => exact status
    | refused _ kind => exact absurd hk kind
    | awaits _ kind => rw [hk] at kind; cases kind
    | retried _ _ pending =>
      obtain ⟨q, hq, hqid⟩ := pending
      rcases hd.prior with ⟨fresh, -⟩ | ⟨p, hp, hpending, same, -⟩
      · exact absurd hqid (fresh q hq)
      · have := (hc.wagers p hp).waits hpending
        rw [same.kind, hk] at this
        cases this
  case waits =>
    generalize d.movement = movement at hout
    cases hout with
    | moved status => rw [status] at hs; cases hs
    | unmoved status => rw [status] at hs; cases hs
    | refused status => rcases status with h | h <;> rw [h] at hs <;> cases hs
    | awaits _ kind => exact kind
    | retried _ _ pending =>
      obtain ⟨q, hq, hqid⟩ := pending
      rcases hd.prior with ⟨fresh, -⟩ | ⟨p, hp, hpending, same, -⟩
      · exact absurd hqid (fresh q hq)
      · exact same.kind ▸ (hc.wagers p hp).waits hpending

/-! ## Reversal slots -/

/-- What is active after the decision was not undone before it. -/
theorem Decides.active_before (hd : b.Decides d) (hc : b.Consistent) {referenceId : Text}
    {a : WagerTransactionRow}
    (h : isActiveReversal (b.record d).wagers referenceId a = true) :
    isActiveReversal b.wagers referenceId a = true := by
  rw [isActiveReversal_iff] at h ⊢
  obtain ⟨hid, hs, hk, hundone⟩ := h
  refine ⟨hid, hs, hk, fun u hu hby => hundone u ?_ hby⟩
  exact hd.mem_of_processed hc hu hby.2.1

theorem Decides.slots (hd : b.Decides d) (hc : b.Consistent) {referenceId : Text}
    {s t : WagerTransactionRow} (hs : s ∈ (b.record d).wagers) (ht : t ∈ (b.record d).wagers)
    (has : isActiveReversal (b.record d).wagers referenceId s = true)
    (hat : isActiveReversal (b.record d).wagers referenceId t = true) : s = t := by
  -- the decided transaction took a slot that was free
  have hfree : ∀ {a}, a ∈ b.wagers → a.id ≠ d.tx.id →
      isActiveReversal (b.record d).wagers referenceId a = true →
      isActiveReversal (b.record d).wagers referenceId d.tx = true → False := by
    intro a ha hne hactive htx
    have hold := hd.active_before hc hactive
    obtain ⟨hid, hstatus, hk, -⟩ := isActiveReversal_iff.mp htx
    have hout := hd.outcome
    generalize d.movement = movement at hout
    generalize d.events.map IntegrationEvent.data = data at hout
    cases hout with
    | moved _ _ reversal =>
      obtain ⟨r, -, hrid, -, hnone⟩ := reversal hk
      have heq : r.id = referenceId := Option.some.inj (hrid.symm.trans hid)
      rw [heq, hasActiveReversal, List.any_eq_false] at hnone
      exact hnone a ha hold
    | unmoved _ kind => rw [kind] at hk; cases hk
    | refused status => rcases status with h | h <;> rw [h] at hstatus <;> cases hstatus
    | awaits status => rw [status] at hstatus; cases hstatus
    | retried status => rw [status] at hstatus; cases hstatus
  rcases mem_wagers_record.mp hs with rfl | ⟨hs, hsne⟩ <;>
    rcases mem_wagers_record.mp ht with rfl | ⟨ht, htne⟩
  · rfl
  · exact (hfree ht htne hat has).elim
  · exact (hfree hs hsne has hat).elim
  · exact hc.slots hs ht (hd.active_before hc has) (hd.active_before hc hat)

/-! ## Wallets -/

theorem Decides.walletEntries_record (hd : b.Decides d) (id : Text) :
    (b.record d).walletEntries id = b.walletEntries id ++
      if id = d.tx.walletId then (d.movement.map Prod.fst).toList else [] := by
  simp only [walletEntries, record, List.filter_append]
  congr 1
  cases hm : d.movement with
  | none => simp
  | some move =>
    obtain ⟨e, w⟩ := move
    obtain ⟨-, v, moves, -⟩ := hd.moves hm
    by_cases h : id = d.tx.walletId
    · simp [moves.entryWallet, h]
    · have : ¬ d.tx.walletId = id := fun heq => h heq.symm
      simp [moves.entryWallet, h, this]

theorem Decides.changes_none (hd : b.Decides d) (h : d.movement = none) (id : Text) :
    Decision.changes d id = [] := by
  have hout := hd.outcome
  rw [h] at hout
  unfold Decision.changes
  generalize d.events.map IntegrationEvent.data = data at hout ⊢
  cases hout <;> rfl

theorem Decides.changes_some (hd : b.Decides d) {e : WalletLedgerEntryRow} {w' : WalletRow}
    (h : d.movement = some (e, w')) (id : Text) :
    Decision.changes d id =
      if id = d.tx.walletId then [e.changedData w'.version] else [] := by
  obtain ⟨-, w, moves, hdata⟩ := hd.moves h
  rw [Decision.changes, hdata]
  by_cases hid : id = d.tx.walletId
  · have : e.walletId = id := moves.entryWallet.trans hid.symm
    simp [List.filterMap, EventData.changeOf, WagerTransactionRow.processedData,
      WalletLedgerEntryRow.changedData, this, hid]
  · have : ¬ e.walletId = id := fun heq => hid (heq.symm.trans moves.entryWallet)
    simp [List.filterMap, EventData.changeOf, WagerTransactionRow.processedData,
      WalletLedgerEntryRow.changedData, this, hid]

theorem Decides.opened_record (hd : b.Decides d) (hc : b.Consistent) (id : Text) :
    (b.record d).opened id = (b.opened id || (d.tx.kind = .opening && d.tx.walletId = id)) := by
  rw [Bool.eq_iff_iff]
  simp only [opened, List.any_eq_true, Bool.or_eq_true, Bool.and_eq_true, decide_eq_true_eq]
  constructor
  · rintro ⟨t, ht, hk⟩
    rcases mem_wagers_record.mp ht with rfl | ⟨ht, -⟩
    · exact .inr hk
    · exact .inl ⟨t, ht, hk⟩
  · rintro (⟨t, ht, hk⟩ | hk)
    · exact ⟨t, hd.mem_of_processed hc ht ((hc.wagers t ht).openingProcessed hk.1), hk⟩
    · exact ⟨d.tx, mem_wagers_record.mpr (.inl rfl), hk⟩

/-- Entries of before belong to other transactions than the one decided. -/
theorem Decides.entry_other (hd : b.Decides d) (hc : b.Consistent) {e : WalletLedgerEntryRow}
    (he : e ∈ b.ledger) : e.transactionId ≠ d.tx.id := by
  intro heq
  have : e ∈ b.entriesOf d.tx.id := List.mem_filter.mpr ⟨he, by simpa using heq⟩
  rw [hd.entriesOf_before hc] at this
  cases this

theorem Decides.isOpeningEntry_old (hd : b.Decides d) (hc : b.Consistent)
    {e : WalletLedgerEntryRow} (he : e ∈ b.ledger) :
    (b.record d).isOpeningEntry e = b.isOpeningEntry e := by
  rw [Bool.eq_iff_iff]
  simp only [isOpeningEntry, List.any_eq_true, Bool.and_eq_true, decide_eq_true_eq]
  have hne := hd.entry_other hc he
  constructor
  · rintro ⟨t, ht, hid, hk⟩
    rcases mem_wagers_record.mp ht with rfl | ⟨ht, -⟩
    · exact absurd hid.symm hne
    · exact ⟨t, ht, hid, hk⟩
  · rintro ⟨t, ht, hid, hk⟩
    exact ⟨t, mem_wagers_record.mpr (.inr ⟨ht, hid ▸ hne⟩), hid, hk⟩

theorem Decides.isOpeningEntry_new (hd : b.Decides d)
    {e : WalletLedgerEntryRow} {w : WalletRow} (h : d.movement = some (e, w)) :
    (b.record d).isOpeningEntry e = decide (d.tx.kind = .opening) := by
  obtain ⟨-, v, moves, -⟩ := hd.moves h
  rw [Bool.eq_iff_iff]
  simp only [isOpeningEntry, List.any_eq_true, Bool.and_eq_true, decide_eq_true_eq]
  constructor
  · rintro ⟨t, ht, hid, hk⟩
    rcases mem_wagers_record.mp ht with rfl | ⟨-, hne⟩
    · exact hk
    · exact absurd (hid.trans moves.entryTransaction) hne
  · exact fun hk => ⟨d.tx, mem_wagers_record.mpr (.inl rfl), moves.entryTransaction.symm, hk⟩

/-- A wallet that the decision does not move stays right. -/
theorem WalletRight.record_other {w : WalletRow} (h : b.WalletRight w) (hd : b.Decides d)
    (hc : b.Consistent) (hother : ∀ e w', d.movement = some (e, w') → w.id ≠ d.tx.walletId) :
    (b.record d).WalletRight w := by
  have hentries : (b.record d).walletEntries w.id = b.walletEntries w.id := by
    rw [hd.walletEntries_record]
    cases hm : d.movement with
    | none => simp
    | some move => simp [hother move.1 move.2 hm]
  have hchanges : (b.record d).changesOf w.id = b.changesOf w.id := by
    rw [changesOf_record]
    cases hm : d.movement with
    | none => rw [hd.changes_none hm, List.append_nil]
    | some move => rw [hd.changes_some hm, if_neg (hother _ _ hm), List.append_nil]
  have hopened : (b.record d).opened w.id = b.opened w.id := by
    rw [hd.opened_record hc]
    by_cases hk : d.tx.kind = .opening
    · have hs := (hd.right hc).openingProcessed hk
      have hout := hd.outcome
      generalize hm : d.movement = movement at hout
      generalize d.events.map IntegrationEvent.data = data at hout
      cases hout with
      | moved =>
        have : ¬ d.tx.walletId = w.id := fun heq => hother _ _ hm heq.symm
        simp [this]
      | unmoved _ kind => rw [kind] at hk; cases hk
      | refused status => rcases status with h | h <;> rw [h] at hs <;> cases hs
      | awaits status => rw [status] at hs; cases hs
      | retried status => rw [status] at hs; cases hs
    · simp [hk]
  have hfirst : (b.record d).firstVersion w.id = b.firstVersion w.id := by
    rw [firstVersion, firstVersion, hopened]
  have hisOpening : ∀ e ∈ b.walletEntries w.id,
      (b.record d).isOpeningEntry e = b.isOpeningEntry e :=
    fun e he => hd.isOpeningEntry_old hc (mem_walletEntries.mp he).1
  exact
    { nonneg := h.nonneg
      inRange := h.inRange
      isoCurrency := h.isoCurrency
      chain := by rw [hentries]; exact h.chain
      version := by rw [hentries, hfirst]; exact h.version
      opening := fun e he hop => by
        rw [hentries] at he ⊢
        exact h.opening e he (hisOpening e he ▸ hop)
      openingFirst := fun hop => by
        rw [hopened] at hop
        obtain ⟨e, hhead, hopening⟩ := h.openingFirst hop
        rw [hentries]
        exact ⟨e, hhead, (hisOpening e (List.mem_of_mem_head? hhead)).trans hopening⟩
      changes := by rw [hchanges, hentries, hfirst]; exact h.changes }

/-- The wallet that the decision moves is right after it. -/
theorem WalletRight.record_moved {e : WalletLedgerEntryRow} {w w' : WalletRow}
    (h : b.WalletRight w) (hd : b.Decides d) (hc : b.Consistent)
    (hm : d.movement = some (e, w')) (moves : b.Moves d.tx e w w') :
    (b.record d).WalletRight w' := by
  have hid : w'.id = d.tx.walletId := moves.same.id.symm.trans moves.walletId
  have hentries : (b.record d).walletEntries w'.id = b.walletEntries w.id ++ [e] := by
    rw [hd.walletEntries_record, if_pos hid, hm, ← moves.same.id]
    rfl
  have hchanges : (b.record d).changesOf w'.id =
      b.changesOf w.id ++ [e.changedData w'.version] := by
    rw [changesOf_record, hd.changes_some hm, if_pos hid, ← moves.same.id]
  have hopened : (b.record d).opened w'.id =
      (b.opened w.id || decide (d.tx.kind = .opening)) := by
    rw [hd.opened_record hc, ← moves.same.id]
    simp [moves.walletId]
  have hold : ∀ e' ∈ b.walletEntries w.id,
      (b.record d).isOpeningEntry e' = b.isOpeningEntry e' :=
    fun e' he' => hd.isOpeningEntry_old hc (mem_walletEntries.mp he').1
  have hnew := hd.isOpeningEntry_new hm
  have hchain : Chain WalletLedgerEntryRow.balanceBefore WalletLedgerEntryRow.balanceAfter 0
      (b.walletEntries w.id ++ [e]) w'.balance :=
    moves.after ▸ h.chain.concat moves.before
  have hcommon : ∀ e' ∈ b.walletEntries w.id ++ [e], (b.record d).isOpeningEntry e' = true →
      (b.walletEntries w.id ++ [e]).head? = some e' := by
    intro e' he' hop
    rcases List.mem_append.mp he' with he' | he'
    · have := h.opening e' he' (hold e' he' ▸ hop)
      rw [List.head?_append, this]
      rfl
    · rw [List.mem_singleton] at he'
      subst he'
      rw [hnew, decide_eq_true_eq] at hop
      rw [(moves.first hop).1]
      rfl
  by_cases hk : d.tx.kind = .opening
  · obtain ⟨hnil, hnot⟩ := moves.first hk
    have hversion := moves.version
    rw [if_pos hk] at hversion
    have hfirst : (b.record d).firstVersion w'.id = 1 := by
      rw [firstVersion, hopened, hk]
      simp
    have hnone : b.changesOf w.id = [] := by
      rw [h.changes, hnil]
      rfl
    exact
      { nonneg := moves.nonneg
        inRange := moves.inRange
        isoCurrency := moves.same.currency ▸ h.isoCurrency
        chain := by rw [hentries]; exact hchain
        version := by rw [hentries, hfirst, hnil, hversion]; rfl
        opening := by rw [hentries]; exact hcommon
        openingFirst := fun _ => by
          rw [hentries, hnil]
          exact ⟨e, rfl, by rw [hnew, hk]; rfl⟩
        changes := by rw [hchanges, hnone, hentries, hnil, hfirst, hversion]; rfl }
  · have hversion := moves.version
    rw [if_neg hk] at hversion
    have hopened' : (b.record d).opened w'.id = b.opened w.id := by
      rw [hopened]
      simp [hk]
    have hfirst : (b.record d).firstVersion w'.id = b.firstVersion w.id := by
      rw [firstVersion, firstVersion, hopened']
    have hcount := h.version
    exact
      { nonneg := moves.nonneg
        inRange := moves.inRange
        isoCurrency := moves.same.currency ▸ h.isoCurrency
        chain := by rw [hentries]; exact hchain
        version := by
          rw [hentries, hfirst, hversion, List.length_append, List.length_singleton]
          push_cast
          omega
        opening := by rw [hentries]; exact hcommon
        openingFirst := fun hop => by
          rw [hopened'] at hop
          obtain ⟨e', hhead, hopening⟩ := h.openingFirst hop
          rw [hentries, List.head?_append, hhead]
          exact ⟨e', rfl, (hold e' (List.mem_of_mem_head? hhead)).trans hopening⟩
        changes := by
          rw [hchanges, hentries, hfirst, List.mapIdx_concat, ← h.changes, hversion, hcount] }

/-- Books that are right stay right when a right decision is recorded. -/
theorem Consistent.record (hc : b.Consistent) (hd : b.Decides d) :
    (b.record d).Consistent where
  walletIds := by
    cases hm : d.movement with
    | none => simpa [Books.record, hm] using hc.walletIds
    | some move => simpa [Books.record, hm] using hc.walletIds.put
  wagerIds := hc.wagerIds.put
  wallets := fun w hw => by
    cases hm : d.movement with
    | none =>
      have hw' : w ∈ b.wallets := by simpa [Books.record, hm] using hw
      exact (hc.wallets w hw').record_other hd hc fun e w' h => by rw [hm] at h; cases h
    | some move =>
      obtain ⟨e, w'⟩ := move
      obtain ⟨-, v, moves, -⟩ := hd.moves hm
      have hw' : w = w' ∨ (w ∈ b.wallets ∧ w.id ≠ w'.id) := by
        simpa [Books.record, hm, Keyed.mem_put] using hw
      rcases hw' with rfl | ⟨hw', hne⟩
      · exact (hc.wallets v moves.wallet).record_moved hd hc hm moves
      · refine (hc.wallets w hw').record_other hd hc fun _ _ _ heq => hne ?_
        exact heq.trans (moves.walletId.symm.trans moves.same.id)
  wagers := fun t ht => by
    rcases mem_wagers_record.mp ht with rfl | ⟨ht, hne⟩
    · exact hd.right hc
    · exact (hc.wagers t ht).record hne hd hc
  slots := fun hs ht => hd.slots hc hs ht
  entries := fun e he => by
    rcases mem_ledger_record.mp he with he | ⟨w, hm⟩
    · obtain ⟨t, ht, hid⟩ := hc.entries e he
      exact ⟨t, mem_wagers_record.mpr (.inr ⟨ht, hid ▸ hd.entry_other hc he⟩), hid⟩
    · obtain ⟨-, v, moves, -⟩ := hd.moves hm
      exact ⟨d.tx, mem_wagers_record.mpr (.inl rfl), moves.entryTransaction.symm⟩
  events := fun ev hev => by
    rcases List.mem_append.mp hev with hev | hev
    · obtain ⟨hagg, t, ht, hid⟩ := hc.events ev hev
      refine ⟨hagg, ?_⟩
      by_cases heq : t.id = d.tx.id
      · exact ⟨d.tx, mem_wagers_record.mpr (.inl rfl), heq.symm.trans hid⟩
      · exact ⟨t, mem_wagers_record.mpr (.inr ⟨ht, heq⟩), hid⟩
    · exact ⟨hd.aggregates ev hev, d.tx, mem_wagers_record.mpr (.inl rfl),
        (hd.data_id (List.mem_map_of_mem hev)).symm⟩

/-! ## Going back from an entry or an announcement -/

theorem Consistent.entry_of (hc : b.Consistent) {e : WalletLedgerEntryRow} (he : e ∈ b.ledger) :
    ∃ t ∈ b.wagers, t.id = e.transactionId ∧ e ∈ b.entriesOf t.id := by
  obtain ⟨t, ht, hid⟩ := hc.entries e he
  exact ⟨t, ht, hid, List.mem_filter.mpr ⟨he, by simp [hid]⟩⟩

theorem Consistent.event_of (hc : b.Consistent) {ev : IntegrationEvent} (hev : ev ∈ b.events) :
    ∃ t ∈ b.wagers, t.id = ev.data.transactionId ∧ ev.data ∈ b.imageOf t.id := by
  obtain ⟨-, t, ht, hid⟩ := hc.events ev hev
  exact ⟨t, ht, hid, List.mem_filter.mpr ⟨List.mem_map_of_mem hev, by simp [hid]⟩⟩

/-! ## Opening a wallet -/

/-- A wallet that is not there has no entries and was not opened. -/
theorem Consistent.untouched (hc : b.Consistent) {id : Text} (hid : ∀ v ∈ b.wallets, v.id ≠ id) :
    (∀ t ∈ b.wagers, t.status = .processed → t.walletId ≠ id) ∧ b.walletEntries id = [] ∧
      b.opened id = false := by
  have hmoved : ∀ t ∈ b.wagers, t.status = .processed → t.walletId ≠ id := by
    intro t ht hs heq
    obtain ⟨v, hv, hvid, -⟩ := (hc.wagers t ht).wallet (.inl hs)
    exact hid v hv (hvid.trans heq)
  refine ⟨hmoved, List.eq_nil_iff_forall_not_mem.mpr fun e he => ?_, ?_⟩
  · obtain ⟨he, hwid⟩ := mem_walletEntries.mp he
    obtain ⟨t, ht, -, hmem⟩ := hc.entry_of he
    obtain ⟨hs, -, -, henters, -⟩ := (hc.wagers t ht).settled.of_entry hmem
    exact hmoved t ht hs (henters.walletId.symm.trans hwid)
  · rw [opened, List.any_eq_false]
    intro t ht h
    simp only [Bool.and_eq_true, decide_eq_true_eq] at h
    exact hmoved t ht ((hc.wagers t ht).openingProcessed h.1) h.2

/-- No change is announced for a wallet that is not there. -/
theorem Consistent.changes_absent (hc : b.Consistent) {id : Text}
    (hid : ∀ v ∈ b.wallets, v.id ≠ id) : b.changesOf id = [] := by
  obtain ⟨hmoved, -, -⟩ := hc.untouched hid
  refine List.filterMap_eq_nil_iff.mpr fun ev hev => ?_
  obtain ⟨t, ht, -, hmem⟩ := hc.event_of hev
  cases hdata : ev.data with
  | balanceChanged data =>
    rw [hdata] at hmem
    obtain ⟨e, version, hent, henters, rfl⟩ := (hc.wagers t ht).settled.of_change hmem
    have he : e ∈ b.entriesOf t.id := by
      rw [hent]
      exact List.mem_singleton.mpr rfl
    obtain ⟨hs, -⟩ := (hc.wagers t ht).settled.of_entry he
    have hne : e.walletId ≠ id := fun heq => hmoved t ht hs (henters.walletId.symm.trans heq)
    simp [EventData.changeOf, WalletLedgerEntryRow.changedData, hne]
  | processed data => rfl
  | rejected data => rfl
  | pendingReference data => rfl

/-- Books that are right stay right when an empty wallet is added under a new id. -/
theorem Consistent.openWallet (hc : b.Consistent) {w : WalletRow}
    (hid : ∀ v ∈ b.wallets, v.id ≠ w.id) (hbalance : w.balance = 0) (hversion : w.version = 1)
    (hiso : isIsoCurrency w.currency = true) : (b.openWallet w).Consistent := by
  -- whatever has moved or waits points at a wallet that was there before
  have hexists : ∀ {id currency : Text}, (∃ v ∈ b.wallets, v.id = id ∧ v.currency = currency) →
      ∃ v ∈ (b.openWallet w).wallets, v.id = id ∧ v.currency = currency := by
    rintro id currency ⟨v, hv, h⟩
    exact ⟨v, List.mem_append_left _ hv, h⟩
  obtain ⟨hmoved, hentries, hopened⟩ := hc.untouched hid
  have hchanges := hc.changes_absent hid
  refine
    { walletIds := hc.walletIds.concat hid
      wagerIds := hc.wagerIds
      wallets := fun v hv => ?_
      wagers := fun t ht =>
        { hc.wagers t ht with
          wallet := fun hs => hexists ((hc.wagers t ht).wallet hs)
          observed := fun c hcur => hexists ((hc.wagers t ht).observed c hcur)
          settled := (hc.wagers t ht).settled.openWallet }
      slots := hc.slots
      entries := hc.entries
      events := hc.events }
  rcases List.mem_append.mp hv with hv | hv
  · exact { hc.wallets v hv with }
  · rw [List.mem_singleton] at hv
    subst hv
    have hentries' : (b.openWallet v).walletEntries v.id = [] := hentries
    have hopened' : (b.openWallet v).opened v.id = false := hopened
    exact
      { nonneg := by rw [hbalance]
        inRange := by rw [hbalance]; decide
        isoCurrency := hiso
        chain := by rw [hentries', hbalance]; exact .nil
        version := by rw [hentries', firstVersion, hopened', hversion]; rfl
        opening := fun e he => by rw [hentries'] at he; cases he
        openingFirst := fun h => by rw [hopened'] at h; cases h
        changes := by rw [hentries']; exact hchanges }

end Books

end Wagering
