import Wagering.Guarantees.Balances
import Wagering.Publishing.Service

/-!
# Announcements

The rows of the outbox are the image of the committed facts: every fact is
announced once, by an event of its own type that carries its data, and nothing
else is.  Whoever applies the balance changes of a wallet in the order of their
versions arrives at its balance.
-/

namespace Wagering

open Interleave RunningBalance

/-! ## Events of one type -/

namespace EventData

/-- A `WagerTransactionProcessed`. -/
def isProcessed : EventData → Bool
  | .processed _ => true
  | _ => false

/-- A `WagerTransactionRejected`. -/
def isRejected : EventData → Bool
  | .rejected _ => true
  | _ => false

/-- A `WagerTransactionPendingReference`. -/
def isPendingReference : EventData → Bool
  | .pendingReference _ => true
  | _ => false

/-- A `WalletBalanceChanged`. -/
def isBalanceChanged : EventData → Bool
  | .balanceChanged _ => true
  | _ => false

end EventData

/-- What one decision announces about the transaction itself. -/
def WagerTransactionRow.decisionImage (t : WagerTransactionRow) : List EventData :=
  match t.status with
  | .processed => [t.processedData]
  | .rejected | .failed => [t.rejectedData]
  | _ => []

namespace Books

variable {b : Books} {t : WagerTransactionRow}

/-- The events of one type that the outbox holds about a transaction. -/
def announced (b : Books) (type : EventData → Bool) (transactionId : Text) : List EventData :=
  (b.imageOf transactionId).filter type

/-- The image of a transaction, taken apart. -/
theorem Settled.image (h : b.Settled t) :
    ∃ version, b.imageOf t.id = t.pendingImage ++ t.decisionImage ++
      (b.entriesOf t.id).map fun e => .balanceChanged (e.changedData version) := by
  unfold Settled at h
  unfold WagerTransactionRow.decisionImage
  cases hs : t.status with
  | pending => rw [hs] at h; exact h.elim
  | pendingReference =>
    rw [hs] at h
    exact ⟨0, by rw [h.1, h.2.1]; simp⟩
  | processed =>
    rw [hs] at h
    by_cases hk : t.kind = .loss
    · simp only [hk, if_true] at h
      exact ⟨0, by rw [h.1, h.2]; simp⟩
    · simp only [hk, if_false] at h
      obtain ⟨e, version, hentries, -, himage⟩ := h
      exact ⟨version, by rw [hentries, himage]; simp⟩
  | rejected =>
    rw [hs] at h
    exact ⟨0, by rw [h.1, h.2]; simp⟩
  | failed =>
    rw [hs] at h
    exact ⟨0, by rw [h.1, h.2]; simp⟩

/-- Each type of event keeps its part of the image. -/
theorem Settled.announced_eq (h : b.Settled t) {type : EventData → Bool} :
    ∃ version, b.announced type t.id = t.pendingImage.filter type ++
      t.decisionImage.filter type ++
        ((b.entriesOf t.id).map fun e => .balanceChanged (e.changedData version)).filter type := by
  obtain ⟨version, himage⟩ := h.image
  exact ⟨version, by rw [announced, himage, List.filter_append, List.filter_append]⟩

theorem filter_pendingImage {type : EventData → Bool}
    (h : ∀ data, type (.pendingReference data) = false) :
    t.pendingImage.filter type = [] := by
  unfold WagerTransactionRow.pendingImage WagerTransactionRow.pendingData
  split <;> simp [h]

theorem filter_decisionImage {type : EventData → Bool} (h : ∀ data, type (.processed data) = false)
    (h' : ∀ data, type (.rejected data) = false) : t.decisionImage.filter type = [] := by
  unfold WagerTransactionRow.decisionImage WagerTransactionRow.processedData
    WagerTransactionRow.rejectedData
  split <;> simp [h, h']

theorem filter_changes {type : EventData → Bool} (h : ∀ data, type (.balanceChanged data) = false)
    {entries : List WalletLedgerEntryRow} {version : Int} :
    (entries.map fun e => EventData.balanceChanged (e.changedData version)).filter type = [] := by
  simp [List.filter_eq_nil_iff, h]

/-- What a waiting transaction announced is announced once. -/
theorem Settled.pendingReference (h : b.Settled t) :
    b.announced EventData.isPendingReference t.id = t.pendingImage := by
  obtain ⟨version, heq⟩ := @h.announced_eq _ _ EventData.isPendingReference
  rw [heq, filter_decisionImage (fun _ => rfl) fun _ => rfl, filter_changes fun _ => rfl,
    List.append_nil, List.append_nil, List.filter_eq_self]
  unfold WagerTransactionRow.pendingImage WagerTransactionRow.pendingData
  split <;> simp [EventData.isPendingReference]

/-- A processed transaction is announced once. -/
theorem Settled.processed (h : b.Settled t) (hs : t.status = .processed) :
    b.announced EventData.isProcessed t.id = [t.processedData] := by
  obtain ⟨version, heq⟩ := @h.announced_eq _ _ EventData.isProcessed
  rw [heq, filter_pendingImage fun _ => rfl, filter_changes fun _ => rfl, List.nil_append,
    List.append_nil, WagerTransactionRow.decisionImage, hs]
  rfl

/-- A transaction that was refused is announced once. -/
theorem Settled.refused (h : b.Settled t) (hs : t.status = .rejected ∨ t.status = .failed) :
    b.announced EventData.isRejected t.id = [t.rejectedData] := by
  obtain ⟨version, heq⟩ := @h.announced_eq _ _ EventData.isRejected
  rw [heq, filter_pendingImage fun _ => rfl, filter_changes fun _ => rfl, List.nil_append,
    List.append_nil, WagerTransactionRow.decisionImage]
  rcases hs with hs | hs <;> rw [hs] <;> rfl

/-- An entry is announced once. -/
theorem Settled.balanceChanged (h : b.Settled t) {e : WalletLedgerEntryRow}
    (hentries : b.entriesOf t.id = [e]) :
    ∃ version,
      b.announced EventData.isBalanceChanged t.id = [.balanceChanged (e.changedData version)] := by
  obtain ⟨version, heq⟩ := @h.announced_eq _ _ EventData.isBalanceChanged
  refine ⟨version, ?_⟩
  rw [heq, filter_pendingImage fun _ => rfl,
    filter_decisionImage (fun _ => rfl) fun _ => rfl, hentries]
  rfl

end Books

/-! ## Applying the changes of a wallet -/

section Applied

variable [Platform]

/-- The balance after one change after the other, from the texts of the events. -/
def applyChanges : Int → List WalletBalanceChangedData → Option Int
  | balance, [] => some balance
  | balance, change :: rest =>
    match Money.from change.money with
    | .ok money => applyChanges (balance + change.direction.signed money.cents) rest
    | .error _ => none

/-- The balance changes of a wallet are numbered from `first` on, without a gap,
and lead from nothing to its balance. -/
def Books.Reproduces (b : Books) (v : WalletRow) (first : Int) : Prop :=
  ∃ changes, changes.Perm (b.changesOf v.id) ∧
    changes.map WalletBalanceChangedData.walletVersion =
      (List.range changes.length).map (fun i : Nat => first + (i : Int)) ∧
    applyChanges 0 changes = some v.balance

/-- An entry whose amount the texts of its event can carry. -/
structure WalletLedgerEntryRow.Readable (e : WalletLedgerEntryRow) : Prop where
  nonneg : 0 ≤ e.amount
  inRange : e.amount.natAbs ≤ maxAbsolute
  isoCurrency : isIsoCurrency e.currency = true
  arithmetic : e.balanceAfter = e.balanceBefore + e.signed

/-- The changes of a chain of entries lead from its start to its end, whatever
versions they carry. -/
theorem applyChanges_chain {entries : List WalletLedgerEntryRow} {first last : Int}
    (hchain : Chain WalletLedgerEntryRow.balanceBefore WalletLedgerEntryRow.balanceAfter first
      entries last) (hreadable : ∀ e ∈ entries, e.Readable) (version : Nat → Int) :
    applyChanges first (entries.mapIdx fun i e => e.changedData (version i)) = some last := by
  induction entries generalizing first version with
  | nil =>
    cases hchain
    rfl
  | cons e rest ih =>
    obtain ⟨hbefore, hrest⟩ := hchain
    have hread := hreadable e List.mem_cons_self
    have hmoney : Money.from (e.changedData (version 0)).money =
        .ok ⟨e.amount, e.currency, hread.inRange, hread.isoCurrency⟩ :=
      Money.from_toFixed hread.nonneg hread.inRange hread.isoCurrency
    have hafter : first + (e.changedData (version 0)).direction.signed e.amount =
        e.balanceAfter := by
      rw [hread.arithmetic, hbefore]
      rfl
    rw [List.mapIdx_cons, applyChanges, hmoney]
    simp only [hafter]
    exact ih hrest (fun e' he' => hreadable e' (List.mem_cons_of_mem _ he')) fun i =>
      version (i + 1)

namespace Books

variable {b : Books}

/-- Every entry of right books can be read from its event. -/
theorem Consistent.readable (hc : b.Consistent) {e : WalletLedgerEntryRow} (he : e ∈ b.ledger) :
    e.Readable := by
  obtain ⟨t, ht, -, -, -, -, enters⟩ := hc.entry he
  have right := hc.wagers t ht
  constructor
  · rw [enters.amount]
    exact Int.le_of_lt right.positive
  · rw [enters.amount]
    exact right.inRange
  · rw [enters.currency]
    exact right.isoCurrency
  · exact enters.arithmetic

/-- The changes of a wallet are numbered and lead to its balance. -/
theorem Consistent.reproduces (hc : b.Consistent) {v : WalletRow} (hv : v ∈ b.wallets) :
    b.Reproduces v (b.firstVersion v.id) := by
  have right := hc.wallets v hv
  refine ⟨b.changesOf v.id, .refl _, ?versions, ?applied⟩
  case versions =>
    rw [right.changes]
    refine List.ext_getElem (by simp) fun i h h' => ?_
    simp [WalletLedgerEntryRow.changedData]
  case applied =>
    rw [right.changes]
    exact applyChanges_chain right.chain
      (fun e he => hc.readable (mem_walletEntries.mp he).1) fun i => b.firstVersion v.id + i

end Books

end Applied

/-! ## Over every run -/

section Statements

variable [Platform] [Driver]

/-- A commit left the transaction waiting for its reference. -/
def EverPending (w : Service) (id : Text) : Prop :=
  ∃ i sh l a, (i, .committed sh l a) ∈ w.history ∧
    ∃ t ∈ (l.view sh.db).wagers, t.id = id ∧ t.status = .pendingReference

/-- A request opened the wallet with this money. -/
def OpenedWith (w : Service) (id : Text) (money : Money) : Prop :=
  ∃ i command sh l view, (∃ s, w.sessions[i]? = some s ∧ s.entry = .createWallet command) ∧
    (i, .committed sh l (.wallet view)) ∈ w.history ∧ view.id = id ∧
      Money.from command.initialBalance = .ok money

/-- The fact that an event announces. -/
def Announces (w : Service) : EventData → Prop
  | .processed data => ∃ t ∈ w.shared.db.wagers, t.status = .processed ∧
      .processed data = t.processedData
  | .rejected data => ∃ t ∈ w.shared.db.wagers, (t.status = .rejected ∨ t.status = .failed) ∧
      .rejected data = t.rejectedData
  | .pendingReference data => ∃ t ∈ w.shared.db.wagers, EverPending w t.id ∧
      .pendingReference data = t.pendingData
  | .balanceChanged data => ∃ e ∈ w.shared.db.ledger, ∃ version, data = e.changedData version

/-- The transaction replayed another one, or rescheduled or found nothing to do. -/
def Answer.isSilent : Answer → Bool
  | .submitted result => result.idempotentReplay
  | .consumed (.processed result) => result.idempotentReplay
  | .consumed _ => true
  | .resolved .idle => true
  | .resolved (.rescheduled _ _ _ _ _) => true
  | _ => false

/-- What the outbox is in relation to the rest of the database. -/
structure ImageOfFacts (w : Service) : Prop where
  pending : ∀ id, EverPending w id → ∃ t ∈ w.shared.db.wagers, t.id = id ∧
    w.shared.db.books.announced EventData.isPendingReference id = [t.pendingData]
  processed : ∀ t ∈ w.shared.db.wagers, t.status = .processed →
    w.shared.db.books.announced EventData.isProcessed t.id = [t.processedData]
  refused : ∀ t ∈ w.shared.db.wagers, t.status = .rejected ∨ t.status = .failed →
    ∃ code data, t.failureCode = some code ∧ data.failureCode = code.text ∧
      .rejected data = t.rejectedData ∧
        w.shared.db.books.announced EventData.isRejected t.id = [.rejected data]
  entries : ∀ e ∈ w.shared.db.ledger, ∃ version,
    w.shared.db.books.announced EventData.isBalanceChanged e.transactionId =
      [.balanceChanged (e.changedData version)]
  others : ∀ m ∈ w.shared.db.outbox, Announces w m.payload.data
  eventIds : (w.shared.db.outbox.map fun m => m.payload.eventId).Nodup
  silent : ∀ i sh l a, (i, .committed sh l a) ∈ w.history → a.isSilent = true →
    (l.view sh.db).outbox = sh.db.outbox
  wallets : ∀ v ∈ w.shared.db.wallets, ∃ money, OpenedWith w v.id money ∧
    w.shared.db.books.Reproduces v (if 0 < money.cents then 1 else 2)

end Statements

section Proofs

variable [Platform] [Driver] {w : Service} {i : Nat} {sh : Shared} {l : Local} {a : Answer}

omit [Driver] in
/-- A pending transaction keeps the date that it expires on. -/
theorem Sound.expires (h : Sound sh) {t : WagerTransactionRow} (ht : t ∈ sh.db.wagers)
    (hs : t.status = .pendingReference) : t.expiresAt.isSome = true := by
  have hsettled := (h.books.wagers t ht).settled
  rw [Books.Settled, hs] at hsettled
  exact hsettled.2.2

/-- The transactions that ever waited are those that have a date to expire on. -/
theorem Reachable.everPending_iff (h : Reachable w) {t : WagerTransactionRow}
    (ht : t ∈ w.shared.db.wagers) : EverPending w t.id ↔ t.expiresAt.isSome = true := by
  constructor
  · rintro ⟨i, sh, l, a, hmem, p, hp, hid, hs⟩
    obtain ⟨entry, past, hcommitted⟩ := h.commit_recorded hmem
    have hsound := hcommitted.ready.sound hcommitted.sound hcommitted.own
    obtain ⟨t', ht', same, hexpires, -⟩ := hcommitted.since.wagers p hp
    have heq : t' = t := h.sound.inv.books.eq_of_id ht' ht (same.id.symm.trans hid)
    rw [← heq, ← hexpires]
    exact hsound.expires hp hs
  · intro hexpires
    have horigin := @World.Steps.origin _ _ store Entry Answer units
      (fun sh : Shared => ∃ p ∈ sh.db.wagers, p.id = t.id ∧ p.expiresAt.isSome = true)
      (fun hop hp => (exec_effect hop).1 ▸ hp) (fun ha hp => ?_) _ _ h ⟨t, ht, rfl, hexpires⟩
    · rcases horigin with ⟨p, hp, -⟩ | ⟨i, sh, l, a, hmem, hbefore, p, hp, hid, hsome⟩
      · cases hp
      · refine ⟨i, sh, l, a, hmem, p, hp, hid, ?_⟩
        obtain ⟨entry, past, hcommitted⟩ := h.commit_recorded hmem
        obtain ⟨c, hallows, hbooks, -, -⟩ := hcommitted.ready.change
        have hamends := hallows.amends hcommitted.sound.books
        rw [← hbooks] at hamends
        rcases hamends.wagerNew p hp with hold | ⟨d, hd, rfl⟩
        · exact absurd ⟨p, hold, hid, hsome⟩ hbefore
        · rcases (hallows.decides d hd).prior with ⟨-, hpending⟩ | ⟨q, hq, -, same, hexp⟩
          · exact hpending hsome
          · rw [(Books.withWallet_eq c.opened).1] at hq
            exact absurd ⟨q, hq, same.id.trans hid, hexp ▸ hsome⟩ hbefore
    · obtain ⟨outbox, publishing, rfl, -, -⟩ := ambient_same ha
      exact hp

omit [Platform] [Driver] in
/-- A transaction without an event adds no row to the outbox. -/
theorem outbox_same (h : (l.view sh.db).books.events = sh.db.books.events) :
    (l.view sh.db).outbox = sh.db.outbox := by
  have hrows : (l.view sh.db).outbox = sh.db.outbox ++ newMessages l.log := outbox_after _ _
  have hlength := congrArg List.length h
  simp only [Database.books, hrows, List.length_map, List.length_append] at hlength
  have hnone : newMessages l.log = [] := List.length_eq_zero_iff.mp (by omega)
  rw [hrows, hnone, List.append_nil]

omit [Platform] [Driver] in
theorem outbox_idle (h : businessOf l.log = []) : (l.view sh.db).outbox = sh.db.outbox := by
  rw [Local.view, (after_business sh.db l.log).2.2.2, h]
  rfl

omit [Driver] in
theorem Submission.silent {command : SubmitWagerCommand} {result : SubmitWagerResult}
    (h : Submission command sh l result) (hreplay : result.idempotentReplay = true) :
    (l.view sh.db).outbox = sh.db.outbox := by
  cases h with
  | replayed lost => exact outbox_idle lost.idle
  | decided concluded key external hash kept inserted stored status answer =>
    rw [answer] at hreplay
    cases hreplay

/-- Replays and reschedules announce nothing. -/
theorem Committed.silent {entry : Entry} {past : List (Ending store Answer)}
    (h : Committed w i sh l a entry past) (hsilent : a.isSilent = true) :
    (l.view sh.db).outbox = sh.db.outbox := by
  have hcommits := h.commits
  cases entry with
  | createWallet command =>
    obtain ⟨view, rfl, -⟩ := hcommits
    cases hsilent
  | submit command =>
    obtain ⟨result, rfl, -, submission⟩ := hcommits
    exact submission.silent hsilent
  | consume delivery command =>
    obtain ⟨outcome, rfl, consumption⟩ := hcommits
    cases consumption with
    | processed inbox submission => exact submission.silent hsilent
    | duplicate log => exact outbox_idle (by rw [log]; rfl)
    | permanent log => exact outbox_idle (by rw [log]; rfl)
  | resolvePending =>
    obtain ⟨outcome, rfl, settles⟩ := hcommits
    cases settles with
    | first hresolves =>
      cases hresolves.2 with
      | idle log => exact outbox_idle (by rw [log]; rfl)
      | rescheduled concluded stands status still =>
        refine outbox_same ?_
        rw [concluded.books h.sound, Books.record, still.2, List.append_nil]
      | settled => cases hsilent
    | second attempted failure lasting inbox hgiven =>
      cases hgiven
      cases hsilent

/-- The transaction brings no wallet. -/
def BringsNoWallet (sh : Shared) (l : Local) : Prop :=
  ∀ v ∈ (l.view sh.db).wallets, ∃ v' ∈ sh.db.wallets, v'.id = v.id

omit [Platform] [Driver] in
theorem bringsNoWallet_idle (h : businessOf l.log = []) : BringsNoWallet sh l := by
  intro v hv
  rw [view_wallets_idle h] at hv
  exact ⟨v, hv, rfl⟩

omit [Driver] in
theorem Concluded.bringsNoWallet {d : Decision} (h : Concluded d sh l) (hs : Sound sh) :
    BringsNoWallet sh l := by
  intro v hv
  have hbooks : v ∈ (sh.db.books.record d).wallets := h.books hs ▸ hv
  cases hmovement : d.movement with
  | none =>
    rw [Books.record, hmovement] at hbooks
    exact ⟨v, hbooks, rfl⟩
  | some move =>
    obtain ⟨e, v'⟩ := move
    obtain ⟨-, u, moves, -⟩ := h.decides.moves hmovement
    rw [Books.record, hmovement] at hbooks
    rcases Keyed.mem_put.mp hbooks with rfl | ⟨hold, -⟩
    · exact ⟨u, moves.wallet, moves.same.id⟩
    · exact ⟨v, hold, rfl⟩

omit [Driver] in
theorem Submission.bringsNoWallet {command : SubmitWagerCommand} {result : SubmitWagerResult}
    (h : Submission command sh l result) (hs : Sound sh) : BringsNoWallet sh l := by
  cases h with
  | decided concluded => exact concluded.bringsNoWallet hs
  | replayed lost => exact bringsNoWallet_idle lost.idle

omit [Driver] in
theorem Consumption.bringsNoWallet {delivery : InboxDelivery} {command : SubmitWagerCommand}
    {outcome : ConsumeOutcome} (h : Consumption delivery command sh l outcome) (hs : Sound sh) :
    BringsNoWallet sh l := by
  cases h with
  | processed inbox submission => exact submission.bringsNoWallet hs
  | duplicate log => exact bringsNoWallet_idle (by rw [log]; rfl)
  | permanent log => exact bringsNoWallet_idle (by rw [log]; rfl)

theorem Settles.bringsNoWallet {past : List (Ending store Answer)}
    {outcome : PendingReferenceOutcome} (h : Settles past sh l outcome) (hs : Sound sh) :
    BringsNoWallet sh l := by
  cases h with
  | first h =>
    cases h.2 with
    | idle log => exact bringsNoWallet_idle (by rw [log]; rfl)
    | rescheduled concluded => exact concluded.bringsNoWallet hs
    | settled concluded => exact concluded.bringsNoWallet hs
  | second attempted failure lasting inbox h =>
    cases h with
    | mk concluded => exact concluded.bringsNoWallet hs

omit [Driver] in
theorem WalletCreated.opens {command : CreateWalletCommand} {view : WalletView} {v : WalletRow}
    (h : WalletCreated command sh l view) (hv : v ∈ (l.view sh.db).wallets)
    (hnew : ¬ ∃ u ∈ sh.db.wallets, u.id = v.id) : view.id = v.id := by
  obtain ⟨u, hwallets, hid⟩ := h.wallets
  rw [hwallets] at hv
  rcases List.mem_append.mp hv with hold | hlast
  · exact absurd ⟨v, hold, rfl⟩ hnew
  · rw [List.mem_singleton.mp hlast, hid]

/-- A wallet was opened by a request, and how much it was opened with decides
which version its first change leads to. -/
theorem Reachable.openedWith (h : Reachable w) {v : WalletRow} (hv : v ∈ w.shared.db.wallets) :
    ∃ money, OpenedWith w v.id money ∧
      w.shared.db.books.firstVersion v.id = if 0 < money.cents then 1 else 2 := by
  obtain ⟨i, sh, l, a, hmem, hbefore, u, hu, huid⟩ := h.wallet_origin ⟨v, hv, rfl⟩
  obtain ⟨entry, past, hcommitted⟩ := h.commit_recorded hmem
  have hnew : ¬ ∃ u' ∈ sh.db.wallets, u'.id = u.id := huid ▸ hbefore
  have hcommits := hcommitted.commits
  cases entry with
  | createWallet command =>
    obtain ⟨view, rfl, created⟩ := hcommits
    obtain ⟨money, hmoney, hopened⟩ := created.money
    have hid : view.id = v.id := (created.opens hu hnew).trans huid
    refine ⟨money, ⟨i, command, sh, l, view, hcommitted.session, hmem, hid, hmoney⟩, ?_⟩
    have hkept : w.shared.db.books.opened u.id = (l.view sh.db).books.opened u.id :=
      hcommitted.since.opened u hu
    rw [Books.firstVersion, ← huid, hkept, huid, ← hid, hopened]
    simp only [decide_eq_true_eq]
  | submit command =>
    obtain ⟨result, -, -, submission⟩ := hcommits
    exact absurd (submission.bringsNoWallet hcommitted.sound u hu) hnew
  | consume delivery command =>
    obtain ⟨outcome, -, consumption⟩ := hcommits
    exact absurd (consumption.bringsNoWallet hcommitted.sound u hu) hnew
  | resolvePending =>
    obtain ⟨outcome, -, settles⟩ := hcommits
    exact absurd (settles.bringsNoWallet hcommitted.sound u hu) hnew

/-- The fact behind an event is in the books. -/
theorem Reachable.announces (h : Reachable w) {m : OutboxMessageRow}
    (hm : m ∈ w.shared.db.outbox) : Announces w m.payload.data := by
  have hc := h.sound.inv.books
  obtain ⟨-, t, ht, hid⟩ := hc.events m.payload (List.mem_map_of_mem hm)
  have hdata : m.payload.data ∈ w.shared.db.books.imageOf t.id :=
    List.mem_filter.mpr ⟨List.mem_map_of_mem (List.mem_map_of_mem hm), by simp [hid]⟩
  obtain ⟨version, himage⟩ := (hc.wagers t ht).settled.image
  rw [himage, List.mem_append, List.mem_append] at hdata
  rcases hdata with (hdata | hdata) | hdata
  · unfold WagerTransactionRow.pendingImage at hdata
    split at hdata
    · rename_i hexpires
      rw [List.mem_singleton.mp hdata]
      exact ⟨t, ht, (h.everPending_iff ht).mpr hexpires, rfl⟩
    · cases hdata
  · unfold WagerTransactionRow.decisionImage at hdata
    cases hs : t.status with
    | processed =>
      rw [hs, List.mem_singleton] at hdata
      rw [hdata]
      exact ⟨t, ht, hs, rfl⟩
    | rejected =>
      rw [hs, List.mem_singleton] at hdata
      rw [hdata]
      exact ⟨t, ht, .inl hs, rfl⟩
    | failed =>
      rw [hs, List.mem_singleton] at hdata
      rw [hdata]
      exact ⟨t, ht, .inr hs, rfl⟩
    | pending => rw [hs] at hdata; cases hdata
    | pendingReference => rw [hs] at hdata; cases hdata
  · obtain ⟨e, he, heq⟩ := List.mem_map.mp hdata
    rw [← heq]
    exact ⟨e, (Books.mem_entriesOf.mp he).1, version, rfl⟩

omit [Driver] in
/-- Whatever is refused has a failure code. -/
theorem Sound.failureCode (h : Sound sh) {t : WagerTransactionRow} (ht : t ∈ sh.db.wagers)
    (hs : t.status = .rejected ∨ t.status = .failed) : ∃ code, t.failureCode = some code := by
  have hchecks := (h.wagers t ht).checks
  simp only [wagerCheckRules, List.forall_mem_cons] at hchecks
  obtain ⟨-, -, -, -, hcode, -⟩ := hchecks
  simp only [check, decide_eq_true_eq] at hcode
  refine Option.isSome_iff_exists.mp ?_
  rcases hs with hs | hs <;> rw [hcode, hs] <;> rfl

/-- In every reachable state the outbox is the image of the committed facts. -/
theorem Reachable.imageOfFacts (h : Reachable w) : ImageOfFacts w := by
  have hsound := h.sound.inv
  have hc := hsound.books
  constructor
  case pending =>
    rintro id hever
    obtain ⟨i, sh, l, a, hmem, p, hp, rfl, hs⟩ := hever
    obtain ⟨entry, past, hcommitted⟩ := h.commit_recorded hmem
    obtain ⟨t, ht, same, -⟩ := hcommitted.since.wagers p hp
    refine ⟨t, ht, same.id.symm, ?_⟩
    have hexpires := (h.everPending_iff ht).mp ⟨i, sh, l, a, hmem, p, hp, same.id, hs⟩
    rw [same.id, (hc.wagers t ht).settled.pendingReference, WagerTransactionRow.pendingImage,
      if_pos hexpires]
  case processed => exact fun t ht hs => (hc.wagers t ht).settled.processed hs
  case refused =>
    intro t ht hs
    obtain ⟨code, hcode⟩ := hsound.failureCode ht hs
    refine ⟨code, _, hcode, ?_, rfl, (hc.wagers t ht).settled.refused hs⟩
    simp only [hcode, Option.map_some, Option.getD_some]
  case entries =>
    intro e he
    obtain ⟨t, ht, hid, -, -, hentries, -⟩ := hc.entry he
    rw [← hid]
    exact (hc.wagers t ht).settled.balanceChanged hentries
  case others => exact fun m hm => h.announces hm
  case eventIds =>
    have hids : w.shared.db.outbox.map (fun m => m.payload.eventId) =
        w.shared.db.outbox.map OutboxMessageRow.id :=
      List.map_congr_left fun m hm => (h.outbox.2 m hm).id.symm
    rw [hids]
    exact hsound.outboxIds
  case silent =>
    intro i sh l a hmem hsilent
    obtain ⟨entry, past, hcommitted⟩ := h.commit_recorded hmem
    exact hcommitted.silent hsilent
  case wallets =>
    intro v hv
    obtain ⟨money, hopened, hfirst⟩ := h.openedWith hv
    exact ⟨money, hopened, hfirst ▸ hc.reproduces hv⟩

end Proofs

theorem sample_imageOfFacts : @ImageOfFacts samplePlatform sampleService :=
  @Reachable.imageOfFacts samplePlatform sampleDriver sampleService sample_reachable

end Wagering
