import Wagering.Isolation.Calls

/-!
# The transaction in hand

What a unit of work knows between its calls while it decides one transaction:
the transaction itself (`InHand`), the wallet that it locked (`Holding`), and
once it has decided, the decision (`Deciding`, and `Concluded` when every
statement has run).  Each is kept by whatever the others do.
-/

namespace Wagering

open Interleave

/-! ## What a log keeps -/

/-- The keys of a log are those of its business half, or inbox keys. -/
theorem mem_keysOf_business {log : List Write} {k : UniqueKey} (h : k ∈ keysOf log) :
    k ∈ keysOf (businessOf log) ∨ ∃ key, k = .inbox key := by
  simp only [keysOf, List.mem_flatMap] at h ⊢
  obtain ⟨write, hmem, hk⟩ := h
  cases hw : write.isInbox with
  | false => exact .inl ⟨write, List.mem_filter.mpr ⟨hmem, by simp [hw]⟩, hk⟩
  | true =>
    cases write with
    | insertInbox row => exact .inr ⟨row.key, List.mem_singleton.mp hk⟩
    | markInbox key at_ => cases hk
    | _ => cases hw

theorem mem_keysOf_of_business {log : List Write} {k : UniqueKey}
    (h : k ∈ keysOf (businessOf log)) : k ∈ keysOf log := by
  simp only [keysOf, List.mem_flatMap] at h ⊢
  obtain ⟨write, hmem, hk⟩ := h
  exact ⟨write, mem_of_mem_businessOf hmem, hk⟩

/-- The keys of a transaction that has touched nothing but the inbox. -/
theorem inbox_of_mem_keys {l : Local} (hlog : businessOf l.log = []) {k : UniqueKey}
    (hk : k ∈ l.keys) :
    ∃ key, k = .inbox key := by
  rcases mem_keysOf_business hk with h | h
  · rw [hlog] at h
    cases h
  · exact h

theorem view_wagers_idle {sh : Shared} {l : Local} (hlog : businessOf l.log = []) :
    (l.view sh.db).wagers = sh.db.wagers := by
  rw [Local.view, (after_business sh.db l.log).2.1, hlog]
  rfl

theorem view_wallets_idle {sh : Shared} {l : Local} (hlog : businessOf l.log = []) :
    (l.view sh.db).wallets = sh.db.wallets := by
  rw [Local.view, (after_business sh.db l.log).1, hlog]
  rfl

/-- `l'` continues `l` without touching the inbox. -/
structure Local.Follows (l l' : Local) : Prop where
  log : l.log <+: l'.log
  inbox : inboxOf l'.log = inboxOf l.log
  lostAt : l'.lostAt = l.lostAt
  readings : l.readings <:+ l'.readings

theorem Local.Follows.refl (l : Local) : l.Follows l :=
  ⟨List.prefix_refl _, rfl, rfl, List.suffix_refl _⟩

theorem Local.Follows.trans {l l' l'' : Local} (h : l.Follows l') (h' : l'.Follows l'') :
    l.Follows l'' :=
  ⟨h.log.trans h'.log, h'.inbox.trans h.inbox, h'.lostAt.trans h.lostAt,
    h.readings.trans h'.readings⟩

theorem Local.Follows.push {l l' : Local} (h : l.Follows l') (write : Write)
    (hw : write.isInbox = false) : l.Follows (l'.push write) :=
  ⟨h.log.trans (List.prefix_append _ _),
    by rw [← h.inbox]; simp [Local.push, inboxOf, hw], h.lostAt, h.readings⟩

theorem Local.Follows.identified {l l' : Local} (h : l.Follows l') (id : Text) :
    l.Follows { l' with ids := id :: l'.ids } :=
  ⟨h.log, h.inbox, h.lostAt, h.readings⟩

theorem Local.Follows.keys {l l' : Local} (h : l.Follows l') {k : UniqueKey} (hk : k ∈ l.keys) :
    k ∈ l'.keys := by
  obtain ⟨rest, hrest⟩ := h.log
  rw [Local.keys_eq, ← hrest, keysOf_append]
  exact List.mem_append_left _ hk

/-- `l'` differs from `l` in nothing that a decision rests on. -/
structure Local.Alike (l l' : Local) : Prop where
  business : businessOf l'.log = businessOf l.log
  keys : l'.keys = l.keys
  wallets : l'.wallets = l.wallets
  wagers : l'.wagers = l.wagers
  ids : ∀ id ∈ l.ids, id ∈ l'.ids
  lostAt : l'.lostAt = l.lostAt
  lookedAt : l'.lookedAt = l.lookedAt

theorem Local.Alike.identified (l : Local) (id : Text) : l.Alike { l with ids := id :: l.ids } :=
  ⟨rfl, rfl, rfl, rfl, fun _ h => List.mem_cons_of_mem _ h, rfl, rfl⟩

theorem Local.Alike.read (l : Local) (at_ : Instant) :
    l.Alike { l with readings := at_ :: l.readings } :=
  ⟨rfl, rfl, rfl, rfl, fun _ h => h, rfl, rfl⟩

theorem Local.Alike.marked (l : Local) (key : InboxKey) (processedAt : Instant) :
    l.Alike (l.push (.markInbox key processedAt)) :=
  ⟨by simp [Local.push, businessOf, Write.isInbox], by simp [Write.uniqueKeys], rfl, rfl,
    fun _ h => h, rfl, rfl⟩

/-! ## The statements of a decision -/

/-- The statements that record a decision, in the order the code runs them. -/
def Decision.writes (d : Decision) (rows : List OutboxMessageRow) : List Write :=
  .updateWager d.tx ::
    (match d.movement with
      | none => []
      | some (e, w) => [.insertLedger e, .updateWallet w]) ++
    if rows.isEmpty then [] else [.insertOutbox rows]

theorem SameIdentity.set_eq {t u : WagerTransactionRow} (h : SameIdentity t u) : u.set t = u := by
  cases t; cases u
  obtain ⟨rfl, rfl, rfl, rfl, rfl, rfl, rfl, rfl, rfl, rfl, rfl, rfl, rfl, rfl, rfl⟩ := h
  rfl

theorem SameWallet.set_eq {w w' : WalletRow} (h : SameWallet w w') : w'.set w = w' := by
  cases w; cases w'
  obtain ⟨rfl, rfl, rfl, rfl⟩ := h
  rfl

/-- An UPDATE of the row that has the key is a `put`. -/
theorem adjust_set_wager {wagers : List WagerTransactionRow} {p t : WagerTransactionRow}
    (h : Keyed.Distinct WagerTransactionRow.id wagers) (hp : p ∈ wagers) (same : SameIdentity p t) :
    Keyed.adjust WagerTransactionRow.id t.id t.set wagers =
      Keyed.put WagerTransactionRow.id t wagers := by
  have : Keyed.adjust WagerTransactionRow.id p.id t.set wagers =
      Keyed.put WagerTransactionRow.id (t.set p) wagers := Keyed.adjust_eq_put h hp rfl
  rwa [same.set_eq, same.id] at this

theorem adjust_set_wallet {wallets : List WalletRow} {w w' : WalletRow}
    (h : Keyed.Distinct WalletRow.id wallets) (hw : w ∈ wallets) (same : SameWallet w w') :
    Keyed.adjust WalletRow.id w'.id w'.set wallets = Keyed.put WalletRow.id w' wallets := by
  have : Keyed.adjust WalletRow.id w.id w'.set wallets =
      Keyed.put WalletRow.id (w'.set w) wallets := Keyed.adjust_eq_put h hw rfl
  rwa [same.set_eq, same.id] at this

/-- Where the row of a decided transaction comes from: it was inserted just
before, or it is committed and waits. -/
inductive Prior (db : Database) (t : WagerTransactionRow) : List Write → Prop
  | inserted {row : WagerTransactionRow} (same : SameIdentity row t)
    (fresh : ∀ r ∈ db.wagers, r.id ≠ t.id) : Prior db t [.insertWager row]
  | committed {p : WagerTransactionRow} (mem : p ∈ db.wagers) (same : SameIdentity p t) :
    Prior db t []

/-- The statements of a decision record it in the books. -/
theorem books_after_writes {db : Database} {d : Decision} {prior : List Write}
    {rows : List OutboxMessageRow} (hwallets : Keyed.Distinct WalletRow.id db.wallets)
    (hwagers : Keyed.Distinct WagerTransactionRow.id db.wagers)
    (hprior : Prior db d.tx prior) (hevents : rows.map OutboxMessageRow.payload = d.events)
    (hmove : ∀ m ∈ d.movement, ∃ w ∈ db.wallets, SameWallet w m.2) :
    (db.after (prior ++ d.writes rows)).books = db.books.record d := by
  have houtbox : ∀ db : Database,
      (db.after (if rows.isEmpty then [] else [.insertOutbox rows])).books =
        { db.books with events := db.books.events ++ d.events } := by
    intro db
    cases rows with
    | nil =>
      have : d.events = [] := by simpa using hevents.symm
      simp [this]
    | cons row rows =>
      simp [Database.after, Write.apply, Database.books, ← hevents]
  have hmid : (db.after (prior ++ [.updateWager d.tx])) =
      { db with wagers := Keyed.put WagerTransactionRow.id d.tx db.wagers } := by
    cases hprior with
    | @inserted row same fresh =>
      have hput : Keyed.put WagerTransactionRow.id d.tx db.wagers = db.wagers ++ [d.tx] :=
        Keyed.put_of_absent fresh
      have hadjust : Keyed.adjust WagerTransactionRow.id d.tx.id d.tx.set (db.wagers ++ [row]) =
          db.wagers ++ [d.tx] := by
        rw [Keyed.adjust_append, Keyed.adjust_of_absent fresh]
        simp [Keyed.adjust, same.id, same.set_eq]
      simp only [Database.after, List.cons_append, List.nil_append, List.foldl_cons,
        List.foldl_nil, Write.apply, hadjust, hput]
    | @committed p mem same =>
      simp only [Database.after, List.nil_append, List.foldl_cons, List.foldl_nil, Write.apply,
        adjust_set_wager hwagers mem same]
  rw [Decision.writes, List.cons_append, ← List.singleton_append, ← List.append_assoc,
    Database.after_append, hmid, Database.after_append, houtbox]
  cases hm : d.movement with
  | none => simp [Books.record, hm, Database.books]
  | some move =>
    obtain ⟨e, w'⟩ := move
    obtain ⟨w, hw, same⟩ := hmove _ hm
    simp [Books.record, hm, Database.books, Database.after, Write.apply,
      adjust_set_wallet hwallets hw same]

theorem Prior.rely {sh sh' : Shared} {l : Local} {t : WagerTransactionRow} {log : List Write}
    (h : Prior sh.db t log)
    (hr : Rely l sh sh') (ho' : Own sh' l) (hlog : ∀ k ∈ keysOf log, k ∈ l.keys) :
    Prior sh'.db t log := by
  cases h with
  | @inserted row same fresh =>
    refine .inserted same fun r hmem heq => ?_
    have hkey : .wagerId row.id ∈ l.keys := hlog _ List.mem_cons_self
    exact ho'.free _ hkey ((same.id.trans heq.symm) ▸ wagerId_mem_uniqueKeys hmem)
  | committed mem same =>
    obtain ⟨p', hp', same', -⟩ := hr.wagers _ mem
    refine .committed hp' ?_
    constructor
    all_goals first | exact same'.id.symm.trans same.id | skip
    all_goals cases same; cases same'; simp_all

theorem ledgerTransaction_mem_iff {db : Database} {transactionId walletId : Text} :
    .ledgerTransaction transactionId walletId ∈ db.uniqueKeys ↔
      ∃ e ∈ db.ledger, e.transactionId = transactionId ∧ e.walletId = walletId := by
  simp [Database.uniqueKeys, WalletRow.uniqueKeys, WagerTransactionRow.uniqueKeys,
    WalletLedgerEntryRow.uniqueKeys, OutboxMessageRow.uniqueKeys, eq_comm]

theorem wagerIdempotency_mem_iff {db : Database} {providerId key : Text} :
    .wagerIdempotency providerId key ∈ db.uniqueKeys ↔
      ∃ r ∈ db.wagers, r.providerId = providerId ∧ r.idempotencyKey = key := by
  simp [Database.uniqueKeys, WalletRow.uniqueKeys, WagerTransactionRow.uniqueKeys,
    WalletLedgerEntryRow.uniqueKeys, OutboxMessageRow.uniqueKeys, eq_comm]

theorem wagerExternal_mem_iff {db : Database} {providerId external : Text} :
    .wagerExternal providerId external ∈ db.uniqueKeys ↔
      ∃ r ∈ db.wagers, r.providerId = providerId ∧ r.externalTransactionId = external := by
  simp [Database.uniqueKeys, WalletRow.uniqueKeys, WagerTransactionRow.uniqueKeys,
    WalletLedgerEntryRow.uniqueKeys, OutboxMessageRow.uniqueKeys, eq_comm]

theorem Prior.wallets {db : Database} {tx : WagerTransactionRow} {log : List Write}
    (h : Prior db tx log) : (db.after log).wallets = db.wallets := by
  cases h <;> rfl

/-- The row that a decision updates is there. -/
theorem Prior.mem_updated {db : Database} {tx : WagerTransactionRow} {log : List Write}
    (h : Prior db tx log) :
    ∃ r ∈ (db.after (log ++ [.updateWager tx])).wagers, r.id = tx.id := by
  cases h with
  | @inserted row same fresh =>
    refine ⟨tx.set row, ?_, same.id⟩
    simp only [Database.after, List.cons_append, List.nil_append, List.foldl_cons, List.foldl_nil,
      Write.apply]
    exact Keyed.mem_adjust.mpr (.inl ⟨row, by simp, same.id, rfl⟩)
  | @committed p mem same =>
    refine ⟨tx.set p, ?_, same.id⟩
    simp only [Database.after, List.nil_append, List.foldl_cons, List.foldl_nil, Write.apply]
    exact Keyed.mem_adjust.mpr (.inl ⟨p, mem, same.id, rfl⟩)

theorem view_inbox {sh : Shared} {l : Local} (hlog : inboxOf l.log = []) :
    (l.view sh.db).inbox = sh.db.inbox := by
  rw [Local.view, after_eq, hlog]
  rfl

/-! ## The transaction -/

variable [Platform] {sh sh' : Shared} {l l' : Local} {t t' : WagerTransaction} {d : Decision}

/-- How a unit of work holds its transaction. -/
inductive Held (t : WagerTransaction) (sh : Shared) (l : Local) : Prop
  | reserved (log : businessOf l.log = [.insertWager (toWagerTransactionRow t)])
    (status : t.status = .pending) (expires : t.expiresAt = none) (attempts : t.attempts = 0)
  | locked (log : businessOf l.log = []) (status : t.status = .pendingReference)
    (mem : toWagerTransactionRow t ∈ sh.db.wagers) (lock : t.id ∈ l.wagers)

/-- How `t'` counts the attempts of `t`. -/
def Recounts (t t' : WagerTransaction) : Prop :=
  t'.attempts = t.attempts ∧ (t'.status = .pendingReference → t.status = .pending) ∨
    t.status = .pendingReference ∧ t'.status = .pendingReference ∧
      t' = { t with attempts := t.attempts + 1, nextAttemptAt := t'.nextAttemptAt }

/-- The transaction that a unit of work is about to decide. -/
structure InHand (t : WagerTransaction) (sh : Shared) (l : Local) : Prop where
  valid : (toWagerTransactionRow t).Valid
  storable : t.Storable
  unresolved : t.referenceTransactionId = none
  kind : t.kind ≠ .opening
  ids : ∀ k ∈ l.keys, ∀ id ∈ k.id?, id ∈ l.ids
  held : Held t sh l

namespace InHand

theorem rely (h : InHand t sh l) (hr : Rely l sh sh') : InHand t sh' l :=
  { h with
    held := by
      cases h.held with
      | reserved log status expires attempts => exact .reserved log status expires attempts
      | locked log status mem lock =>
        exact .locked log status ((hr.lockedWagers _ lock).mpr mem) lock }

/-- More identifiers, locks and readings do not matter. -/
theorem extend (h : InHand t sh l) (hlog : l'.log = l.log)
    (hwagers : ∀ id ∈ l.wagers, id ∈ l'.wagers) (hids : ∀ id ∈ l.ids, id ∈ l'.ids) :
    InHand t sh l' :=
  { h with
    ids := fun k hk id hid => hids id (h.ids k (by rwa [Local.keys_eq, hlog] at hk) id hid)
    held := by
      cases h.held with
      | reserved log status expires attempts =>
        exact .reserved (by rw [hlog, log]) status expires attempts
      | locked log status mem lock => exact .locked (by rw [hlog, log]) status mem (hwagers _ lock) }

theorem notTerminal (h : InHand t sh l) : t.status.isTerminal = false := by
  cases h.held with
  | reserved log status => rw [status]; rfl
  | locked log status => rw [status]; rfl

theorem view_wallets (h : InHand t sh l) : (l.view sh.db).wallets = sh.db.wallets := by
  rw [Local.view, (after_business sh.db l.log).1]
  cases h.held with
  | reserved log => rw [log]; rfl
  | locked log => rw [log]; rfl

theorem view_wagers (h : InHand t sh l) :
    (l.view sh.db).wagers = sh.db.wagers ++ [toWagerTransactionRow t] ∧ t.status = .pending ∨
      (l.view sh.db).wagers = sh.db.wagers ∧ toWagerTransactionRow t ∈ sh.db.wagers := by
  rw [Local.view, (after_business sh.db l.log).2.1]
  cases h.held with
  | reserved log status => exact .inl ⟨by rw [log]; rfl, status⟩
  | locked log status mem => exact .inr ⟨by rw [log]; rfl, mem⟩

theorem mem_view (h : InHand t sh l) {r : WagerTransactionRow} :
    r ∈ (l.view sh.db).wagers ↔ r ∈ sh.db.wagers ∨ r = toWagerTransactionRow t := by
  rcases h.view_wagers with ⟨heq, -⟩ | ⟨heq, hmem⟩
  · simp [heq]
  · rw [heq]
    exact ⟨.inl, fun h => h.elim id fun h => h ▸ hmem⟩

theorem view_valid (h : InHand t sh l) (hs : Sound sh) :
    ∀ row ∈ (l.view sh.db).wagers, row.Valid := by
  intro row hrow
  rcases h.mem_view.mp hrow with hrow | rfl
  · exact hs.wagers row hrow
  · exact h.valid

theorem holds_id (h : InHand t sh l) : .wagerId t.id ∈ l.holds := by
  cases h.held with
  | reserved log =>
    refine List.mem_append_right _ (mem_keysOf_of_business ?_)
    rw [log]
    exact List.mem_cons_self
  | locked _ _ _ lock => exact List.mem_append_left _ (Local.mem_locks.mpr (.inr ⟨_, lock, rfl⟩))

/-- A transaction that was just reserved is new. -/
theorem fresh (h : InHand t sh l) (ho : Own sh l) (hstatus : t.status = .pending) :
    ∀ r ∈ sh.db.wagers, r.id ≠ t.id := by
  cases h.held with
  | locked _ status => rw [hstatus] at status; cases status
  | reserved log =>
    intro r hr heq
    have hkey : .wagerId t.id ∈ l.keys := by
      refine mem_keysOf_of_business ?_
      rw [log]
      exact List.mem_cons_self
    exact ho.free _ hkey (heq ▸ wagerId_mem_uniqueKeys hr)

theorem lookup (h : InHand t sh l) (hs : Sound sh) (ho : Own sh l) :
    (l.view sh.db).wagerById t.id = some (toWagerTransactionRow t) := by
  rcases h.view_wagers with ⟨heq, hstatus⟩ | ⟨heq, hmem⟩
  · have hnone : Keyed.lookup WagerTransactionRow.id t.id sh.db.wagers = none :=
      Keyed.lookup_eq_none.mpr (h.fresh ho hstatus)
    rw [Database.wagerById, heq, Keyed.lookup_append, hnone]
    simp [Keyed.lookup, toWagerTransactionRow]
  · rw [Database.wagerById, heq]
    exact hs.books.wagerIds.lookup hmem

/-- A settled transaction is not the one in hand. -/
theorem ne_of_terminal (h : InHand t sh l) (hs : Sound sh) (ho : Own sh l)
    {r : WagerTransactionRow} (hr : r ∈ sh.db.wagers) (hterm : r.status.isTerminal = true) :
    r.id ≠ t.id := by
  intro heq
  cases h.held with
  | reserved log status => exact h.fresh ho status r hr heq
  | locked log status mem =>
    rw [hs.books.eq_of_id hr mem heq, show (toWagerTransactionRow t).status = t.status from rfl,
      status] at hterm
    cases hterm

/-- The transaction in hand is not a processed reversal. -/
theorem view_hasActiveReversal (h : InHand t sh l) (referenceId : Text) :
    hasActiveReversal (l.view sh.db).wagers referenceId =
      hasActiveReversal sh.db.wagers referenceId := by
  rcases h.view_wagers with ⟨heq, hstatus⟩ | ⟨heq, -⟩
  · have hpending : ¬ (toWagerTransactionRow t).status = .processed := by
      rw [show (toWagerTransactionRow t).status = t.status from rfl, hstatus]
      decide
    have hactive : isActiveReversal (sh.db.wagers ++ [toWagerTransactionRow t]) referenceId =
        isActiveReversal sh.db.wagers referenceId := by
      funext a
      simp [isActiveReversal, hpending]
    have hnot : isActiveReversal sh.db.wagers referenceId (toWagerTransactionRow t) = false := by
      simp [isActiveReversal, hpending]
    rw [heq, hasActiveReversal, hasActiveReversal, List.any_append, hactive]
    simp [hnot]
  · rw [heq]

/-- Where the row of the decided transaction comes from. -/
theorem prior (h : InHand t sh l) (ho : Own sh l)
    (same : t'.toCreateWagerTransactionProps = t.toCreateWagerTransactionProps) :
    Prior sh.db (toWagerTransactionRow t') (businessOf l.log) := by
  have hid : SameIdentity (toWagerTransactionRow t) (toWagerTransactionRow t') := by
    constructor <;> simp [toWagerTransactionRow, same]
  cases h.held with
  | reserved log status =>
    rw [log]
    exact .inserted hid fun r hr heq => h.fresh ho status r hr (heq.trans hid.id.symm)
  | locked log status mem =>
    rw [log]
    exact .committed mem hid

/-- A right outcome for the transaction in hand is a right decision. -/
theorem decides (h : InHand t sh l) (ho : Own sh l)
    (same : t'.toCreateWagerTransactionProps = t.toCreateWagerTransactionProps)
    (hexpires : t'.expiresAt = t.expiresAt ∨
      t.status = .pending ∧ t'.status = .pendingReference)
    (hattempts : Recounts t t')
    (hobserved : ∀ m ∈ t'.resultBalance,
      ∃ w ∈ sh.db.wallets, w.id = t.walletId ∧ w.currency = m.currency)
    {movement : Option (WalletLedgerEntryRow × WalletRow)} {events : List IntegrationEvent}
    (outcome : sh.db.books.Outcome (toWagerTransactionRow t') movement
      (events.map IntegrationEvent.data))
    (haggregates : ∀ ev ∈ events, ev.aggregateId = ev.data.aggregateId) :
    sh.db.books.Decides ⟨toWagerTransactionRow t', movement, events⟩ := by
  obtain ⟨hpos, hrange, -⟩ := h.valid.amounts
  have hid : SameIdentity (toWagerTransactionRow t) (toWagerTransactionRow t') := by
    constructor <;> simp [toWagerTransactionRow, same]
  refine
    { prior := ?prior
      counted := ?counted
      positive := hid.amount ▸ hpos
      inRange := hid.amount ▸ hrange
      isoCurrency := hid.currency ▸ h.valid.isoCurrency
      observed := fun c hc => by
        simp only [toWagerTransactionRow, Option.mem_def, Option.map_eq_some_iff] at hc
        obtain ⟨m, hm, rfl⟩ := hc
        obtain ⟨w, hw, hwid, hcur⟩ := hobserved m hm
        exact ⟨w, hw, hwid.trans hid.walletId, hcur⟩
      outcome
      aggregates := haggregates }
  case prior =>
    cases h.held with
    | reserved log status expires =>
      refine .inl ⟨fun r hr heq => h.fresh ho status r hr (heq.trans hid.id.symm), fun hsome => ?_⟩
      rcases hexpires with heq | ⟨-, hpending⟩
      · have : t'.expiresAt.isSome = true := hsome
        rw [heq, expires] at this
        cases this
      · exact hpending
    | locked log status mem =>
      rcases hexpires with heq | ⟨hpending, -⟩
      · exact .inr ⟨_, mem, status, hid, heq.symm⟩
      · rw [status] at hpending
        cases hpending
  case counted =>
    cases h.held with
    | reserved log status expires attempts =>
      refine .inl ⟨fun r hr heq => h.fresh ho status r hr (heq.trans hid.id.symm), ?_⟩
      rcases hattempts with ⟨heq, -⟩ | ⟨hpending, -⟩
      · exact heq.trans attempts
      · rw [status] at hpending
        cases hpending
    | locked log status mem =>
      refine .inr ⟨_, mem, hid.id, status, ?_⟩
      rcases hattempts with ⟨heq, hstays⟩ | ⟨-, hpending, heq⟩
      · have hnot : ¬ (toWagerTransactionRow t').status = .pendingReference := fun h => by
          rw [hstays h] at status
          cases status
        rw [if_neg hnot]
        exact heq
      · have hpending' : (toWagerTransactionRow t').status = .pendingReference := hpending
        rw [if_pos hpending']
        conv_lhs => rw [heq]
        rfl

end InHand

/-! ## The wallet -/

/-- The wallet that the unit of work has locked, as it read it. -/
structure Holding (w : Wallet) (sh : Shared) (l : Local) : Prop where
  mem : toWalletRow w ∈ sh.db.wallets
  lock : w.id ∈ l.wallets
  storable : w.Storable

theorem Holding.rely {w : Wallet} (h : Holding w sh l) (hr : Rely l sh sh') : Holding w sh' l :=
  ⟨(hr.lockedWallets _ h.lock).mpr h.mem, h.lock, h.storable⟩

/-! ## What a movement rests on -/

/-- A reversal that nothing else may undo stays one while its wallet is locked. -/
theorem noActiveReversal_rely (hr : Rely l sh sh') (hs' : Sound sh') {r : WagerTransactionRow}
    (hmem : r ∈ sh.db.wagers) (hprocessed : r.status = .processed) (hlock : r.walletId ∈ l.wallets)
    (h : hasActiveReversal sh.db.wagers r.id = false) :
    hasActiveReversal sh'.db.wagers r.id = false := by
  have hterm : ∀ {u : WagerTransactionRow}, u.status = .processed → u.status.isTerminal = true :=
    fun hu => by rw [hu]; rfl
  by_contra hne
  rw [Bool.not_eq_false, hasActiveReversal, List.any_eq_true] at hne
  obtain ⟨a, ha, hactive⟩ := hne
  obtain ⟨href, hproc, hrev, hundone⟩ := Books.isActiveReversal_iff.mp hactive
  obtain ⟨r', hr', hid, hreverses⟩ := (hs'.books.wagers a ha).reversal hproc hrev
  have hsame : r'.id = r.id := Option.some.inj (hid.symm.trans href)
  have heq := hs'.books.eq_of_id hr' (hr.terminal r hmem (hterm hprocessed)) hsame
  have hold : a ∈ sh.db.wagers := hr.processed a ha hproc (hreverses.walletId ▸ heq ▸ hlock)
  rw [hasActiveReversal, List.any_eq_false] at h
  refine h a hold (Books.isActiveReversal_iff.mpr ⟨href, hproc, hrev, fun u hu hund => ?_⟩)
  exact hundone u (hr.terminal u hu (hterm hund.2.1)) hund

/-- The reference of a transaction entitles it to move its wallet. -/
structure Entitled (t : WagerTransaction) (referenceId : Option Text)
    (direction : LedgerDirection) (sh : Shared) : Prop where
  reversal : t.kind.isReversal = true → ∃ r ∈ sh.db.wagers, referenceId = some r.id ∧
    Reverses (toWagerTransactionRow t) r ∧ hasActiveReversal sh.db.wagers r.id = false
  linked : ∀ id ∈ referenceId, ∃ r ∈ sh.db.wagers, r.id = id ∧ r.status = .processed
  directed : t.kind.baseDirection = some direction ∨
    t.kind = .rollback ∧ ∃ r ∈ sh.db.wagers, referenceId = some r.id ∧ r.status = .processed ∧
      r.kind.baseDirection = some direction.opposite

theorem Entitled.rely {referenceId : Option Text} {direction : LedgerDirection}
    (h : Entitled t referenceId direction sh) (hr : Rely l sh sh') (hs' : Sound sh')
    (hlock : t.walletId ∈ l.wallets) : Entitled t referenceId direction sh' where
  reversal := fun hk => by
    obtain ⟨r, hmem, hid, hrev, hno⟩ := h.reversal hk
    refine ⟨r, hr.terminal r hmem (by rw [hrev.processed]; rfl), hid, hrev, ?_⟩
    have hwallet : r.walletId = t.walletId := hrev.walletId
    exact noActiveReversal_rely hr hs' hmem hrev.processed (hwallet ▸ hlock) hno
  linked := fun id hid => by
    obtain ⟨r, hmem, hrid, hproc⟩ := h.linked id hid
    exact ⟨r, hr.terminal r hmem (by rw [hproc]; rfl), hrid, hproc⟩
  directed := by
    rcases h.directed with h | ⟨hk, r, hmem, hid, hproc, hdir⟩
    · exact .inl h
    · exact .inr ⟨hk, r, hr.terminal r hmem (by rw [hproc]; rfl), hid, hproc, hdir⟩

end Wagering
