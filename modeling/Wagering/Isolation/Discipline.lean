import Wagering.Accounting.Change
import Wagering.Isolation.Effect
import Wagering.Lib.Rely
import Wagering.Persistence.Valid

/-!
# The discipline of the service

What every committed state satisfies (`Sound`), what an open transaction may
rely on while others work (`Rely`), and what it owes them when it commits
(`Ready`): a right change of the books, confined to the rows that it holds.

`discipline` checks that these fit together, so programs can be verified one at
a time.
-/

namespace Wagering

open Interleave

/-- A committed inbox row: its message was processed. -/
structure InboxMessageRow.Done (row : InboxMessageRow) : Prop where
  processed : row.processedAt.isSome = true
  stored : row.stored = row

theorem books_after (db : Database) (log : List Write) :
    (db.after log).books = (db.after (businessOf log)).books := by
  rw [after_eq]
  rfl

/-- A wallet's row stays its own, whatever statements follow. -/
theorem sameWallet_after {db : Database} {row : WalletRow} (hrow : row ∈ db.wallets)
    (log : List Write) : ∃ row' ∈ (db.after log).wallets, SameWallet row row' := by
  induction log generalizing db row with
  | nil => exact ⟨row, hrow, .refl row⟩
  | cons write log ih =>
    cases write with
    | insertWallet new => exact ih (List.mem_append_left _ hrow)
    | updateWallet new =>
      by_cases hid : row.id = new.id
      · have hset : new.set row ∈ Keyed.adjust WalletRow.id new.id new.set db.wallets :=
          Keyed.mem_adjust.mpr (.inl ⟨row, hrow, hid, rfl⟩)
        obtain ⟨row', hrow', same⟩ := @ih { db with wallets := _ } _ hset
        have hkept : SameWallet row (new.set row) := ⟨rfl, rfl, rfl, rfl⟩
        exact ⟨row', hrow', hkept.trans same⟩
      · exact ih (Keyed.mem_adjust.mpr (.inr ⟨hrow, hid⟩))
    | _ => exact ih hrow

/-! ## One transaction among others -/

/-- What an open transaction has to itself. -/
structure Own (sh : Shared) (l : Local) : Prop where
  nodup : l.keys.Nodup
  free : ∀ k ∈ l.keys, k ∉ sh.db.uniqueKeys
  locks : ∀ k ∈ l.locks, k ∈ sh.db.uniqueKeys ∨ k ∈ l.keys
  ids : ∀ id ∈ l.ids, id ∈ sh.issued ∧ ∀ k ∈ sh.db.uniqueKeys, k.id? ≠ some id

/-- Two open transactions hold different things. -/
structure Compat (l o : Local) : Prop where
  holds : ∀ k ∈ l.holds, k ∉ o.holds
  ids : ∀ id ∈ l.ids, id ∉ o.ids

/-- How the committed state may change while `l` is open. -/
structure Rely (l : Local) (sh sh' : Shared) : Prop where
  issued : ∀ id ∈ sh.issued, id ∈ sh'.issued
  wallets : ∀ w ∈ sh.db.wallets, ∃ w' ∈ sh'.db.wallets, SameWallet w w'
  lockedWallets : ∀ w : WalletRow, w.id ∈ l.wallets →
    (w ∈ sh'.db.wallets ↔ w ∈ sh.db.wallets)
  wagers : ∀ t ∈ sh.db.wagers, ∃ t' ∈ sh'.db.wagers,
    SameIdentity t t' ∧ t.expiresAt = t'.expiresAt ∧ t.StillWaits t'
  lockedWagers : ∀ t : WagerTransactionRow, t.id ∈ l.wagers →
    (t ∈ sh'.db.wagers ↔ t ∈ sh.db.wagers)
  terminal : ∀ t ∈ sh.db.wagers, t.status.isTerminal = true → t ∈ sh'.db.wagers
  processed : ∀ t ∈ sh'.db.wagers, t.status = .processed → t.walletId ∈ l.wallets →
    t ∈ sh.db.wagers
  opened : ∀ w ∈ sh.db.wallets, sh'.db.books.opened w.id = sh.db.books.opened w.id
  ledger : sh.db.ledger <+: sh'.db.ledger
  events : sh.db.books.events <+: sh'.db.books.events
  inbox : ∀ m ∈ sh.db.inbox, m ∈ sh'.db.inbox
  keys : ∀ k ∈ l.keys, k ∉ sh.db.uniqueKeys → k ∉ sh'.db.uniqueKeys
  ids : ∀ id ∈ l.ids, (∀ k ∈ sh.db.uniqueKeys, k.id? ≠ some id) →
    ∀ k ∈ sh'.db.uniqueKeys, k.id? ≠ some id

/-- The committed state after `l` commits. -/
def committed (sh : Shared) (l : Local) : Shared := { sh with db := l.view sh.db }

variable {sh sh' : Shared} {l o : Local}

theorem Rely.refl (l : Local) (sh : Shared) : Rely l sh sh where
  issued := fun _ h => h
  wallets := fun w hw => ⟨w, hw, .refl w⟩
  lockedWallets := fun _ _ => .rfl
  wagers := fun t ht => ⟨t, ht, .refl t, rfl, .refl t⟩
  lockedWagers := fun _ _ => .rfl
  terminal := fun _ ht _ => ht
  processed := fun _ ht _ _ => ht
  opened := fun _ _ => rfl
  ledger := List.prefix_refl _
  events := List.prefix_refl _
  inbox := fun _ h => h
  keys := fun _ _ h => h
  ids := fun _ _ h => h

theorem Rely.trans {a b c : Shared} (h : Rely l a b) (h' : Rely l b c) : Rely l a c where
  issued := fun id hid => h'.issued id (h.issued id hid)
  wallets := fun w hw => by
    obtain ⟨v, hv, hwv⟩ := h.wallets w hw
    obtain ⟨u, hu, hvu⟩ := h'.wallets v hv
    exact ⟨u, hu, hwv.trans hvu⟩
  lockedWallets := fun w hw => (h'.lockedWallets w hw).trans (h.lockedWallets w hw)
  wagers := fun t ht => by
    obtain ⟨u, hu, htu, hexp, hwaits⟩ := h.wagers t ht
    obtain ⟨v, hv, huv, hexp', hwaits'⟩ := h'.wagers u hu
    exact ⟨v, hv, htu.trans huv, hexp.trans hexp', hwaits.trans hwaits'⟩
  lockedWagers := fun t ht => (h'.lockedWagers t ht).trans (h.lockedWagers t ht)
  terminal := fun t ht hterm => h'.terminal t (h.terminal t ht hterm) hterm
  processed := fun t ht hs hw => h.processed t (h'.processed t ht hs hw) hs hw
  opened := fun w hw => by
    obtain ⟨v, hv, same⟩ := h.wallets w hw
    rw [← h.opened w hw, same.id]
    exact h'.opened v hv
  ledger := h.ledger.trans h'.ledger
  events := h.events.trans h'.events
  inbox := fun m hm => h'.inbox m (h.inbox m hm)
  keys := fun k hk hfree => h'.keys k hk (h.keys k hk hfree)
  ids := fun id hid hfree => h'.ids id hid (h.ids id hid hfree)

/-- What a transaction may rely on, anybody may. -/
theorem Rely.evolves (h : Rely l sh sh') : Rely .start sh sh' :=
  { h with
    lockedWallets := fun _ hw => by cases hw
    lockedWagers := fun _ ht => by cases ht
    processed := fun _ _ _ hw => by cases hw
    keys := fun _ hk => by cases hk
    ids := fun _ hid => by cases hid }

theorem walletId_mem_iff {db : Database} {id : Text} :
    .walletId id ∈ db.uniqueKeys ↔ ∃ w ∈ db.wallets, w.id = id := by
  simp [Database.uniqueKeys, WalletRow.uniqueKeys, WagerTransactionRow.uniqueKeys,
    WalletLedgerEntryRow.uniqueKeys, OutboxMessageRow.uniqueKeys, eq_comm]

theorem wagerId_mem_iff {db : Database} {id : Text} :
    .wagerId id ∈ db.uniqueKeys ↔ ∃ t ∈ db.wagers, t.id = id := by
  simp [Database.uniqueKeys, WalletRow.uniqueKeys, WagerTransactionRow.uniqueKeys,
    WalletLedgerEntryRow.uniqueKeys, OutboxMessageRow.uniqueKeys, eq_comm]

/-- A row lock stays on a row. -/
theorem Rely.lock_mem (h : Rely l sh sh') {k : UniqueKey} (hk : k ∈ o.locks)
    (hmem : k ∈ sh.db.uniqueKeys) : k ∈ sh'.db.uniqueKeys := by
  rcases Local.mem_locks.mp hk with ⟨id, -, rfl⟩ | ⟨id, -, rfl⟩
  · obtain ⟨w, hw, rfl⟩ := walletId_mem_iff.mp hmem
    obtain ⟨w', hw', same⟩ := h.wallets w hw
    exact walletId_mem_iff.mpr ⟨w', hw', same.id.symm⟩
  · obtain ⟨t, ht, rfl⟩ := wagerId_mem_iff.mp hmem
    obtain ⟨t', ht', same, -⟩ := h.wagers t ht
    exact wagerId_mem_iff.mpr ⟨t', ht', same.id.symm⟩

theorem Own.rely (h : Own sh l) (hr : Rely l sh sh') : Own sh' l where
  nodup := h.nodup
  free := fun k hk => hr.keys k hk (h.free k hk)
  locks := fun k hk => (h.locks k hk).imp_left (hr.lock_mem hk)
  ids := fun id hid => ⟨hr.issued id (h.ids id hid).1, hr.ids id hid (h.ids id hid).2⟩

/-- An identifier that the transaction generated is no transaction's yet. -/
theorem Own.wager_fresh (h : Own sh l) {id : Text} (hid : id ∈ l.ids) :
    ∀ r ∈ sh.db.wagers, r.id ≠ id :=
  fun _ hr heq => (h.ids _ hid).2 _ (wagerId_mem_uniqueKeys hr) (heq ▸ rfl)

theorem Compat.symm (h : Compat l o) : Compat o l :=
  ⟨fun k hk hk' => h.holds k hk' hk, fun id hid hid' => h.ids id hid' hid⟩

theorem Compat.start (l : Local) : Compat l .start :=
  ⟨fun _ _ hk => List.not_mem_nil hk, fun _ _ hid => List.not_mem_nil hid⟩

theorem Rely.of_same (hdb : sh'.db = sh.db) (hissued : ∀ id ∈ sh.issued, id ∈ sh'.issued) :
    Rely o sh sh' :=
  { Rely.refl o { sh with issued := sh'.issued } with
    issued := hissued
    wallets := fun w hw => ⟨w, hdb ▸ hw, .refl w⟩
    lockedWallets := fun w _ => by rw [hdb]
    wagers := fun t ht => ⟨t, hdb ▸ ht, .refl t, rfl, .refl t⟩
    lockedWagers := fun t _ => by rw [hdb]
    terminal := fun t ht _ => hdb ▸ ht
    processed := fun t ht _ _ => hdb ▸ ht
    opened := fun w _ => by rw [hdb]
    ledger := by rw [hdb]
    events := by rw [hdb]
    inbox := fun m hm => hdb ▸ hm
    keys := fun k _ hk => hdb ▸ hk
    ids := fun id _ hk => hdb ▸ hk }

theorem Effect.compat {others : List Local} {l' : Local} (h : Effect sh sh' others l l')
    (ho : Own sh o) (hmem : o ∈ others) (hcompat : Compat l o) : Compat l' o := by
  have hkeys : ∀ {l' : Local}, l'.log = l.log → l'.keys = l.keys := fun h => by
    simp [Local.keys, h]
  cases h with
  | quiet log locks ids =>
    exact ⟨by simpa only [Local.holds, hkeys log, locks] using hcompat.holds,
      by simpa only [ids] using hcompat.ids⟩
  | @identified id fresh issued =>
    refine ⟨hcompat.holds, fun id' hid' => ?_⟩
    rcases List.mem_cons.mp hid' with rfl | hid'
    · exact fun hin => fresh (ho.ids _ hin).1
    · exact hcompat.ids id' hid'
  | @locked _ key log ids locks mem alone =>
    refine ⟨fun k hk => ?_, by simpa only [ids] using hcompat.ids⟩
    rw [Local.holds, hkeys log, List.mem_append, locks k] at hk
    rcases hk with (rfl | hk) | hk
    · rw [Local.holds, List.mem_append, not_or]
      refine ⟨alone o hmem, fun hk' => ?_⟩
      rcases mem_uniqueKeys_view.mp mem with hdb | hkey
      · exact ho.free _ hk' hdb
      · exact hcompat.holds _ (List.mem_append_right _ hkey) (List.mem_append_right _ hk')
    · exact hcompat.holds k (List.mem_append_left _ hk)
    · exact hcompat.holds k (List.mem_append_right _ hk)
  | @wrote write nodup free alone =>
    refine ⟨fun k hk => ?_, hcompat.ids⟩
    rw [Local.holds, Local.push_keys, Local.push_locks, ← List.append_assoc] at hk
    rcases List.mem_append.mp hk with hk | hk
    · exact hcompat.holds k hk
    · rw [Local.holds, List.mem_append, not_or]
      refine ⟨fun hlock => ?_, alone o hmem k hk⟩
      rcases ho.locks k hlock with hdb | hkey
      · exact free k hk (mem_uniqueKeys_view.mpr (.inl hdb))
      · exact alone o hmem k hk hkey

/-! ## Publishers -/

/-- A publisher touches only the bookkeeping of outbox rows. -/
theorem publishing_step_rows {rows rows' : List OutboxMessageRow} {p p' : Publishing}
    {action : PublisherAction} (h : p.step rows action = some (rows', p')) :
    rows'.map (fun m => (m.id, m.payload)) = rows.map fun m => (m.id, m.payload) := by
  cases action with
  | claim publisherId locked claimedAt leaseMs =>
    simp only [Publishing.step] at h
    split at h
    · cases h
      simp only [Keyed.adjust, List.map_map]
      refine List.map_congr_left fun m _ => ?_
      simp only [Function.comp_apply]
      split <;> rfl
    · cases h
      rfl
    · cases h
  | publish publisherId failure =>
    simp only [Publishing.step] at h
    split at h
    · cases h
      rfl
    · cases h
  | complete publisherId now jitter =>
    simp only [Publishing.step] at h
    split at h
    · rename_i claim set hset
      cases h
      have hkeep : ∀ m : OutboxMessageRow, (set m).id = m.id ∧ (set m).payload = m.payload := by
        intro m
        unfold completion at hset
        split at hset
        · cases hset
          exact ⟨rfl, rfl⟩
        · split at hset <;> cases hset <;> exact ⟨rfl, rfl⟩
        · cases hset
      simp only [updateClaimed, List.map_map]
      refine List.map_congr_left fun m _ => ?_
      simp only [Function.comp_apply]
      split
      · rw [(hkeep m).1, (hkeep m).2]
      · rfl
    · cases h
  | drop publisherId =>
    simp only [Publishing.step, Option.some.injEq] at h
    cases h
    rfl

/-! ## Committed states -/

variable [Platform]

/-- What holds of every committed state. -/
structure Sound (sh : Shared) : Prop where
  books : sh.db.books.Consistent
  keys : sh.db.uniqueKeys.Nodup
  ids : ∀ k ∈ sh.db.uniqueKeys, ∀ id ∈ k.id?, id ∈ sh.issued
  wallets : ∀ w ∈ sh.db.wallets, w.Valid
  wagers : ∀ t ∈ sh.db.wagers, t.Valid
  inbox : ∀ m ∈ sh.db.inbox, m.Done

theorem Sound.wager_eq {sh : Shared} (h : Sound sh) {r r' : WagerTransactionRow}
    (hr : r ∈ sh.db.wagers) (hr' : r' ∈ sh.db.wagers) (k : UniqueKey) (hk : k ∈ r.uniqueKeys)
    (hk' : k ∈ r'.uniqueKeys) : r = r' := by
  have hkeys := h.keys
  simp only [Database.uniqueKeys, List.nodup_append] at hkeys
  exact Keyed.eq_of_mem_keys hkeys.1.1.1.2.1 hr hr' hk hk'

/-- What a commit owes: it takes keys only with its own identifiers, it changes
the books as they allow, and only where it holds them. -/
structure Ready (sh : Shared) (l : Local) : Prop where
  ids : ∀ k ∈ l.keys, ∀ id ∈ k.id?, id ∈ l.ids
  change : ∃ c : Change, sh.db.books.Allows c ∧ (l.view sh.db).books = sh.db.books.amend c ∧
    (∀ w ∈ c.wallets, w.Valid ∧ .walletId w.id ∈ l.holds) ∧
    ∀ d ∈ c.decision, d.tx.Valid ∧ .wagerId d.tx.id ∈ l.holds ∧
      (d.tx.status = .processed → .walletId d.tx.walletId ∈ l.holds)
  inbox : ∀ m ∈ (l.view sh.db).inbox, m ∈ sh.db.inbox ∨ m.Done
  inboxKept : ∀ m ∈ sh.db.inbox, m ∈ (l.view sh.db).inbox

/-! ## Calls -/

theorem Sound.of_same (h : Sound sh) (hdb : sh'.db = sh.db)
    (hissued : ∀ id ∈ sh.issued, id ∈ sh'.issued) : Sound sh' where
  books := hdb ▸ h.books
  keys := hdb ▸ h.keys
  ids := fun k hk id hid => hissued id (h.ids k (hdb ▸ hk) id hid)
  wallets := hdb ▸ h.wallets
  wagers := hdb ▸ h.wagers
  inbox := hdb ▸ h.inbox

theorem Effect.own {others : List Local} {l' : Local} (h : Effect sh sh' others l l')
    (hs : Sound sh) (ho : Own sh l) (hdb : sh'.db = sh.db)
    (hissued : ∀ id ∈ sh.issued, id ∈ sh'.issued) : Own sh' l' := by
  have ho' : Own sh' l := ho.rely (.of_same hdb hissued)
  have hkeys : ∀ {l' : Local}, l'.log = l.log → l'.keys = l.keys := fun h => by
    simp [Local.keys, h]
  cases h with
  | quiet log locks ids =>
    exact
      { nodup := hkeys log ▸ ho'.nodup
        free := hkeys log ▸ ho'.free
        locks := hkeys log ▸ locks ▸ ho'.locks
        ids := ids ▸ ho'.ids }
  | @identified id fresh issued =>
    refine { ho' with ids := fun id' hid' => ?_ }
    rcases List.mem_cons.mp hid' with rfl | hid'
    · exact ⟨issued, fun k hk heq => fresh (hs.ids k (hdb ▸ hk) _ heq)⟩
    · exact ho'.ids id' hid'
  | @locked _ key log ids locks mem alone =>
    refine
      { nodup := hkeys log ▸ ho'.nodup
        free := hkeys log ▸ ho'.free
        locks := fun k hk => ?_
        ids := ids ▸ ho'.ids }
    rw [hkeys log, hdb]
    rcases (locks k).mp hk with rfl | hk
    · exact mem_uniqueKeys_view.mp mem
    · exact ho.locks k hk
  | @wrote write nodup free alone =>
    refine
      { nodup := ?nodup
        free := fun k hk => ?free
        locks := fun k hk => (ho'.locks k hk).imp_right fun h => by simp [h]
        ids := ho'.ids }
    case nodup =>
      rw [Local.push_keys, List.nodup_append]
      refine ⟨ho.nodup, nodup, fun k hk k' hk' heq => free k' hk' ?_⟩
      exact mem_uniqueKeys_view.mpr (.inr (heq ▸ hk))
    case free =>
      rw [Local.push_keys] at hk
      rcases List.mem_append.mp hk with hk | hk
      · exact ho'.free k hk
      · rw [hdb]
        exact fun hmem => free k hk (mem_uniqueKeys_view.mpr (.inl hmem))
/-! ## Commits -/

/-- What the others see of a commit: every row it wrote is one it holds. -/
theorem Ready.rely (hready : Ready sh l) (hs : Sound sh)
    (hcompat : Compat l o) : Rely o sh (committed sh l) := by
  obtain ⟨c, hallows, hbooks, hwallets, hwagers⟩ := hready.change
  have ham := hbooks ▸ hallows.amends hs.books
  have hapart : ∀ {k}, k ∈ l.holds → k ∉ o.holds := fun hk => hcompat.holds _ hk
  have hwallet : ∀ {id}, id ∈ o.wallets → .walletId id ∈ o.holds := fun hid =>
    List.mem_append_left _ (Local.mem_locks.mpr (.inl ⟨_, hid, rfl⟩))
  have hwager : ∀ {id}, id ∈ o.wagers → .wagerId id ∈ o.holds := fun hid =>
    List.mem_append_left _ (Local.mem_locks.mpr (.inr ⟨_, hid, rfl⟩))
  refine
    { issued := fun _ h => h
      wallets := ham.walletSame
      lockedWallets := fun w hw => ⟨fun hmem => ?walletBack, fun hmem => ?walletStays⟩
      wagers := ham.wagerSame
      lockedWagers := fun t ht => ⟨fun hmem => ?wagerBack, fun hmem => ?wagerStays⟩
      terminal := ham.terminal
      processed := fun t hmem hs hw => ?processed
      opened := ham.opened
      ledger := ham.ledger
      events := ham.events
      inbox := hready.inboxKept
      keys := fun k hk hfree hmem => ?keys
      ids := fun id hid hfree k hmem heq => ?ids }
  case walletBack =>
    rcases ham.walletNew w hmem with h | h
    · exact h
    · exact absurd (hwallet hw) (hapart (hwallets w h).2)
  case walletStays =>
    rcases ham.walletKept w hmem with h | ⟨w', h, -, hid⟩
    · exact h
    · exact absurd (hwallet (hid ▸ hw)) (hapart (hwallets w' h).2)
  case wagerBack =>
    rcases ham.wagerNew t hmem with h | ⟨d, h, rfl⟩
    · exact h
    · exact absurd (hwager ht) (hapart (hwagers d h).2.1)
  case wagerStays =>
    rcases ham.wagerKept t hmem with h | ⟨d, h, -, hid⟩
    · exact h
    · exact absurd (hwager (hid ▸ ht)) (hapart (hwagers d h).2.1)
  case processed =>
    rcases ham.wagerNew t hmem with h | ⟨d, h, rfl⟩
    · exact h
    · exact absurd (hwallet hw) (hapart ((hwagers d h).2.2 hs))
  case keys =>
    rcases mem_uniqueKeys_view.mp hmem with h | h
    · exact hfree h
    · exact hapart (List.mem_append_right _ h) (List.mem_append_right _ hk)
  case ids =>
    rcases mem_uniqueKeys_view.mp hmem with h | h
    · exact hfree k h heq
    · exact hcompat.ids id (hready.ids k h id heq) hid

theorem Ready.sound (hready : Ready sh l) (hs : Sound sh) (hown : Own sh l) :
    Sound (committed sh l) := by
  obtain ⟨c, hallows, hbooks, hwallets, hwagers⟩ := hready.change
  have ham := hbooks ▸ hallows.amends hs.books
  refine
    { books := (show (l.view sh.db).books.Consistent from hbooks ▸ hs.books.amend hallows)
      keys := ?keys
      ids := fun k hk id hid => ?ids
      wallets := fun w hw => (ham.walletNew w hw).elim (hs.wallets w) fun h => (hwallets w h).1
      wagers := fun t ht => (ham.wagerNew t ht).elim (hs.wagers t) ?wagers
      inbox := fun m hm => (hready.inbox m hm).elim (hs.inbox m) id }
  case keys =>
    refine (uniqueKeys_after sh.db l.log).nodup_iff.mpr ?_
    rw [List.nodup_append]
    exact ⟨hs.keys, hown.nodup, fun k hk k' hk' heq => hown.free k' hk' (heq ▸ hk)⟩
  case ids =>
    rcases mem_uniqueKeys_view.mp hk with h | h
    · exact hs.ids k h id hid
    · exact (hown.ids id (hready.ids k h id hid)).1
  case wagers =>
    rintro ⟨d, h, rfl⟩
    exact (hwagers d h).1

/-! ## The discipline -/

/-- The committed state after a step of a publisher. -/
theorem ambient_same {action : PublisherAction} (h : store.ambient sh action = some sh') :
    ∃ outbox publishing, sh' = { sh with db := { sh.db with outbox }, publishing } ∧
      sh'.db.books = sh.db.books ∧ sh'.db.uniqueKeys = sh.db.uniqueKeys := by
  simp only [Option.map_eq_some_iff] at h
  obtain ⟨⟨rows, p⟩, hstep, rfl⟩ := h
  have hrows := publishing_step_rows hstep
  have hpayloads : rows.map OutboxMessageRow.payload =
      sh.db.outbox.map OutboxMessageRow.payload := by
    simpa [Function.comp_def] using congrArg (List.map Prod.snd) hrows
  have hkeys : rows.flatMap OutboxMessageRow.uniqueKeys =
      sh.db.outbox.flatMap OutboxMessageRow.uniqueKeys := by
    have := congrArg (List.flatMap fun x => [UniqueKey.outboxId x.1]) hrows
    simp only [List.flatMap_map] at this
    exact this
  exact ⟨rows, p, rfl, by simp only [Database.books, hpayloads],
    by simp only [Database.uniqueKeys, hkeys]⟩

theorem ambient_sound {action : PublisherAction} (hs : Sound sh)
    (h : store.ambient sh action = some sh') : Sound sh' := by
  obtain ⟨outbox, publishing, rfl, hbooks, hkeys⟩ := ambient_same h
  exact
    { books := hbooks ▸ hs.books
      keys := hkeys ▸ hs.keys
      ids := fun k hk => hs.ids k (hkeys ▸ hk)
      wallets := hs.wallets
      wagers := hs.wagers
      inbox := hs.inbox }

theorem ambient_rely {action : PublisherAction} (h : store.ambient sh action = some sh') :
    Rely l sh sh' := by
  obtain ⟨outbox, publishing, rfl, hbooks, hkeys⟩ := ambient_same h
  exact { Rely.refl l sh with
    opened := fun w _ => by rw [hbooks]
    events := hbooks ▸ List.prefix_refl _
    keys := fun k _ hk => hkeys ▸ hk
    ids := fun id _ hk => hkeys ▸ hk }

/-- The discipline of the service. -/
def discipline : Discipline store where
  Inv := Sound
  Own := Own
  Compat := Compat
  Rely := Rely
  Ready := Ready
  rely_refl := Rely.refl
  rely_trans := Rely.trans
  own_start := fun _ => ⟨.nil, fun _ h => List.not_mem_nil h |>.elim,
    fun _ h => List.not_mem_nil h |>.elim, fun _ h => List.not_mem_nil h |>.elim⟩
  own_rely := Own.rely
  compat_start := Compat.start
  compat_symm := Compat.symm
  exec_inv := fun hs _ h => by
    obtain ⟨hdb, -, hissued, -⟩ := exec_effect h
    exact hs.of_same hdb hissued
  exec_rely := fun _ _ _ _ h => by
    obtain ⟨hdb, -, hissued, -⟩ := exec_effect h
    exact .of_same hdb hissued
  exec_own := fun hs ho h => by
    obtain ⟨hdb, -, hissued, heffect⟩ := exec_effect h
    exact (heffect _ _ rfl).own hs ho hdb hissued
  exec_compat := fun _ _ ho hmem hcompat h => by
    obtain ⟨-, -, -, heffect⟩ := exec_effect h
    exact (heffect _ _ rfl).compat ho hmem hcompat
  commit_inv := fun hs ho hready => hready.sound hs ho
  commit_rely := fun hs _ hready _ hcompat => hready.rely hs hcompat
  ambient_inv := ambient_sound
  ambient_rely := fun _ h _ => ambient_rely h

end Wagering
