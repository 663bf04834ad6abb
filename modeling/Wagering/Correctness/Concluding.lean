import Wagering.Correctness.Deciding

/-!
# From a decision to a commit

A decision that was right when it was taken is right when the transaction
commits (`decides_rely`), and once its statements have run the transaction is
ready to commit (`Concluded.ready`).
-/

namespace Wagering

open Interleave

variable [Platform] {sh sh' : Shared} {l l' : Local} {d : Decision}

/-! ## Decisions under interference -/

/-- A decision confined to what its transaction holds stays right. -/
theorem decides_rely (hd : sh.db.books.Decides d) (hr : Rely l sh sh') (hs' : Sound sh')
    (ho' : Own sh' l) (hwager : .wagerId d.tx.id ∈ l.holds)
    (hwallet : d.tx.status = .processed → d.tx.walletId ∈ l.wallets)
    (hkind : d.tx.kind ≠ .opening) : sh'.db.books.Decides d := by
  have hheld : d.tx.id ∈ l.wagers ∨ .wagerId d.tx.id ∈ l.keys := by
    rcases List.mem_append.mp hwager with h | h
    · rcases Local.mem_locks.mp h with ⟨id, -, heq⟩ | ⟨id, hid, heq⟩
      · cases heq
      · cases heq
        exact .inl hid
    · exact .inr h
  have hfresh : (∀ r ∈ sh.db.wagers, r.id ≠ d.tx.id) → ∀ r ∈ sh'.db.wagers, r.id ≠ d.tx.id := by
    intro h r hmem heq
    rcases hheld with hlock | hkey
    · exact h r ((hr.lockedWagers r (heq ▸ hlock)).mp hmem) heq
    · exact ho'.free _ hkey (heq ▸ wagerId_mem_uniqueKeys hmem)
  have hprocessed : ∀ {r : WagerTransactionRow}, r ∈ sh.db.wagers → r.status = .processed →
      r ∈ sh'.db.wagers := fun hmem hp => hr.terminal _ hmem (by rw [hp]; rfl)
  have hsomewhere : ∀ {id currency : Text},
      (∃ w ∈ sh.db.wallets, w.id = id ∧ w.currency = currency) →
      ∃ w ∈ sh'.db.wallets, w.id = id ∧ w.currency = currency := by
    rintro id currency ⟨w, hw, hid, hcur⟩
    obtain ⟨w', hw', same⟩ := hr.wallets w hw
    exact ⟨w', hw', same.id.symm.trans hid, same.currency.symm.trans hcur⟩
  refine
    { hd with
      prior := ?prior
      counted := ?counted
      observed := fun c hcur => hsomewhere (hd.observed c hcur)
      outcome := ?outcome }
  case prior =>
    rcases hd.prior with ⟨fresh, hexp⟩ | ⟨p, hp, hpending, same, hexp⟩
    · exact .inl ⟨hfresh fresh, hexp⟩
    · refine .inr ⟨p, ?_, hpending, same, hexp⟩
      rcases hheld with hlock | hkey
      · exact (hr.lockedWagers p (same.id ▸ hlock)).mpr hp
      · obtain ⟨p', hp', same', -⟩ := hr.wagers p hp
        have hid : p'.id = d.tx.id := same'.id.symm.trans same.id
        exact absurd (hid ▸ wagerId_mem_uniqueKeys hp') (ho'.free _ hkey)
  case counted =>
    rcases hd.counted with ⟨fresh, hzero⟩ | ⟨p, hp, hid, hcounts⟩
    · exact .inl ⟨hfresh fresh, hzero⟩
    · refine .inr ⟨p, ?_, hid, hcounts⟩
      rcases hheld with hlock | hkey
      · exact (hr.lockedWagers p (hid ▸ hlock)).mpr hp
      · obtain ⟨p', hp', same', -⟩ := hr.wagers p hp
        exact absurd ((same'.id.symm.trans hid) ▸ wagerId_mem_uniqueKeys hp') (ho'.free _ hkey)
  case outcome =>
    have hout := hd.outcome
    generalize d.movement = movement at hout ⊢
    generalize d.events.map IntegrationEvent.data = data at hout ⊢
    cases hout with
    | @moved e w w' status moves reversal linked =>
      have directed : sh'.db.books.Directed d.tx e.direction := by
        rcases moves.directed with h | ⟨hk, r, hmem, hid, hp, hdir⟩
        · exact .inl h
        · exact .inr ⟨hk, r, hprocessed hmem hp, hid, hp, hdir⟩
      have moves' : sh'.db.books.Moves d.tx e w w' :=
        { moves with
          wallet := (hr.lockedWallets w (moves.walletId ▸ hwallet status)).mpr moves.wallet
          directed
          first := fun hk => absurd hk hkind }
      refine .moved status moves' (fun hk => ?_) (fun id hid => ?_)
      · obtain ⟨r, hmem, hid, hrev, hno⟩ := reversal hk
        exact ⟨r, hprocessed hmem hrev.processed, hid, hrev, noActiveReversal_rely hr hs' hmem
          hrev.processed (hrev.walletId ▸ hwallet status) hno⟩
      · obtain ⟨r, hmem, hrid, hp⟩ := linked id hid
        exact ⟨r, hprocessed hmem hp, hrid, hp⟩
    | unmoved status kind reference wallet =>
      exact .unmoved status kind reference (hsomewhere wallet)
    | refused status kind reference => exact .refused status kind reference
    | awaits status kind reference expires wallet fresh =>
      exact .awaits status kind reference expires (hsomewhere wallet) (hfresh fresh)
    | retried status reference pending =>
      obtain ⟨p, hp, hid⟩ := pending
      obtain ⟨p', hp', same, -⟩ := hr.wagers p hp
      exact .retried status reference ⟨p', hp', same.id.symm.trans hid⟩

/-- What a unit of work has decided, when the statements in `done` have run. -/
structure Deciding (d : Decision) (done : List Write) (sh : Shared) (l : Local) : Prop where
  decides : sh.db.books.Decides d
  valid : d.tx.Valid
  wager : .wagerId d.tx.id ∈ l.holds
  wallet : d.tx.status = .processed → d.tx.walletId ∈ l.wallets
  kind : d.tx.kind ≠ .opening
  ids : ∀ k ∈ l.keys, ∀ id ∈ k.id?, id ∈ l.ids
  log : ∃ prior, businessOf l.log = prior ++ done ∧ Prior sh.db d.tx prior

namespace Deciding

variable {done : List Write}

theorem rely (h : Deciding d done sh l) (hr : Rely l sh sh') (hs' : Sound sh')
    (ho' : Own sh' l) : Deciding d done sh' l := by
  obtain ⟨prior, hlog, hprior⟩ := h.log
  refine
    { h with
      decides := decides_rely h.decides hr hs' ho' h.wager h.wallet h.kind
      log := ⟨prior, hlog, hprior.rely hr ho' fun k hk => ?_⟩ }
  refine mem_keysOf_of_business ?_
  rw [hlog, keysOf_append]
  exact List.mem_append_left _ hk

theorem alike (h : Deciding d done sh l) (hl : l.Alike l') : Deciding d done sh l' := by
  have hlocks : l'.locks = l.locks := by rw [Local.locks, hl.wallets, hl.wagers]; rfl
  exact
    { h with
      wager := by rw [Local.holds, hlocks, hl.keys]; exact h.wager
      wallet := fun hs => hl.wallets ▸ h.wallet hs
      ids := fun k hk id hid => hl.ids id (h.ids k (hl.keys ▸ hk) id hid)
      log := by rw [hl.business]; exact h.log }

theorem identified (h : Deciding d done sh l) (id : Text) :
    Deciding d done sh { l with ids := id :: l.ids } :=
  h.alike (.identified l id)

/-- One more statement has run. -/
theorem push (h : Deciding d done sh l) (write : Write) (hw : write.isInbox = false)
    (hids : ∀ k ∈ write.uniqueKeys, ∀ id ∈ k.id?, id ∈ l.ids) :
    Deciding d (done ++ [write]) sh (l.push write) := by
  obtain ⟨prior, hlog, hprior⟩ := h.log
  refine
    { h with
      wager := ?_
      ids := fun k hk => ?_
      log := ⟨prior, ?_, hprior⟩ }
  · rw [Local.holds, Local.push_keys, ← List.append_assoc]
    exact List.mem_append_left _ h.wager
  · rw [Local.push_keys] at hk
    exact (List.mem_append.mp hk).elim (h.ids k) (hids k)
  · change businessOf (l.log ++ [write]) = _
    rw [businessOf_append, hlog, List.append_assoc]
    simp [businessOf, hw]

/-- The events are known by their data and aggregate only. -/
theorem withEvents (h : Deciding d done sh l) (events : List IntegrationEvent)
    (hdata : events.map IntegrationEvent.data = d.events.map IntegrationEvent.data)
    (haggregates : ∀ ev ∈ events, ev.aggregateId = ev.data.aggregateId) :
    Deciding { d with events } done sh l :=
  { h with
    decides := { h.decides with outcome := hdata ▸ h.decides.outcome, aggregates := haggregates } }

/-- Whose keys the transaction has taken so far. -/
theorem key_cases (h : Deciding d done sh l) {k : UniqueKey} (hk : k ∈ l.keys) :
    (∃ key, k = .inbox key) ∨ (∃ row : WagerTransactionRow, k ∈ row.uniqueKeys) ∨
      k ∈ keysOf done := by
  obtain ⟨prior, hlog, hprior⟩ := h.log
  rcases mem_keysOf_business hk with hk | hk
  · rw [hlog, keysOf_append] at hk
    rcases List.mem_append.mp hk with hk | hk
    · cases hprior with
      | @inserted row => exact .inr (.inl ⟨row, by simpa [Write.uniqueKeys] using hk⟩)
      | committed => cases hk
    · exact .inr (.inr hk)
  · exact .inl hk

end Deciding

/-! ## Ready to commit -/

/-- Every statement of the decision has run. -/
structure Concluded (d : Decision) (sh : Shared) (l : Local) : Prop where
  deciding : ∃ rows, Deciding d (d.writes rows) sh l ∧
    rows.map OutboxMessageRow.payload = d.events
  wallets : ∀ m ∈ d.movement, m.2.Valid

theorem Concluded.rely (h : Concluded d sh l) (hr : Rely l sh sh') (hs' : Sound sh')
    (ho' : Own sh' l) : Concluded d sh' l := by
  obtain ⟨rows, hdeciding, hrows⟩ := h.deciding
  exact ⟨⟨rows, hdeciding.rely hr hs' ho', hrows⟩, h.wallets⟩

theorem Concluded.alike (h : Concluded d sh l) (hl : l.Alike l') : Concluded d sh l' := by
  obtain ⟨rows, hdeciding, hrows⟩ := h.deciding
  exact ⟨⟨rows, hdeciding.alike hl, hrows⟩, h.wallets⟩

theorem Concluded.decides (h : Concluded d sh l) : sh.db.books.Decides d := by
  obtain ⟨rows, hdeciding, -⟩ := h.deciding
  exact hdeciding.decides

theorem Concluded.books (h : Concluded d sh l) (hs : Sound sh) :
    (l.view sh.db).books = sh.db.books.record d := by
  obtain ⟨rows, hdeciding, hrows⟩ := h.deciding
  obtain ⟨prior, hlog, hprior⟩ := hdeciding.log
  rw [Local.view, books_after, hlog]
  refine books_after_writes hs.books.walletIds hs.books.wagerIds hprior hrows fun m hm => ?_
  obtain ⟨-, w, moves, -⟩ := h.decides.moves (Option.mem_def.mp hm)
  exact ⟨w, moves.wallet, moves.same⟩

theorem Concluded.ready (h : Concluded d sh l) (hs : Sound sh)
    (hinbox : ∀ m ∈ (l.view sh.db).inbox, m ∈ sh.db.inbox ∨ m.Done)
    (hkept : ∀ m ∈ sh.db.inbox, m ∈ (l.view sh.db).inbox) : Ready sh l := by
  obtain ⟨rows, hdeciding, -⟩ := h.deciding
  have hlock : ∀ {id : Text}, id ∈ l.wallets → .walletId id ∈ l.holds := fun hid =>
    List.mem_append_left _ (Local.mem_locks.mpr (.inl ⟨_, hid, rfl⟩))
  refine
    { ids := hdeciding.ids
      change := ⟨⟨none, some d⟩, ?allows, h.books hs, fun w hw => ?wallets, fun d' hd' => ?wagers⟩
      inbox := hinbox
      inboxKept := hkept }
  case allows =>
    exact
      { fresh := fun w hw => by cases hw
        empty := fun w hw => by cases hw
        decides := fun d' hd' => by cases hd'; exact h.decides
        opening := fun d' hd' hk => by cases hd'; exact absurd hk hdeciding.kind }
  case wallets =>
    simp only [Change.wallets, Option.bind_some, Option.toList_none, List.append_nil,
      Option.mem_toList, Option.map_eq_some_iff] at hw
    obtain ⟨move, hm, rfl⟩ := hw
    obtain ⟨status, v, moves, -⟩ := h.decides.moves hm
    refine ⟨h.wallets move hm, hlock ?_⟩
    exact (moves.same.id.symm.trans moves.walletId) ▸ hdeciding.wallet status
  case wagers =>
    cases hd'
    exact ⟨hdeciding.valid, hdeciding.wager, fun hs => hlock (hdeciding.wallet hs)⟩

/-- A transaction that wrote nothing about the books may always commit. -/
theorem ready_idle (hlog : businessOf l.log = [])
    (hinbox : ∀ m ∈ (l.view sh.db).inbox, m ∈ sh.db.inbox ∨ m.Done)
    (hkept : ∀ m ∈ sh.db.inbox, m ∈ (l.view sh.db).inbox) : Ready sh l where
  ids := fun k hk id hid => by
    rcases mem_keysOf_business hk with h | ⟨key, rfl⟩
    · rw [hlog] at h
      cases h
    · cases hid
  change := by
    refine ⟨⟨none, none⟩, ?_, ?_, fun w hw => (by cases hw), fun d hd => (by cases hd)⟩
    · exact ⟨fun w hw => (by cases hw), fun w hw => (by cases hw), fun d hd => (by cases hd),
        fun d hd => (by cases hd)⟩
    · rw [Local.view, books_after, hlog]
      rfl
  inbox := hinbox
  inboxKept := hkept

end Wagering
