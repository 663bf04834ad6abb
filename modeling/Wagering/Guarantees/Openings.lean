import Wagering.Correctness.Creating
import Wagering.Guarantees.Announcements
import Wagering.Guarantees.Responses

/-!
# Wallets open once

For each player and currency one request opens a wallet, whatever the schedule:
it is answered with the wallet that it inserted, every other one is told which
wallet there is, and from then on the wallet can be read.
-/

namespace Wagering

open Interleave

section Statements

variable [Platform] [Driver]

/-- Session `i` has committed a wallet for `command`, and this is the view of it. -/
def Opened (w : Service) (i : Nat) (command : CreateWalletCommand) (view : WalletView) : Prop :=
  (∃ s, w.sessions[i]? = some s ∧ s.entry = .createWallet command) ∧
    ∃ sh l, (i, .committed sh l (.wallet view)) ∈ w.history

/-- The row of a wallet that was opened for `command` with this view. -/
structure ShowsOpening (command : CreateWalletCommand) (view : WalletView) (row : WalletRow) :
    Prop where
  playerId : row.playerId = Text.stored command.playerId
  money : ∃ money, Money.from command.initialBalance = .ok money ∧ row.currency = money.currency ∧
    view = ⟨row.id, row.playerId, money.toJSON, 1⟩

/-- A request for a wallet and its response: it was refused before the use case,
or session `i` of the service answered it. -/
inductive WalletExchanged (w : Service) (roles : List AppRole) (headers : RequestHeaders)
    (body : Json) : Option Nat → HttpResponse → Prop
  | refused {error : Failure} (refused : postWalletCommand roles headers body = .error error) :
    WalletExchanged w roles headers body none (caught headers.correlationId (.thrown error))
  | served {i : Nat} {command : CreateWalletCommand} {result : Except Failure Answer}
    (accepted : postWalletCommand roles headers body = .ok command)
    (session : w.sessions[i]? = some ⟨.createWallet command, .closed result⟩) :
    WalletExchanged w roles headers body (some i) (walletResponse headers result)

/-- What a response to a request for a wallet tells about the service. -/
structure WalletTells (w : Service) (roles : List AppRole) (headers : RequestHeaders) (body : Json)
    (n : Option Nat) (response : HttpResponse) : Prop where
  committed : (∃ i ∈ n, Commits w i) ↔ response.status = 201
  opened : response.status = 201 → ∃ command view, ∃ row ∈ w.shared.db.wallets,
    postWalletCommand roles headers body = .ok command ∧ ShowsOpening command view row ∧
      response = answered headers.correlationId 201 (.wallet view)
  conflict : n.isSome → response.status = 409 → ∃ command message, ∃ row ∈ w.shared.db.wallets,
    postWalletCommand roles headers body = .ok command ∧
      row.playerId = Text.stored command.playerId ∧
      (∃ money, Money.from command.initialBalance = .ok money ∧ row.currency = money.currency) ∧
      response.body = .error .walletAlreadyExists message (some row.id) headers.correlationId

/-- Each wallet has one opener, and stays what it was opened as. -/
structure OpensOnce (w : Service) : Prop where
  unique : ∀ v ∈ w.shared.db.wallets, ∀ v' ∈ w.shared.db.wallets, v.playerId = v'.playerId →
    v.currency = v'.currency → v = v'
  opener : ∀ v ∈ w.shared.db.wallets, ∃! i, ∃ command view, Opened w i command view ∧
    ShowsOpening command view v
  shown : ∀ i command view, Opened w i command view →
    ∃ v ∈ w.shared.db.wallets, ShowsOpening command view v
  tells : ∀ roles headers body n response, WalletExchanged w roles headers body n response →
    WalletTells w roles headers body n response
  reads : ∀ v ∈ w.shared.db.wallets, ∀ w', World.Steps units w w' → ∀ roles headers,
    AppRole.api ∈ roles → ∃ v' ∈ w'.shared.db.wallets, SameWallet v v' ∧
      getWallet roles headers v.id w'.shared.db = answered headers.correlationId 200
        (.wallet ⟨v'.id, v'.playerId, ⟨toFixed v'.balance, v'.currency⟩, v'.version⟩)

end Statements

section Proofs

variable [Platform] [Driver] {w w' : Service} {i j : Nat} {command : CreateWalletCommand}
  {view : WalletView} {sh sh' : Shared} {l : Local} {a : Answer}

/-! ## Testimonies -/

/-- Every wallet creation of the run testifies to how it ended. -/
theorem Reachable.testified (h : Reachable w) :
    World.Attested Creating.ties Entry.Created Entry.CameLate
      (fun e => ∃ error, e = .application error) w := by
  refine World.Attested.steps .empty (fun hv => Reachable.sound hv) units_testify
    (fun e houtage => ?_) (fun {_ _ _ op input _ e} hop => ?_) h
  · obtain ⟨r, rfl⟩ := isOutage_repository houtage
    rintro ⟨error, herror⟩
    cases herror
  · rintro ⟨error, rfl⟩
    exact exec_blameless op input _ _ hop

/-! ## The wallet that an opener inserted -/

omit [Platform] [Driver] in
/-- What a statement inserted is there when the transaction commits. -/
theorem inserted_wallet {row : WalletRow} (h : Write.insertWallet row ∈ l.log) (db : Database) :
    ∃ row' ∈ (l.view db).wallets, SameWallet row row' := by
  obtain ⟨earlier, later, hlog⟩ := List.append_of_mem h
  rw [Local.view, hlog, Database.after_append, Database.after_cons]
  exact sameWallet_after (List.mem_append_right _ (List.mem_singleton.mpr rfl)) later

omit [Driver] in
/-- What is read back of a wallet that is inserted. -/
theorem walletView_inserted {wallet created : Wallet} (hasks : command.AsksFor wallet)
    (hread : toWallet (toWalletRow wallet).stored = .ok created) :
    walletView created = ⟨wallet.id, Text.stored command.playerId, wallet.balance.toJSON, 1⟩ := by
  have hmoney : moneyColumn wallet.balance.cents wallet.currency = .ok wallet.balance :=
    hasks.currency ▸ moneyColumn_eq wallet.balance (Money.from_spec hasks.balance).1
  obtain ⟨balance, hbalance, hcreated⟩ := bind_ok hread
  obtain rfl := Except.ok.inj (hmoney.symm.trans hbalance)
  cases hcreated
  simp only [walletView, WalletRow.stored, toWalletRow, hasks.playerId, hasks.version]

/-- An opener's view is the one of a wallet that is there ever after. -/
theorem Reachable.opened_shown (h : Reachable w) (hopened : Opened w i command view) :
    ∃ row ∈ w.shared.db.wallets, ShowsOpening command view row := by
  obtain ⟨⟨s, hs, hentry⟩, sh, l, hmem⟩ := hopened
  obtain ⟨s', hs', u, -, -, rfl, -, t, htied, htestimony⟩ := h.testified.commits hmem
  obtain rfl := Option.some.inj (hs.symm.trans hs')
  rw [hentry] at htestimony
  obtain ⟨wallet, created, hcreated, hasks, hview⟩ := htestimony
  cases hview
  obtain ⟨hinserted, hread⟩ := htied.created wallet created hcreated
  obtain ⟨entry, past, hcommitted⟩ := h.commit_recorded hmem
  obtain ⟨row, hrow, same⟩ := inserted_wallet hinserted u.shared.db
  obtain ⟨row', hrow', same'⟩ := hcommitted.since.wallets row hrow
  have hplayer : row'.playerId = Text.stored command.playerId := by
    rw [← same'.playerId, ← same.playerId, ← hasks.playerId]
    rfl
  refine ⟨row', hrow', hplayer, wallet.balance, hasks.balance, ?_, ?_⟩
  · rw [← same'.currency, ← same.currency, ← hasks.currency]
    rfl
  · rw [walletView_inserted hasks hread, hplayer, ← same'.id, ← same.id]
    rfl

/-! ## One opener -/

omit [Driver] in
theorem Sound.wallet_eq (hs : Sound sh) {v v' : WalletRow} (hv : v ∈ sh.db.wallets)
    (hv' : v' ∈ sh.db.wallets) (hplayer : v.playerId = v'.playerId)
    (hcurrency : v.currency = v'.currency) : v = v' := by
  have hkeys := hs.keys
  simp only [Database.uniqueKeys, List.nodup_append] at hkeys
  refine Keyed.eq_of_mem_keys hkeys.1.1.1.1 hv hv' (k := .walletPlayer v.playerId v.currency) ?_ ?_
  · simp [WalletRow.uniqueKeys]
  · simp [WalletRow.uniqueKeys, hplayer, hcurrency]

/-- What an opener has done. -/
theorem Reachable.opened_created (h : Reachable w) (hmem : (i, .committed sh l a) ∈ w.history)
    (hsession : ∃ s, w.sessions[i]? = some s ∧ s.entry = .createWallet command) :
    ∃ view, a = .wallet view ∧ WalletCreated command sh l view := by
  obtain ⟨entry, past, hcommitted⟩ := h.commit_recorded hmem
  obtain rfl := session_entry hcommitted.session hsession
  exact hcommitted.commits

/-- A wallet is not opened again. -/
theorem Reachable.opened_first (h : Reachable w) {n m : Nat} {command' : CreateWalletCommand}
    {view' : WalletView} {l' : Local}
    (hsession : ∃ s, w.sessions[i]? = some s ∧ s.entry = .createWallet command)
    (hsession' : ∃ s, w.sessions[j]? = some s ∧ s.entry = .createWallet command')
    (hn : w.history[n]? = some (i, .committed sh l (.wallet view)))
    (hm : w.history[m]? = some (j, .committed sh' l' (.wallet view')))
    (hid : view.id = view'.id) : ¬ n < m := by
  intro hlt
  obtain ⟨_, hview, hcreated⟩ := h.opened_created (List.mem_of_getElem? hn) hsession
  obtain ⟨_, hview', hcreated'⟩ := h.opened_created (List.mem_of_getElem? hm) hsession'
  cases hview
  cases hview'
  have hevolves : Evolves (committed sh l) sh' := by
    have := List.pairwise_iff_getElem.mp h.sound.ordered n m
      (List.getElem?_eq_some_iff.mp hn).1 (List.getElem?_eq_some_iff.mp hm).1 hlt
    rw [(List.getElem?_eq_some_iff.mp hn).2, (List.getElem?_eq_some_iff.mp hm).2] at this
    exact this
  obtain ⟨row, hwallets, hrowid⟩ := hcreated.wallets
  have hrow : row ∈ (committed sh l).db.wallets := by
    apply hwallets ▸ List.mem_append_right _ (List.mem_singleton.mpr rfl)
  obtain ⟨row', hrow', same⟩ := hevolves.wallets row hrow
  exact hcreated'.fresh row' hrow' (same.id.symm.trans (hrowid.trans hid))

theorem Reachable.opener_unique (h : Reachable w) {command' : CreateWalletCommand}
    {view' : WalletView} (hopened : Opened w i command view)
    (hopened' : Opened w j command' view') (hid : view.id = view'.id) : i = j := by
  obtain ⟨hsession, sh, l, hmem⟩ := hopened
  obtain ⟨hsession', sh', l', hmem'⟩ := hopened'
  obtain ⟨n, hn⟩ := List.mem_iff_getElem?.mp hmem
  obtain ⟨m, hm⟩ := List.mem_iff_getElem?.mp hmem'
  rcases Nat.lt_trichotomy n m with hlt | rfl | hlt
  · exact absurd hlt (h.opened_first hsession hsession' hn hm hid)
  · exact (Prod.mk.inj (Option.some.inj (hn.symm.trans hm))).1
  · exact absurd hlt (h.opened_first hsession' hsession hm hn hid.symm)

/-- Every wallet was opened, and is what it was opened as. -/
theorem Reachable.opener_exists (h : Reachable w) {v : WalletRow} (hv : v ∈ w.shared.db.wallets) :
    ∃ i command view, Opened w i command view ∧ ShowsOpening command view v := by
  obtain ⟨-, ⟨i, command, sh, l, view, hsession, hmem, hid, -⟩, -⟩ := h.openedWith hv
  have hopened : Opened w i command view := ⟨hsession, sh, l, hmem⟩
  obtain ⟨row, hrow, hshows⟩ := h.opened_shown hopened
  obtain ⟨money, hmoney, hcurrency, hview⟩ := hshows.money
  have heq : row = v := by
    refine h.sound.inv.books.walletIds.eq_of_key hrow hv ?_
    rw [← hid, hview]
  exact ⟨i, command, view, hopened, heq ▸ hshows⟩

/-! ## Who comes late -/

/-- A request that did not get its wallet names the one that is there. -/
theorem Reachable.late_names (h : Reachable w) {e : ApplicationError}
    (hs : w.sessions[i]? = some ⟨.createWallet command, .closed (.error (.application e))⟩) :
    e.code = .walletAlreadyExists ∧ ∃ row ∈ w.shared.db.wallets, e.existingId = some row.id ∧
      row.playerId = Text.stored command.playerId ∧
      ∃ money, Money.from command.initialBalance = .ok money ∧ row.currency = money.currency := by
  obtain ⟨ending, hresult, hhistory⟩ := h.ended_once
    (fun past (hdone : (contract (.createWallet command)).done past _) => hdone) hs
  cases ending with
  | committed sh l a => cases hresult
  | failed sh l e' =>
    cases hresult
    have hmem := (hhistory _).mpr rfl
    obtain ⟨s, hs', u, -, -, rfl, -, t, htied, htestimony⟩ := h.testified.failures hmem ⟨e, rfl⟩
    obtain rfl := Option.some.inj (hs.symm.trans hs')
    obtain ⟨wallet, found, hasks, hlate, hsought, hcode, hid⟩ := htestimony e rfl
    obtain ⟨other, rfl, row, hrow, hrowid⟩ := htied.sought _ _ _ hlate hsought
    obtain ⟨row', ⟨hmem', hplayer, hcurrency⟩, hid'⟩ :=
      Rely.hasWallet (h.sound.settled hmem) hrow
    refine ⟨hcode, row', hmem', ?_, ?_, wallet.balance, hasks.balance, ?_⟩
    · rw [hid, hid', hrowid]
      rfl
    · rw [hplayer, hasks.playerId]
    · rw [hcurrency, hasks.currency]

/-! ## Responses -/

/-- A session that answered with a wallet has committed it. -/
theorem Reachable.opened_of_answer (h : Reachable w)
    (hs : w.sessions[i]? = some ⟨.createWallet command, .closed (.ok a)⟩) :
    ∃ view, a = .wallet view ∧ Opened w i command view := by
  obtain ⟨ending, hresult, hhistory⟩ := h.ended_once
    (fun past (hdone : (contract (.createWallet command)).done past _) => hdone) hs
  cases ending with
  | failed sh l e => cases hresult
  | committed sh l a' =>
    cases hresult
    have hmem := (hhistory _).mpr rfl
    obtain ⟨view, rfl, -⟩ := h.opened_created hmem ⟨_, hs, rfl⟩
    exact ⟨view, rfl, ⟨_, hs, rfl⟩, sh, l, hmem⟩

/-- A session that answered with an error has committed nothing. -/
theorem Reachable.late_commits (h : Reachable w) {e : Failure}
    (hs : w.sessions[i]? = some ⟨.createWallet command, .closed (.error e)⟩) : ¬ Commits w i := by
  obtain ⟨ending, hresult, hhistory⟩ := h.ended_once
    (fun past (hdone : (contract (.createWallet command)).done past _) => hdone) hs
  rintro ⟨sh, l, a, hmem⟩
  rw [← (hhistory _).mp hmem] at hresult
  cases hresult

omit [Platform] [Driver] in
theorem describeUnknown_ne_conflict (transient : Bool) :
    (describeUnknown transient).status ≠ 409 := by
  cases transient <;> decide

omit [Platform] in
/-- The error that a request was answered with, when its status is 409. -/
theorem describe_conflict {e : Failure} (h : (describe (.thrown e)).status = 409) :
    ∃ error, e = .application error := by
  cases e with
  | application error => exact ⟨error, rfl⟩
  | domain error => cases h
  | repository error => exact absurd h (describeUnknown_ne_conflict _)
  | stackOverflow => exact absurd h (describeUnknown_ne_conflict _)

/-- An error leaves no wallet behind, and a conflict names the one that is there. -/
theorem Reachable.wallet_caught (h : Reachable w) {roles : List AppRole} {headers : RequestHeaders}
    {body : Json} {n : Option Nat} {e : Failure} (hnot : ¬ ∃ i ∈ n, Commits w i)
    (hserved : ∀ i ∈ n, ∃ command, postWalletCommand roles headers body = .ok command ∧
      w.sessions[i]? = some ⟨.createWallet command, .closed (.error e)⟩) :
    WalletTells w roles headers body n (caught headers.correlationId (.thrown e)) := by
  have hstatus : ¬ (caught headers.correlationId (.thrown e)).status = 201 := by
    have hle : 400 ≤ (caught headers.correlationId (.thrown e)).status := describe_thrown e
    intro heq
    rw [heq] at hle
    exact absurd hle (by decide)
  refine
    { committed := iff_of_false hnot hstatus
      opened := fun heq => absurd heq hstatus
      conflict := fun hsome heq => ?conflict }
  obtain ⟨i, rfl⟩ := Option.isSome_iff_exists.mp hsome
  obtain ⟨command, haccepted, hs⟩ := hserved i rfl
  obtain ⟨error, rfl⟩ := describe_conflict heq
  obtain ⟨hcode, row, hrow, hid, hplayer, hcurrency⟩ := h.late_names hs
  refine ⟨command, error.message, row, hrow, haccepted, hplayer, hcurrency, ?_⟩
  simp only [caught, describe, hcode, hid]

theorem Reachable.wallet_tells (h : Reachable w) {roles : List AppRole} {headers : RequestHeaders}
    {body : Json} {n : Option Nat} {response : HttpResponse}
    (hexchanged : WalletExchanged w roles headers body n response) :
    WalletTells w roles headers body n response := by
  cases hexchanged with
  | refused =>
    refine h.wallet_caught ?_ fun i hi => by cases hi
    rintro ⟨i, hi, -⟩
    cases hi
  | @served i command result accepted session =>
    cases result with
    | error e =>
      refine h.wallet_caught ?_ fun j hj => ?_
      · rintro ⟨j, hj, hcommits⟩
        cases hj
        exact h.late_commits session hcommits
      · cases hj
        exact ⟨command, accepted, session⟩
    | ok a =>
      obtain ⟨view, rfl, hopened⟩ := h.opened_of_answer session
      obtain ⟨row, hrow, hshows⟩ := h.opened_shown hopened
      obtain ⟨-, sh, l, hmem⟩ := hopened
      refine
        { committed := iff_of_true ⟨i, rfl, sh, l, _, hmem⟩ rfl
          opened := fun _ => ⟨command, view, row, hrow, accepted, hshows, rfl⟩
          conflict := fun _ heq => by cases heq }

/-! ## Reads -/

/-- A wallet that is there is read as it is. -/
theorem Sound.getWallet_eq (hs : Sound sh) {row : WalletRow} (hrow : row ∈ sh.db.wallets)
    {roles : List AppRole} {headers : RequestHeaders} (hrole : AppRole.api ∈ roles) :
    getWallet roles headers row.id sh.db = answered headers.correlationId 200
      (.wallet ⟨row.id, row.playerId, ⟨toFixed row.balance, row.currency⟩, row.version⟩) := by
  obtain ⟨wallet, hload, hwrow, hstorable⟩ := (hs.wallets row hrow).load
  obtain ⟨huuid, htext⟩ : isUuid row.id = true ∧ uuidText row.id = row.id := by
    simpa [isCanonicalUuid] using (hs.wallets row hrow).uuid
  have hfind : findWalletById sh.db row.id = .ok (some wallet) := by
    have hlookup : sh.db.walletById row.id = some row := hs.books.walletIds.lookup hrow
    simp [findWalletById, huuid, htext, hlookup, hload, Except.mapError]
  have hread : readWallet roles row.id sh.db = .ok (walletView wallet) := by
    unfold readWallet canActivate
    rw [if_pos hrole]
    simp only [requireUuid, huuid, if_true]
    change (findWalletById sh.db row.id >>= _) = _
    rw [hfind]
    rfl
  unfold getWallet
  rw [hread, respond, ← hwrow]
  simp only [walletView, toWalletRow, Money.toJSON, Money.toString, hstorable.currency]

/-- Whatever the schedule, each wallet has one opener, and whoever asks for it
again is told. -/
theorem Reachable.wallets_openOnce (h : Reachable w) : OpensOnce w where
  unique := fun v hv v' hv' hplayer hcurrency => h.sound.inv.wallet_eq hv hv' hplayer hcurrency
  opener := fun v hv => by
    obtain ⟨i, command, view, hopened, hshows⟩ := h.opener_exists hv
    refine ⟨i, ⟨command, view, hopened, hshows⟩, fun j ⟨command', view', hopened', hshows'⟩ => ?_⟩
    obtain ⟨money, -, -, hview⟩ := hshows.money
    obtain ⟨money', -, -, hview'⟩ := hshows'.money
    exact h.opener_unique hopened' hopened (by rw [hview, hview'])
  shown := fun i command view hopened => h.opened_shown hopened
  tells := fun roles headers body n response hexchanged => h.wallet_tells hexchanged
  reads := fun v hv w' hsteps roles headers hrole => by
    obtain ⟨v', hv', same⟩ := (h.evolves hsteps).wallets v hv
    have hreach : Reachable w' := Relation.ReflTransGen.trans h hsteps
    refine ⟨v', hv', same, ?_⟩
    rw [same.id]
    exact hreach.sound.inv.getWallet_eq hv' hrole

end Proofs

theorem sample_opensOnce : @OpensOnce samplePlatform sampleDriver sampleService :=
  @Reachable.wallets_openOnce samplePlatform sampleDriver sampleService sample_reachable

end Wagering
