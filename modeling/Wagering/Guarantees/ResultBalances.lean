import Wagering.Correctness.Observing
import Wagering.Guarantees.Openings
import Wagering.Guarantees.Reads

/-!
# Whose balance a transaction shows

Any provider may name any wallet in a transaction.  What it is shown of it,
whatever the schedule, is the balance that the wallet had right after a commit
that recorded it, and only of a wallet of the player that the transaction is
for.
-/

namespace Wagering

open Interleave

/-- The transaction shows the balance of the wallet that it names, and the wallet
is its player's. -/
structure Database.Shown (db : Database) (r : WagerTransactionRow) (v : WalletRow) : Prop where
  mem : v ∈ db.wallets
  id : v.id = r.walletId
  playerId : v.playerId = r.playerId
  amount : r.resultBalanceAmount = some v.balance
  currency : r.resultBalanceCurrency = some v.currency

section Statements

variable [Platform] [Driver]

/-- The balance is one that the wallet of the transaction had right after a commit,
which recorded it with the transaction. -/
def BalanceOf (w : Service) (t : WagerTransactionRow) (balance : MoneyProps) : Prop :=
  ∃ i sh l a, (i, .committed sh l a) ∈ w.history ∧
    ∃ r ∈ (l.view sh.db).wagers, SameIdentity r t ∧ ∃ v, (l.view sh.db).Shown r v ∧
      balance = moneyText v.balance v.currency

/-- What the service shows of balances. -/
structure ShowsOwnBalances (w : Service) : Prop where
  recorded : ∀ t ∈ w.shared.db.wagers, ∀ balance ∈ t.view.balance, BalanceOf w t balance
  foreign : ∀ t ∈ w.shared.db.wagers,
    (∀ v ∈ w.shared.db.wallets, v.id = t.walletId → v.playerId ≠ t.playerId) →
    t.view.balance = none ∧ t.status = .rejected ∧
      (t.failureCode = some .walletNotFound ∨ t.failureCode = some .walletPlayerMismatch)
  answered : ∀ roles headers body n response, Exchanged w roles headers body n response →
    ∀ result, response.body = .submitted result → ∀ balance ∈ result.balance,
      ∃ t ∈ w.shared.db.wagers, t.id = result.transactionId ∧ BalanceOf w t balance
  read : ∀ roles headers id view, (getTransaction roles headers id w.shared.db).body =
    .transaction view → ∀ balance ∈ view.balance,
      ∃ t ∈ w.shared.db.wagers, t.id = view.transactionId ∧ BalanceOf w t balance
  readByProvider : ∀ roles headers providerId externalTransactionId view,
    (getTransactionByProvider roles headers providerId externalTransactionId w.shared.db).body =
      .transaction view → ∀ balance ∈ view.balance,
        ∃ t ∈ w.shared.db.wagers, t.id = view.transactionId ∧ BalanceOf w t balance

end Statements

section Proofs

variable [Platform] {sh sh' : Shared} {l : Local} {s : Sighting} {db : Database}
  {r t : WagerTransactionRow}

/-! ## Wallets of their players -/

/-- The wallet that the transaction names is its player's. -/
def Database.Named (db : Database) (r : WagerTransactionRow) : Prop :=
  ∃ v ∈ db.wallets, v.id = r.walletId ∧ v.playerId = r.playerId

/-- Every transaction that shows a balance names a wallet of its player. -/
def Database.NamesOwn (db : Database) : Prop :=
  ∀ r ∈ db.wagers, r.resultBalanceAmount.isSome = true → db.Named r

omit [Platform] in
theorem Database.Named.after (h : db.Named r) (log : List Write) : (db.after log).Named r := by
  obtain ⟨v, hv, hid, hplayer⟩ := h
  obtain ⟨v', hv', same⟩ := sameWallet_after hv log
  exact ⟨v', hv', same.id ▸ hid, same.playerId ▸ hplayer⟩

omit [Platform] in
theorem Database.Named.evolves (h : sh.db.Named r) (hevolves : Evolves sh sh') :
    sh'.db.Named r := by
  obtain ⟨v, hv, hid, hplayer⟩ := h
  obtain ⟨v', hv', same⟩ := hevolves.wallets v hv
  exact ⟨v', hv', same.id ▸ hid, same.playerId ▸ hplayer⟩

/-- The ties of a sighting. -/
def Sighting.ties [Driver] : Ties discipline sightings units Service.start where
  Tied := fun _ u => Sighting.Tied u.shared
  start := fun {_ u} _ _ => Sighting.Tied.start u.shared
  rely := fun _ _ _ ho _ h hr => h.rely ho hr
  exec := fun _ _ hs ho h hallows hexec => h.exec hs ho hallows hexec

/-! ## What a commit records -/

/-- Where the balance of a row in the view of a transaction comes from. -/
inductive Provenance (sh : Shared) (l : Local) (r : WagerTransactionRow) : Prop
  | before (mem : r ∈ sh.db.wagers)
  | hidden (balance : r.resultBalanceAmount = none)
  | observed {v : WalletRow} (shown : (l.view sh.db).Shown r v)
  | kept {old : WagerTransactionRow} (mem : old ∈ sh.db.wagers) (id : old.id = r.id)
    (walletId : old.walletId = r.walletId) (playerId : old.playerId = r.playerId)
    (amount : old.resultBalanceAmount = r.resultBalanceAmount)
    (currency : old.resultBalanceCurrency = r.resultBalanceCurrency)

/-- A transaction that still waits shows a balance. -/
theorem Sound.waiting_shows (hs : Sound sh) (hr : r ∈ sh.db.wagers)
    (hwaits : r.status.isTerminal = false) : r.resultBalanceAmount.isSome = true := by
  have hchecks := (hs.wagers r hr).checks
  simp only [wagerCheckRules, List.forall_mem_cons] at hchecks
  obtain ⟨-, -, -, -, -, -, -, -, -, hpresence, -⟩ := hchecks
  rcases hs.status_cases hr with hstatus | hstatus | hstatus | hstatus
  · simpa [check, hstatus] using hpresence
  all_goals
    rw [hstatus] at hwaits
    cases hwaits

/-- The balance that is shown is that of the wallet in hand. -/
theorem Sighting.Tied.observed (h : s.Tied sh l) (hs : Sound sh) (hs' : Sound (committed sh l))
    (hnames : sh.db.NamesOwn) {p : WagerTransaction} {w : Wallet} (hrow : s.row = some p)
    (hwallet : r.walletId = p.walletId) (hplayer : r.playerId = p.playerId)
    (hhand : s.hand = some w) (hsaw : s.Saw p w)
    (hwaiting : s.asked = none → p.isTerminal = false) :
    ∃ v ∈ (l.view sh.db).wallets, v.Holds w ∧ v.id = r.walletId ∧ v.playerId = r.playerId := by
  obtain ⟨v, hv, -, hholds, hsought⟩ := h.hand.held w hhand
  refine ⟨v, hv, hholds, ?_⟩
  unfold Sighting.Saw at hsaw
  cases hasked : s.asked with
  | some asked =>
    rw [hasked] at hsaw
    obtain ⟨-, hnamed, howner⟩ := h.row.named asked hasked p hrow
    refine ⟨(hsought _ hsaw.1).trans (hnamed.symm.trans hwallet.symm), ?_⟩
    rw [hplayer, howner, ← hsaw.2, ← hholds.playerId, hholds.stored]
  | none =>
    rw [hasked] at hsaw
    obtain ⟨old, hold, -, hread⟩ := h.row.locked hasked p hrow
    obtain ⟨-, hnamed, howner⟩ := toWagerTransaction_columns hread
    have hcanonical : uuidText old.walletId = old.walletId :=
      congrArg WagerTransactionRow.walletId (hs.wagers old hold).stored
    have hid : v.id = r.walletId := by
      rw [hsought _ hsaw, hnamed, hcanonical, ← hnamed, hwallet]
    have hstatus : old.status.isTerminal = false :=
      (toWagerTransaction_ok hread).2.1 ▸ hwaiting hasked
    -- it was compared when the transaction was first recorded
    obtain ⟨v', hv', hid', hplayer'⟩ :=
      (hnames old hold (hs.waiting_shows hold hstatus)).after l.log
    obtain rfl : v' = v := hs'.books.walletIds.eq_of_key hv' hv
      (hid'.trans (hnamed.symm.trans (hwallet.symm.trans hid.symm)))
    exact ⟨hid, hplayer'.trans (howner.symm.trans hplayer.symm)⟩

/-- A transaction accounts for the balances of all rows that it leaves. -/
theorem Sighting.Tied.provenance (h : s.Tied sh l) (haccounts : s.Accounts) (hs : Sound sh)
    (hs' : Sound (committed sh l)) (hnames : sh.db.NamesOwn) (hr : r ∈ (l.view sh.db).wagers) :
    Provenance sh l r := by
  cases hrow : s.row with
  | none => exact .before (wagers_after_none (h.row.untouched hrow).2 sh.db ▸ hr)
  | some p =>
    obtain ⟨own, hmem, -, hid, hwallet, hplayer, hshows⟩ := h.row.held p hrow
    by_cases hown : r.id = p.id
    · obtain rfl : r = own := hs'.books.wagerIds.eq_of_key hr hmem (hown.trans hid.symm)
      obtain ⟨t, hwritten, -, hexplains⟩ := haccounts p hrow
      obtain ⟨-, hamount, hcurrency⟩ := hshows t hwritten
      cases hexplains with
      | hidden balance => exact .hidden (by rw [hamount, balance]; rfl)
      | observed hhand hsaw hwaiting balance =>
        obtain ⟨v, hv, hholds, hid', hplayer'⟩ :=
          h.observed hs hs' hnames hrow hwallet hplayer hhand hsaw hwaiting
        rw [balance] at hamount hcurrency
        refine .observed ⟨hv, hid', hplayer', ?_, ?_⟩
        · rw [hamount, hholds.balance]
          rfl
        · rw [hcurrency, hholds.currency]
          rfl
      | kept hasked balance =>
        obtain ⟨old, hold, -, hread⟩ := h.row.locked hasked p hrow
        obtain ⟨hid', hwallet', hplayer'⟩ := toWagerTransaction_columns hread
        obtain ⟨t', hload, hstored, -⟩ := (hs.wagers old hold).load
        obtain rfl := Except.ok.inj (hread.symm.trans hload)
        rw [balance] at hamount hcurrency
        refine .kept hold (hid'.symm.trans hid.symm) (hwallet'.symm.trans hwallet.symm)
          (hplayer'.symm.trans hplayer.symm) ?_ ?_
        · rw [hamount, ← hstored]
          rfl
        · rw [hcurrency, ← hstored]
          rfl
    -- whatever was written has the identifier of the transaction at work
    · rcases mem_wagers_after hr with hold | hinserted | ⟨new, old, hupdated, hnew, rfl⟩
      · exact .before hold
      · exact absurd (h.row.own p hrow r (.inl hinserted)) hown
      · exact absurd (hnew.trans (h.row.own p hrow new (.inr hupdated))) hown

omit [Platform] in
theorem Provenance.named (h : Provenance sh l r) (hnames : sh.db.NamesOwn)
    (hshows : r.resultBalanceAmount.isSome = true) : (l.view sh.db).Named r := by
  cases h with
  | before mem => exact (hnames r mem hshows).after l.log
  | hidden balance =>
    rw [balance] at hshows
    cases hshows
  | observed shown => exact ⟨_, shown.mem, shown.id, shown.playerId⟩
  | kept mem id walletId playerId amount currency =>
    obtain ⟨v, hv, hid, hplayer⟩ := (hnames _ mem (amount ▸ hshows)).after l.log
    exact ⟨v, hv, hid.trans walletId, hplayer.trans playerId⟩

/-! ## Over every run -/

variable [Driver] {w w' : Service} {i : Nat} {a : Answer} {balance : MoneyProps}

/-- Every transaction of the run accounts for the balances that it records. -/
theorem Reachable.sighted (h : Reachable w) :
    World.Attested Sighting.ties (fun _ s _ => s.Accounts) (fun _ _ _ => True) (fun _ => False) w :=
  World.Attested.steps .empty (fun hv => Reachable.sound hv) units_sight (fun _ _ h => h)
    (fun _ h => h) h

/-- Where the balances that a commit leaves come from. -/
theorem Reachable.provenance (h : Reachable w) (hmem : (i, .committed sh l a) ∈ w.history)
    (hnames : sh.db.NamesOwn) (hr : r ∈ (l.view sh.db).wagers) : Provenance sh l r := by
  obtain ⟨entry, past, hcommitted⟩ := h.commit_recorded hmem
  obtain ⟨s, -, u, -, -, rfl, -, t, htied, haccounts⟩ := h.sighted.commits hmem
  exact Sighting.Tied.provenance htied haccounts hcommitted.sound
    (hcommitted.ready.sound hcommitted.sound hcommitted.own) hnames hr

/-- In every state of the run whoever shows a balance names a wallet of its player. -/
theorem Reachable.namesOwn (h : Reachable w) : w.shared.db.NamesOwn := by
  induction h with
  | refl =>
    intro r hr
    cases hr
  | @tail mid w' before last ih =>
    obtain ⟨action, hstep⟩ := last
    obtain ⟨-, hshared⟩ := World.step_cases hstep
    rcases hshared with
      ⟨-, heq | ⟨others, l, op, input, r, hop⟩ | ⟨a, -, ha⟩⟩ | ⟨i, l, a, heq, hhistory⟩
    · exact heq ▸ ih
    · exact (exec_effect hop).1 ▸ ih
    · obtain ⟨outbox, publishing, heq, -, -⟩ := ambient_same ha
      rw [heq]
      exact ih
    · have hreach : Reachable w' := Relation.ReflTransGen.tail before ⟨action, hstep⟩
      have hmem : (i, Ending.committed mid.shared l a) ∈ w'.history := by
        rw [hhistory]
        exact List.mem_append_right _ (List.mem_singleton.mpr rfl)
      rw [heq]
      exact fun r hr => (hreach.provenance hmem ih hr).named ih

/-- The state that a commit found was one of the run. -/
theorem Reachable.commit_found (h : Reachable w) (hmem : (i, .committed sh l a) ∈ w.history) :
    ∃ mid, Reachable mid ∧ World.Steps units mid w ∧ mid.shared = sh := by
  rcases World.Steps.met (h : World.Steps units Service.start w) hmem with hnone |
    ⟨mid, hmid, hlater, heq⟩
  · cases hnone
  · exact ⟨mid, hmid, hlater, heq.symm⟩

/-- Where the balances of the run come from. -/
theorem Reachable.provenance_of_commit (h : Reachable w)
    (hmem : (i, .committed sh l a) ∈ w.history) (hr : r ∈ (l.view sh.db).wagers) :
    Provenance sh l r := by
  obtain ⟨mid, hmid, -, rfl⟩ := h.commit_found hmem
  exact h.provenance hmem hmid.namesOwn hr

omit [Platform] [Driver] in
theorem WagerTransactionRow.mem_balance :
    balance ∈ r.view.balance ↔ ∃ amount currency, r.resultBalanceAmount = some amount ∧
      r.resultBalanceCurrency = some currency ∧ balance = moneyText amount currency := by
  unfold WagerTransactionRow.view WagerTransactionRow.replayed
  cases r.resultBalanceAmount <;> cases r.resultBalanceCurrency <;> simp [eq_comm]

theorem BalanceOf.later (h : BalanceOf w t balance) (hsteps : World.Steps units w w')
    {t' : WagerTransactionRow} (same : SameIdentity t t') : BalanceOf w' t' balance := by
  obtain ⟨i, sh, l, a, hmem, r, hr, hsame, hshown⟩ := h
  exact ⟨i, sh, l, a, hsteps.extends.history.subset hmem, r, hr, hsame.trans same, hshown⟩

/-- A balance that was observed at a commit. -/
theorem Reachable.balance_observed (h : Reachable w) (hmem : (i, .committed sh l a) ∈ w.history)
    (hr : r ∈ (l.view sh.db).wagers) {v : WalletRow} (hshown : (l.view sh.db).Shown r v)
    (ht : t ∈ w.shared.db.wagers) (hid : r.id = t.id)
    (hbalance : balance = moneyText v.balance v.currency) : BalanceOf w t balance := by
  obtain ⟨entry, past, hcommitted⟩ := h.commit_recorded hmem
  obtain ⟨t', ht', same, -⟩ := hcommitted.since.wagers r hr
  obtain rfl : t' = t :=
    h.sound.inv.books.wagerIds.eq_of_key ht' ht (same.id.symm.trans hid)
  exact ⟨i, sh, l, a, hmem, r, hr, same, v, hshown, hbalance⟩

/-- Every balance in the tables goes back to a commit. -/
theorem Reachable.row_balance (h : Reachable w) (ht : t ∈ w.shared.db.wagers)
    (hbalance : balance ∈ t.view.balance) : BalanceOf w t balance := by
  obtain ⟨amount, currency, hamount, hcurrency, rfl⟩ := WagerTransactionRow.mem_balance.mp hbalance
  have horigin := @World.Steps.origin _ _ store Entry Answer units
    (fun sh : Shared => ∃ r ∈ sh.db.wagers, r.id = t.id ∧
      r.resultBalanceAmount = t.resultBalanceAmount ∧
      r.resultBalanceCurrency = t.resultBalanceCurrency)
    (fun hop hp => (exec_effect hop).1 ▸ hp) (fun ha hp => ?_) _ _ h ⟨t, ht, rfl, rfl, rfl⟩
  · rcases horigin with ⟨r, hr, -⟩ | ⟨i, sh, l, a, hmem, hnew, r, hr, hid, hra, hrc⟩
    · cases hr
    · cases h.provenance_of_commit hmem hr with
      | before hold => exact absurd ⟨r, hold, hid, hra, hrc⟩ hnew
      | hidden hnone =>
        rw [hra, hamount] at hnone
        cases hnone
      | kept hold hoid _ _ hoa hoc =>
        exact absurd ⟨_, hold, hoid.trans hid, hoa.trans hra, hoc.trans hrc⟩ hnew
      | @observed v hshown =>
        refine h.balance_observed hmem hr hshown ht hid ?_
        rw [Option.some.inj (hamount.symm.trans (hra.symm.trans hshown.amount)),
          Option.some.inj (hcurrency.symm.trans (hrc.symm.trans hshown.currency))]
  · obtain ⟨outbox, publishing, rfl, -, -⟩ := ambient_same ha
    exact hp

/-- So does every balance that a commit leaves behind. -/
theorem Reachable.view_balance (h : Reachable w) (hmem : (i, .committed sh l a) ∈ w.history)
    (hr : r ∈ (l.view sh.db).wagers) (hbalance : balance ∈ r.view.balance)
    (ht : t ∈ w.shared.db.wagers) (hid : r.id = t.id) : BalanceOf w t balance := by
  obtain ⟨amount, currency, hamount, hcurrency, hbal⟩ := WagerTransactionRow.mem_balance.mp hbalance
  -- the state that the commit found, where the balance may have been shown already
  have hearlier : ∀ old ∈ sh.db.wagers, old.id = r.id → balance ∈ old.view.balance →
      BalanceOf w t balance := by
    intro old hold hoid hshows
    obtain ⟨mid, hmid, hlater, rfl⟩ := h.commit_found hmem
    obtain ⟨t', ht', same, -⟩ := (hmid.evolves hlater).wagers old hold
    obtain rfl : t' = t :=
      h.sound.inv.books.wagerIds.eq_of_key ht' ht (same.id.symm.trans (hoid.trans hid))
    exact (hmid.row_balance hold hshows).later hlater same
  cases h.provenance_of_commit hmem hr with
  | before hold => exact hearlier r hold rfl hbalance
  | hidden hnone =>
    rw [hamount] at hnone
    cases hnone
  | kept hold hoid _ _ hoa hoc =>
    exact hearlier _ hold hoid (WagerTransactionRow.mem_balance.mpr
      ⟨amount, currency, hoa.trans hamount, hoc.trans hcurrency, hbal⟩)
  | @observed v hshown =>
    refine h.balance_observed hmem hr hshown ht hid ?_
    rw [hbal, Option.some.inj (hamount.symm.trans hshown.amount),
      Option.some.inj (hcurrency.symm.trans hshown.currency)]

/-- And every balance that a submission was answered with. -/
theorem Reachable.answer_balance (h : Reachable w) {command : SubmitWagerCommand}
    {result : SubmitWagerResult}
    (hs : w.sessions[i]? = some ⟨.submit command, .closed (.ok (.submitted result))⟩)
    (hbalance : balance ∈ result.balance) :
    ∃ t ∈ w.shared.db.wagers, t.id = result.transactionId ∧ BalanceOf w t balance := by
  have hview : ∀ (t : WagerTransaction) replay, balance ∈ (resultOf t replay).balance →
      balance ∈ (toWagerTransactionRow t).view.balance := by
    intro t replay hmem
    rw [← transactionView_eq]
    exact hmem
  obtain ⟨sh, l, result, heq, hhistory, hsound, hown, hsub, hsince⟩ := h.answer_commit hs
  cases heq
  have hmem := (hhistory _).mpr rfl
  cases hsub with
  | @decided d _ concluded key external hash kept inserted t stored status answer =>
    have hrow : toWagerTransactionRow t ∈ (l.view sh.db).wagers :=
      stored ▸ (concluded.books hsound ▸ Books.mem_wagers_record.mpr (.inl rfl) :
        d.tx ∈ (l.view sh.db).books.wagers)
    obtain ⟨t', ht', same, -⟩ := hsince.wagers _ hrow
    subst answer
    exact ⟨t', ht', same.id.symm, h.view_balance hmem hrow (hview t _ hbalance) ht' same.id⟩
  | @replayed t db row lost mem same db' looked read key hash =>
    have hseen : Seen Service.start w l :=
      (Reachable.seen (Relation.ReflTransGen.refl : Reachable Service.start) h (Nat.zero_le i)).2 _
        hmem
    obtain ⟨mid, hmid, hlater, rfl⟩ := hseen db' (.inr looked)
    have hreach : Reachable mid := hmid
    obtain ⟨t', ht', same', -⟩ := (hreach.evolves hlater).wagers _ read
    exact ⟨t', ht', same'.id.symm,
      (hreach.row_balance read (hview t true hbalance)).later hlater same'⟩

/-! ## What a reader is shown -/

omit [Driver] in
/-- A view that a reader is shown is that of a committed row. -/
theorem Sound.view_shown (hs : Sound sh) {found : Option WagerTransactionRow}
    (hfound : ∀ row ∈ found, row ∈ sh.db.wagers) {providerId : Text} {view : TransactionView}
    (h : (loadWager found >>= fun found => transactionView <$> mustBeOwnedBy found providerId) =
      .ok view) : ∃ row ∈ sh.db.wagers, view = row.view := by
  rw [hs.ownView_eq hfound] at h
  cases found with
  | none => cases h
  | some row =>
    unfold ownView at h
    simp only at h
    split at h
    · cases h
      exact ⟨row, hfound row rfl, rfl⟩
    · cases h

omit [Driver] in
theorem Sound.readTransaction_shown (hs : Sound sh) {roles : List AppRole}
    {headers : RequestHeaders} {id : Text} {view : TransactionView}
    (h : readTransaction roles headers id sh.db = .ok view) :
    ∃ row ∈ sh.db.wagers, view = row.view := by
  obtain ⟨-, -, h⟩ := bind_ok h
  obtain ⟨valid, -, h⟩ := bind_ok h
  obtain ⟨declared, -, h⟩ := bind_ok h
  unfold findWagerById at h
  split at h
  · cases h
  · exact hs.view_shown (fun row hrow => Keyed.mem_of_lookup hrow) h

omit [Driver] in
theorem Sound.readByProvider_shown (hs : Sound sh) {roles : List AppRole}
    {headers : RequestHeaders} {providerId external : Text} {view : TransactionView}
    (h : readTransactionByProvider roles headers providerId external sh.db = .ok view) :
    ∃ row ∈ sh.db.wagers, view = row.view := by
  obtain ⟨-, -, h⟩ := bind_ok h
  obtain ⟨validProvider, -, h⟩ := bind_ok h
  obtain ⟨validExternal, -, h⟩ := bind_ok h
  exact hs.view_shown (fun row hrow => Keyed.mem_of_lookup hrow) h

omit [Platform] in
/-- A response shows a transaction only where the work behind it did. -/
theorem respond_transaction {correlationId : Text} {result : Except Failure TransactionView}
    {view : TransactionView}
    (h : (respond correlationId (fun _ => 200) .transaction result).body = .transaction view) :
    result = .ok view := by
  cases result with
  | error e => cases h
  | ok view' =>
    cases h
    rfl

omit [Driver] in
/-- A transaction that names no wallet of its player is rejected, and shows nothing. -/
theorem Sound.foreign_rejected (hs : Sound sh) (hnames : sh.db.NamesOwn) (ht : t ∈ sh.db.wagers)
    (hforeign : ∀ v ∈ sh.db.wallets, v.id = t.walletId → v.playerId ≠ t.playerId) :
    t.view.balance = none ∧ t.status = .rejected ∧
      (t.failureCode = some .walletNotFound ∨ t.failureCode = some .walletPlayerMismatch) := by
  have hnone : t.resultBalanceAmount = none := by
    cases hamount : t.resultBalanceAmount with
    | none => rfl
    | some amount =>
      obtain ⟨v, hv, hid, hplayer⟩ := hnames t ht (by rw [hamount]; rfl)
      exact absurd hplayer (hforeign v hv hid)
  refine ⟨?_, ?_⟩
  · rw [Option.eq_none_iff_forall_not_mem]
    intro balance hbalance
    obtain ⟨amount, currency, hamount, -⟩ := WagerTransactionRow.mem_balance.mp hbalance
    rw [hnone] at hamount
    cases hamount
  · have hchecks := (hs.wagers t ht).checks
    simp only [wagerCheckRules, List.forall_mem_cons] at hchecks
    obtain ⟨-, -, -, -, -, -, -, -, -, hpresence, -⟩ := hchecks
    rcases hs.status_cases ht with hstatus | hstatus | hstatus | hstatus
    · simp [check, hstatus, hnone] at hpresence
    · simp [check, hstatus, hnone] at hpresence
    · refine ⟨hstatus, ?_⟩
      simpa [check, hstatus, hnone] using hpresence
    · simp [check, hstatus, hnone] at hpresence

/-- Over every run of the service a transaction shows only balances of its player's wallet. -/
theorem Reachable.showsOwnBalances (h : Reachable w) : ShowsOwnBalances w where
  recorded := fun t ht balance hbalance => h.row_balance ht hbalance
  foreign := fun t ht hforeign => h.sound.inv.foreign_rejected h.namesOwn ht hforeign
  answered := fun roles headers body n response hexchanged result hbody balance hbalance => by
    cases hexchanged with
    | refused => cases hbody
    | @served i command result' accepted session =>
      cases result' with
      | error e => cases hbody
      | ok a =>
        obtain ⟨sh, l, result', rfl, -⟩ := h.answer_commit session
        cases hbody
        exact h.answer_balance session hbalance
  read := fun roles headers id view hbody balance hbalance => by
    obtain ⟨row, hrow, rfl⟩ := h.sound.inv.readTransaction_shown (respond_transaction hbody)
    exact ⟨row, hrow, rfl, h.row_balance hrow hbalance⟩
  readByProvider := fun roles headers providerId external view hbody balance hbalance => by
    obtain ⟨row, hrow, rfl⟩ := h.sound.inv.readByProvider_shown (respond_transaction hbody)
    exact ⟨row, hrow, rfl, h.row_balance hrow hbalance⟩

end Proofs

theorem sample_showsOwnBalances : @ShowsOwnBalances samplePlatform sampleDriver sampleService :=
  @Reachable.showsOwnBalances samplePlatform sampleDriver sampleService sample_reachable

end Wagering
