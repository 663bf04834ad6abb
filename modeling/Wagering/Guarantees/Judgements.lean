import Wagering.Correctness.Witnessing
import Wagering.Guarantees.Replays

/-!
# Judgements

However the transactions of the service interleave, a submission is answered as
one committed state between its beginning and its end has it: a key that this
state knows is replayed or conflicts, an external identifier that it knows is
refused, and any other transaction gets the verdict of this one state, which
the commit records with the movement that goes with it.
-/

namespace Wagering

open Interleave

/-! ## Verdicts on requests -/

/-- The tables with a new transaction. -/
def Database.reserving (db : Database) (t : WagerTransactionRow) : Database :=
  { db with wagers := db.wagers ++ [t] }

/-- The verdict on a new transaction that the command asks for. -/
def Database.verdict (db : Database) (command : SubmitWagerCommand) (t : WagerTransactionRow) :
    Verdict :=
  (db.reserving t).snapshot.judge command.walletId command.playerId t

/-- `r` is `t` with the verdict. -/
structure WagerTransactionRow.Bears (r t : WagerTransactionRow) (v : Verdict) : Prop where
  same : SameIdentity t r
  status : r.status = v.status
  failureCode : r.failureCode = v.failureCode
  referenceTransactionId : r.referenceTransactionId = v.referenceTransactionId
  resultBalanceAmount : r.resultBalanceAmount = v.resultBalance.map Prod.fst
  resultBalanceCurrency : r.resultBalanceCurrency = v.resultBalance.map Prod.snd

/-- The decision records the verdict on `t`, and moves the wallet accordingly. -/
structure Decision.Follows (d : Decision) (t : WagerTransactionRow) (v : Verdict) : Prop where
  tx : d.tx.Bears t v
  movement : (d.movement.map fun m => m.1.direction) = v.movement
  balance : ∀ m ∈ d.movement, v.resultBalance = some m.2.shown

/-- `t` is new to the tables. -/
structure Database.New (db : Database) (t : WagerTransactionRow) : Prop where
  pending : t.status = .pending
  id : ∀ r ∈ db.wagers, r.id ≠ t.id
  external : ∀ r ∈ db.wagers,
    (r.providerId, r.externalTransactionId) ≠ (t.providerId, t.externalTransactionId)

section Statements

variable [Platform]

/-- The row that the command asks for, as the server keeps it. -/
def SubmitWagerCommand.Requests (command : SubmitWagerCommand) (t : WagerTransactionRow) : Prop :=
  ∃ asked, command.AsksFor asked ∧ t = (toWagerTransactionRow asked).stored

variable [Driver]

/-- `m` is a state of the run after session `i` had begun and before the ending. -/
structure During (w m : Service) (i : Nat) (ending : Ending store Answer) : Prop where
  reachable : Reachable m
  later : World.Steps units m w
  begun : ∃ s, m.sessions[i]? = some s
  before : ∃ past, m.history <+: past ∧ past ++ [(i, ending)] <+: w.history

/-- How the submission of a command ends, by one state of its lifetime. -/
inductive AnsweredBy (w : Service) (i : Nat) (command : SubmitWagerCommand) :
    Ending store Answer → Prop
  | decided {sh : Shared} {l : Local} {a : Answer} {m : Service} {t : WagerTransactionRow}
    {d : Decision} (during : During w m i (.committed sh l a)) (requests : command.Requests t)
    (key : ∀ r ∈ m.shared.db.wagers, ¬ command.NamesKey r)
    (external : ∀ r ∈ m.shared.db.wagers, ¬ command.NamesExternal r)
    (answer : a.result? = some ((m.shared.db.verdict command t).result t.id))
    (books : (l.view sh.db).books = sh.db.books.record d)
    (follows : d.Follows t (m.shared.db.verdict command t)) :
    AnsweredBy w i command (.committed sh l a)
  | replayed {sh : Shared} {l : Local} {a : Answer} {m : Service} {r : WagerTransactionRow}
    (during : During w m i (.committed sh l a)) (mem : r ∈ m.shared.db.wagers)
    (key : command.NamesKey r) (hash : command.Matches r) (answer : a.result? = some r.replayed)
    (books : SameBusiness sh.db (l.view sh.db)) : AnsweredBy w i command (.committed sh l a)
  | conflict {sh : Shared} {l : Local} {e : ApplicationError} {m : Service}
    {r : WagerTransactionRow} (during : During w m i (.failed sh l (.application e)))
    (mem : r ∈ m.shared.db.wagers) (key : command.NamesKey r) (hash : ¬ command.Matches r)
    (code : e.code = .idempotencyKeyConflict) (names : e.existingId = some r.id) :
    AnsweredBy w i command (.failed sh l (.application e))
  | reused {sh : Shared} {l : Local} {e : ApplicationError} {m : Service}
    {r : WagerTransactionRow} (during : During w m i (.failed sh l (.application e)))
    (key : ∀ r ∈ m.shared.db.wagers, ¬ command.NamesKey r) (mem : r ∈ m.shared.db.wagers)
    (external : command.NamesExternal r) (code : e.code = .externalTransactionIdReused)
    (names : e.existingId = some r.id) : AnsweredBy w i command (.failed sh l (.application e))

/-- The ending tells of what the tables hold: no repository failure, and no command
that the domain refuses. -/
def TellsOfTables : Ending store Answer → Prop
  | .committed _ _ a => a.result?.isSome = true
  | .failed _ _ (.application e) => e.code ≠ .amountNotPositive
  | .failed _ _ _ => False

/-- Every submission of the run, over either channel, is answered by one state. -/
def JudgesAtomically (w : Service) : Prop :=
  ∀ i ending s command, (i, ending) ∈ w.history → w.sessions[i]? = some s →
    s.entry.command? = some command → TellsOfTables ending → AnsweredBy w i command ending

end Statements

section Proofs

variable [Platform] {s : Judging} {l : Local} {sh : Shared} {command : SubmitWagerCommand}
  {p t asked : WagerTransaction} {r : WagerTransactionRow} {v : Verdict} {d : Decision}

/-! ## What was reserved -/

theorem SubmitWagerCommand.AsksFor.row (h : command.AsksFor asked) :
    asked.status = .pending ∧ asked.referenceTransactionId = none ∧ asked.failureCode = none ∧
      command.NamesKey (toWagerTransactionRow asked).stored ∧
      command.NamesExternal (toWagerTransactionRow asked).stored := by
  obtain ⟨id, money, now, -, hcreate⟩ := h
  obtain ⟨-, -, hreserve⟩ := WagerTransaction.create_ok hcreate
  obtain ⟨-, -, rfl⟩ := WagerTransaction.reserve_ok hreserve
  exact ⟨rfl, rfl, rfl, ⟨rfl, rfl⟩, ⟨rfl, rfl⟩⟩

/-- Nothing is decided of a transaction that was just reserved. -/
theorem WagerTransactionRow.Reserved.undecided (h : r.Reserved l)
    (hrow : toWagerTransactionRow p = r) (hreference : r.referenceTransactionId = none)
    (hfailure : r.failureCode = none) : p.Undecided := by
  subst hrow
  have hchecks := h.checks
  simp only [wagerCheckRules, List.forall_mem_cons] at hchecks
  have hpositive : 0 < (toWagerTransactionRow p).amount := by simpa [check] using hchecks.1
  exact ⟨hpositive, hreference, hfailure⟩

omit [Platform] in
/-- A key that is free is no row's. -/
theorem names_none {db : Database} {t : WagerTransactionRow}
    (hfree : ∀ k ∈ t.uniqueKeys, k ∉ db.uniqueKeys) (hkey : command.NamesKey t)
    (hexternal : command.NamesExternal t) :
    (∀ r ∈ db.wagers, r.id ≠ t.id) ∧ (∀ r ∈ db.wagers, ¬ command.NamesKey r) ∧
      ∀ r ∈ db.wagers, ¬ command.NamesExternal r := by
  refine ⟨fun r hr heq => ?_, fun r hr hnames => ?_, fun r hr hnames => ?_⟩
  · exact hfree (.wagerId t.id) (by simp [WagerTransactionRow.uniqueKeys])
      (wagerId_mem_iff.mpr ⟨r, hr, heq⟩)
  · refine hfree (.wagerIdempotency t.providerId t.idempotencyKey)
      (by simp [WagerTransactionRow.uniqueKeys]) (wagerIdempotency_mem_iff.mpr ⟨r, hr, ?_, ?_⟩)
    · exact hnames.providerId.trans hkey.providerId.symm
    · exact hnames.idempotencyKey.trans hkey.idempotencyKey.symm
  · refine hfree (.wagerExternal t.providerId t.externalTransactionId)
      (by simp [WagerTransactionRow.uniqueKeys]) (wagerExternal_mem_iff.mpr ⟨r, hr, ?_, ?_⟩)
    · exact hnames.providerId.trans hexternal.providerId.symm
    · exact hnames.externalTransactionId.trans hexternal.externalTransactionId.symm

omit [Platform] in
theorem new_of_names {db : Database} {t : WagerTransactionRow} (hpending : t.status = .pending)
    (hexternal : command.NamesExternal t) (hfresh : ∀ r ∈ db.wagers, r.id ≠ t.id)
    (hnone : ∀ r ∈ db.wagers, ¬ command.NamesExternal r) : db.New t where
  pending := hpending
  id := hfresh
  external := fun r hr heq => hnone r hr
    ⟨(Prod.mk.inj heq).1.trans hexternal.providerId,
      (Prod.mk.inj heq).2.trans hexternal.externalTransactionId⟩

/-! ## What is recorded -/

/-- The answer to a transaction with its verdict. -/
theorem WagerTransaction.Carries.result (h : t.Carries p v) :
    resultOf t false = v.result p.id := by
  have hid : t.id = p.id := by rw [h.same]
  have hbalance : t.resultBalance.map Money.toJSON =
      v.resultBalance.map fun shown => moneyText shown.1 shown.2 := by
    rw [← h.resultBalance, Option.map_map]
    rfl
  simp only [resultOf, Verdict.result, hid, h.status, h.failureCode, hbalance]

/-- The row of a transaction with its verdict. -/
theorem WagerTransaction.Carries.bears (h : t.Carries p v) (r : WagerTransactionRow) :
    ((toWagerTransactionRow t).set r).Bears r v where
  same := .set _ r
  status := h.status
  failureCode := h.failureCode
  referenceTransactionId := h.referenceTransactionId
  resultBalanceAmount := by
    rw [← h.resultBalance, Option.map_map]
    rfl
  resultBalanceCurrency := by
    rw [← h.resultBalance, Option.map_map]
    rfl

/-- What a decision that is recorded moves is what the unit has entered. -/
theorem Concluded.follows (h : Concluded d sh l) (hs : Sound sh) (hwrote : s.Wrote l)
    (hconcludes : s.Concludes p v) {u : WagerTransactionRow} (hbears : d.tx.Bears u v) :
    d.Follows u v := by
  have hledger : s.entries.map toLedgerEntryRow = (d.movement.map Prod.fst).toList := by
    have heq : (l.view sh.db).ledger = sh.db.ledger ++ (d.movement.map Prod.fst).toList :=
      congrArg Books.ledger (h.books hs)
    exact List.append_cancel_left ((hwrote.ledger sh.db).symm.trans heq)
  have hdirections := congrArg (List.map WalletLedgerEntryRow.direction) hledger
  rw [List.map_map, show WalletLedgerEntryRow.direction ∘ toLedgerEntryRow =
    WalletLedgerEntry.direction from rfl, hconcludes.entries] at hdirections
  refine ⟨hbears, ?_, fun m hm => ?_⟩
  · cases hmovement : d.movement with
    | none =>
      rw [hmovement] at hdirections
      cases hv : v.movement with
      | none => rfl
      | some direction =>
        rw [hv] at hdirections
        cases hdirections
    | some m =>
      rw [hmovement] at hdirections
      cases hv : v.movement with
      | none =>
        rw [hv] at hdirections
        cases hdirections
      | some direction =>
        rw [hv] at hdirections
        exact congrArg some (List.cons.inj hdirections).1.symm
  · rcases m with ⟨e, w'⟩
    have hmovement : d.movement = some (e, w') := hm
    rw [hmovement] at hledger
    obtain ⟨entry, hentry, hrow⟩ := List.map_eq_singleton_iff.mp hledger
    have hbalance := hconcludes.balance entry (by rw [hentry]; exact List.mem_singleton.mpr rfl)
    obtain ⟨-, w, moves, -⟩ := h.decides.moves hmovement
    -- the balance is shown in the currency of the wallet that the transaction names
    have hcurrency : d.tx.resultBalanceCurrency = some entry.balanceAfter.currency := by
      rw [hbears.resultBalanceCurrency, ← hbalance]
      rfl
    obtain ⟨w₁, hw₁, hid, hcur⟩ := h.decides.observed _ hcurrency
    obtain rfl : w₁ = w := hs.books.walletIds.eq_of_key hw₁ moves.wallet
      (hid.trans moves.walletId.symm)
    have hafter : e.balanceAfter = entry.balanceAfter.cents :=
      (congrArg WalletLedgerEntryRow.balanceAfter hrow).symm
    rw [← hbalance, WalletRow.shown, ← moves.after, hafter, ← moves.same.currency, hcur]

/-- A submission that was decided: the row that it leaves is the one that it has
reserved, with its result. -/
theorem Concluded.reserved (h : Concluded d sh l) (hs : Sound sh) (hwrote : s.Wrote l)
    (hrow : d.tx.id = t.id) (hwritten : s.written = some t) (hreserved : s.reserved = [r])
    (hid : t.id = r.id) (hfresh : ∀ r' ∈ sh.db.wagers, r'.id ≠ r.id) :
    d.tx = (toWagerTransactionRow t).set r := by
  have hleaves : (l.view sh.db).wagers = sh.db.wagers ++ [(toWagerTransactionRow t).set r] := by
    rw [hwrote.wagers, Judging.leaves, hwritten]
    change Keyed.adjust _ _ _ (sh.db.wagers ++ s.reserved) = _
    rw [hreserved, hid]
    exact Keyed.adjust_concat hfresh rfl
  have hput : (l.view sh.db).wagers = sh.db.wagers ++ [d.tx] := by
    have hbooks : (l.view sh.db).wagers = Keyed.put WagerTransactionRow.id d.tx sh.db.wagers :=
      congrArg Books.wagers (h.books hs)
    rw [hbooks, Keyed.put_of_absent]
    exact fun r' hr' heq => hfresh r' hr' (heq.trans (hrow.trans hid))
  exact List.singleton_inj.mp (List.append_cancel_left (hput.symm.trans hleaves))

/-! ## Over every run -/

variable [Driver] {w : Service} {i : Nat} {a : Answer} {result : SubmitWagerResult}

/-- Every unit of the run judges by what it was answered. -/
theorem Reachable.judged (h : Reachable w) :
    World.Attested Judging.ties Entry.Judged (fun _ _ _ => True)
      (fun e => ∃ error, e = .application error) w := by
  refine World.Attested.steps .empty (fun hv => Reachable.sound hv) units_judge
    (fun e houtage => ?_) (fun {_ _ _ op input _ e} hop => ?_) h
  · obtain ⟨r, rfl⟩ := isOutage_repository houtage
    rintro ⟨error, herror⟩
    cases herror
  · rintro ⟨error, rfl⟩
    exact exec_blameless op input _ _ hop

/-- The state that one of these facts is of. -/
theorem During.of_steps {u m : Service} {ending : Ending store Answer} (hm : Reachable m)
    (hbegun : ∃ x, m.sessions[i]? = some x) (hmu : World.Steps units m u)
    (huw : World.Steps units u w) (hpast : u.history ++ [(i, ending)] <+: w.history) :
    During w m i ending where
  reachable := hm
  later := hmu.trans huw
  begun := hbegun
  before := ⟨u.history, hmu.extends.history, hpast⟩

/-- A submission that was decided in `m` and is committed in `u`. -/
structure DecidedIn (m u : Service) (i : Nat) (command : SubmitWagerCommand)
    (result : SubmitWagerResult) (t : WagerTransactionRow) (d : Decision) : Prop where
  reachable : Reachable m
  begun : ∃ x, m.sessions[i]? = some x
  later : World.Steps units m u
  requests : command.Requests t
  key : ∀ r ∈ m.shared.db.wagers, ¬ command.NamesKey r
  external : ∀ r ∈ m.shared.db.wagers, ¬ command.NamesExternal r
  new : m.shared.db.New t ∧ u.shared.db.New t
  answer : result = (m.shared.db.verdict command t).result t.id
  follows : d.Follows t (m.shared.db.verdict command t)
  wallet : (m.shared.db.verdict command t).resultBalance.isSome = true →
    u.shared.db.walletById (uuidText command.walletId) =
      m.shared.db.walletById (uuidText command.walletId)

/-- The commit of a submission that is decided. -/
theorem Judging.Decided.answered {u : Service} (h : s.Decided command result)
    (htied : s.Tied i u l) (hs : Sound u.shared) (ho : Own u.shared l)
    (hfirst : result.idempotentReplay = false) (hconcluded : Concluded d u.shared l)
    (hid : d.tx.id = result.transactionId) : ∃ m t, DecidedIn m u i command result t d := by
  obtain ⟨p, hp⟩ : ∃ p, s.row = some p := by
    cases hrow : s.row with
    | none =>
      rw [h.replayed hrow] at hfirst
      cases hfirst
    | some p => exact ⟨p, rfl⟩
  obtain ⟨asked, hasked, hasks, v, hconcludes, ⟨t, hwritten, rfl⟩, hknows, hjudge⟩ :=
    h.decided p hp
  have hreserved : s.reserved = [(toWagerTransactionRow asked).stored] := by
    rw [Judging.reserved, show s.asked = some asked from hasked]
    rfl
  have hmem : (toWagerTransactionRow asked).stored ∈ s.reserved :=
    hreserved ▸ List.mem_singleton.mpr rfl
  obtain ⟨hpending, hreference, hfailure, hkey, hexternal⟩ := hasks.row
  have hread := htied.rows.read _ hmem p hp
  have hundecided : p.Undecided :=
    (htied.rows.reserved _ hmem).undecided hread hreference hfailure
  obtain ⟨m, hm, hmu, hfacts⟩ := htied.gathered.moment
  -- the state in which everything that the unit was answered held together
  have hverdict : m.shared.db.verdict command (toWagerTransactionRow asked).stored = v := by
    rw [← hjudge _ hfacts hundecided, hread, Judging.seen, hreserved]
    rfl
  obtain ⟨t', hwritten', hcarries⟩ := hconcludes.written hundecided
  obtain rfl := Option.some.inj (hwritten.symm.trans hwritten')
  have htid : t.id = (toWagerTransactionRow asked).stored.id := by
    rw [← hread, hcarries.same]
    rfl
  obtain ⟨hfreshThen, hkeys, hexternals⟩ := names_none (hm.fresh _ hmem) hkey hexternal
  obtain ⟨hfresh, -, hexternalsNow⟩ := names_none
    (fun k hk => ho.free k ((htied.rows.reserved _ hmem).keys k hk)) hkey hexternal
  have htx := hconcluded.reserved hs htied.wrote hid hwritten hreserved htid hfresh
  refine ⟨m, _,
    { reachable := hm.reachable
      begun := hm.session
      later := hmu
      requests := ⟨asked, hasks, rfl⟩
      key := hkeys
      external := hexternals
      new := ⟨new_of_names hpending hexternal hfreshThen hexternals,
        new_of_names hpending hexternal hfresh hexternalsNow⟩
      answer := ?answer
      follows := ?follows
      wallet := fun hshows => ?wallet }⟩
  case answer =>
    rw [hverdict, hcarries.result, ← hread]
    rfl
  case follows =>
    rw [hverdict]
    exact hconcluded.follows hs htied.wrote hconcludes (htx ▸ hcarries.bears _)
  case wallet =>
    rw [hverdict] at hshows
    -- the wallet in hand was locked all the time
    obtain ⟨w, hknown⟩ := hknows hshows
    obtain ⟨hnow, -⟩ := htied.gathered.lasting _ hknown rfl
    obtain ⟨hthen, -⟩ := hfacts _ hknown
    exact hnow.trans hthen.symm

omit [Driver] in
/-- Who submits, by either channel, answers for what it has decided. -/
theorem Entry.Judged.decided {entry : Entry} (h : entry.Judged s a)
    (hcommand : entry.command? = some command) (hresult : a.result? = some result) :
    s.Decided command result := by
  cases entry with
  | createWallet command' => cases hcommand
  | submit command' =>
    cases hcommand
    exact h result hresult
  | consume delivery command' =>
    cases hcommand
    exact h result hresult
  | resolvePending => cases hcommand

/-- What a submission that an error of the application ends has failed with. -/
theorem contract_refused {entry : Entry} {past : List (Ending store Answer)} {e : ApplicationError}
    (h : (contract entry).fails past sh l (.application e))
    (hcommand : entry.command? = some command) : SubmitFailure command sh l (.application e) := by
  cases entry with
  | createWallet command' => cases hcommand
  | submit command' =>
    cases hcommand
    exact h
  | consume delivery command' =>
    cases hcommand
    cases h with
    | submission hfails => exact hfails
  | resolvePending => cases hcommand

/-- A first answer of the run, and the state that its commit found. -/
theorem Reachable.decided_commit (h : Reachable w) {x : Session store Entry Answer}
    (hmem : (i, .committed sh l a) ∈ w.history) (hx : w.sessions[i]? = some x)
    (hcommand : x.entry.command? = some command) (hresult : a.result? = some result)
    (hfirst : result.idempotentReplay = false) :
    ∃ u, Reachable u ∧ World.Steps units u w ∧ u.shared = sh ∧
      u.history ++ [(i, .committed sh l a)] <+: w.history ∧
      ∃ m t d, DecidedIn m u i command result t d ∧
        (l.view sh.db).books = sh.db.books.record d := by
  obtain ⟨x', hx', u, hu, huw, rfl, hpast, s, ⟨-, htied⟩, hjudged⟩ := h.judged.commits hmem
  obtain rfl := Option.some.inj (hx.symm.trans hx')
  have hdecided := hjudged.decided hcommand hresult
  obtain ⟨entry, past, hcommitted⟩ := h.commit_recorded hmem
  obtain rfl : entry = x.entry := session_entry hcommitted.session ⟨x, hx, rfl⟩
  cases contract_submission hcommitted.commits hcommand hresult with
  | @decided d _ concluded key external hash kept inserted t stored status answer =>
    have hid : d.tx.id = result.transactionId := by
      rw [stored, answer]
      rfl
    obtain ⟨m, t, hin⟩ := hdecided.answered (htied hdecided.aside) hcommitted.sound hcommitted.own
      hfirst concluded hid
    exact ⟨u, hu, huw, rfl, hpast, m, t, d, hin, concluded.books hcommitted.sound⟩
  | @replayed t db row lost mem same db' looked read key hash =>
    rw [replayOf_eq t] at hfirst
    cases hfirst

theorem Reachable.answered_commit (h : Reachable w) {x : Session store Entry Answer}
    (hmem : (i, .committed sh l a) ∈ w.history) (hx : w.sessions[i]? = some x)
    (hcommand : x.entry.command? = some command) (hresult : a.result? = some result) :
    AnsweredBy w i command (.committed sh l a) := by
  obtain ⟨x', hx', u, hu, huw, rfl, hpast, s, ⟨hpresent, -⟩, -⟩ := h.judged.commits hmem
  obtain rfl := Option.some.inj (hx.symm.trans hx')
  obtain ⟨entry, past, hcommitted⟩ := h.commit_recorded hmem
  obtain rfl : entry = x.entry := session_entry hcommitted.session ⟨x, hx, rfl⟩
  cases contract_submission hcommitted.commits hcommand hresult with
  | @decided d _ concluded key external hash kept inserted t stored status answer =>
    obtain ⟨u, -, huw, heq, hpast, m, t, d, hin, hbooks⟩ :=
      h.decided_commit hmem hx hcommand hresult (by rw [answer]; rfl)
    exact .decided (.of_steps hin.reachable hin.begun hin.later huw hpast) hin.requests hin.key
      hin.external (hin.answer ▸ hresult) hbooks hin.follows
  | @replayed t db row lost mem same db' looked read key hash =>
    obtain ⟨m, hm, hi, hmu, rfl⟩ := hpresent.remembered db' (.inr looked)
    obtain ⟨money, hmoney, hhash⟩ := hash
    exact .replayed (.of_steps hm hi hmu huw hpast) read
      ⟨same.providerId.trans key.providerId, same.idempotencyKey.trans key.idempotencyKey⟩
      ⟨money, hmoney, same.payloadHash.trans hhash⟩ (replayOf_eq t ▸ hresult)
      (sameBusiness_idle lost.idle)

theorem Reachable.answered_failure (h : Reachable w) {x : Session store Entry Answer}
    {e : ApplicationError} (hmem : (i, .failed sh l (.application e)) ∈ w.history)
    (hx : w.sessions[i]? = some x) (hcommand : x.entry.command? = some command)
    (hcode : e.code ≠ .amountNotPositive) :
    AnsweredBy w i command (.failed sh l (.application e)) := by
  obtain ⟨x', hx', u, hu, huw, rfl, hpast, s, ⟨hpresent, -⟩, -⟩ := h.judged.failures hmem ⟨e, rfl⟩
  obtain rfl := Option.some.inj (hx.symm.trans hx')
  obtain ⟨entry, past, hfailed⟩ := h.failure_recorded hmem
  obtain rfl : entry = x.entry := session_entry hfailed.session ⟨x, hx, rfl⟩
  have hfails := hfailed.fails.resolve_left fun houtage => by cases houtage
  cases contract_refused hfails hcommand with
  | conflict lost mem key hash =>
    exact .conflict (.of_steps hu hpresent.session .refl huw hpast) mem key hash rfl rfl
  | @reused db row lost unused mem external =>
    obtain ⟨m, hm, hi, hmu, rfl⟩ := hpresent.remembered db (.inl lost.lostAt)
    -- the row that the reservation met is the one that the error names
    obtain ⟨r, hr, hnames⟩ := lost.taken
    have hexternal := hnames.resolve_left (unused r hr)
    obtain ⟨r', hr', same⟩ := lost.kept r hr
    obtain rfl := (hexternal.congr same).eq external hfailed.sound hr' mem
    exact .reused (.of_steps hm hi hmu huw hpast) unused hr hexternal rfl
      (congrArg some same.id.symm)
  | notPositive => exact absurd rfl hcode

/-- Over every run of the service each submission is answered by one state. -/
theorem Reachable.judgesAtomically (h : Reachable w) : JudgesAtomically w := by
  intro i ending x command hmem hx hcommand htells
  cases ending with
  | committed sh l a =>
    obtain ⟨result, hresult⟩ := Option.isSome_iff_exists.mp htells
    exact h.answered_commit hmem hx hcommand hresult
  | failed sh l e =>
    cases e with
    | application e => exact h.answered_failure hmem hx hcommand htells
    | domain e => exact htells.elim
    | repository e => exact htells.elim
    | stackOverflow => exact htells.elim

end Proofs

theorem sample_judgesAtomically : @JudgesAtomically samplePlatform sampleDriver sampleService :=
  @Reachable.judgesAtomically samplePlatform sampleDriver sampleService sample_reachable

end Wagering
