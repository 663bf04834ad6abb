import Wagering.Guarantees.Judgements

/-!
# Judgements of what waited

The worker decides a reversal that waited as one committed state has it in which
the reversal still waits: it goes on waiting exactly as long as its reference is
not settled and it is not exhausted, and then gets the verdict of this state.
-/

namespace Wagering

open Interleave

section Statements

variable [Platform] [Driver]

/-- What a run of the worker has done with its reversal, by one state in which it
waits; or it gives the reversal up that its first transaction has failed with. -/
inductive ResolvedBy (w : Service) (i : Nat) (sh : Shared) (l : Local) :
    PendingReferenceOutcome → Prop
  | idle (log : l.log = []) : ResolvedBy w i sh l .idle
  | waits {m : Service} {now : Instant} {p : WagerTransactionRow} {next : Option Instant}
    (during : During w m i (.committed sh l (.resolved
      (.rescheduled p.id p.walletId p.providerId p.correlationId (p.attempts + 1)))))
    (reading : l.readings = [now]) (mem : p ∈ m.shared.db.wagers)
    (status : p.status = .pendingReference) (kept : p ∈ sh.db.wagers)
    (verdict : m.shared.db.snapshot.judgeLate now p = none)
    (books : (l.view sh.db).books = sh.db.books.record
      ⟨{ p with attempts := p.attempts + 1, nextAttemptAt := next }, none, []⟩) :
    ResolvedBy w i sh l
      (.rescheduled p.id p.walletId p.providerId p.correlationId (p.attempts + 1))
  | settled {m : Service} {now : Instant} {p : WagerTransactionRow} {v : Verdict} {d : Decision}
    (during : During w m i (.committed sh l (.resolved
      (.settled p.id p.walletId p.providerId p.correlationId v.status v.failureCode))))
    (reading : l.readings = [now]) (mem : p ∈ m.shared.db.wagers)
    (status : p.status = .pendingReference) (kept : p ∈ sh.db.wagers)
    (verdict : m.shared.db.snapshot.judgeLate now p = some v)
    (books : (l.view sh.db).books = sh.db.books.record d) (follows : d.Follows p v) :
    ResolvedBy w i sh l
      (.settled p.id p.walletId p.providerId p.correlationId v.status v.failureCode)
  | givenUp {before : Shared} {loc : Local} {error : Failure} {id : Text}
    {outcome : PendingReferenceOutcome} (earlier : (i, .failed before loc error) ∈ w.history)
    (attempted : loc.attempted = some id) (lasting : Driver.isTransientFailure error = false)
    (h : GivenUp id sh l outcome) : ResolvedBy w i sh l outcome

/-- Every run of the worker that commits decides by one state. -/
def ResolvesAtomically (w : Service) : Prop :=
  ∀ i sh l outcome, (i, .committed sh l (.resolved outcome)) ∈ w.history →
    ResolvedBy w i sh l outcome

end Statements

section Proofs

variable [Platform] {s : Judging} {sh : Shared} {l : Local} {p t : WagerTransaction}
  {d : Decision} {r : WagerTransactionRow}

/-! ## The reversal that waits -/

/-- Nothing is decided of a reversal that waits. -/
theorem Sound.undecided (hs : Sound sh) (hp : toWagerTransactionRow p ∈ sh.db.wagers)
    (hstatus : p.status = .pendingReference) : p.Undecided := by
  have hchecks := (hs.wagers _ hp).checks
  simp only [wagerCheckRules, List.forall_mem_cons] at hchecks
  obtain ⟨hpositive, -, -, -, hfailure, -, -, -, -, -, -, -, -, hpending, -⟩ := hchecks
  have hrow : (toWagerTransactionRow p).status = .pendingReference := hstatus
  simp only [check, hrow, decide_eq_true_eq, ne_eq, not_true_eq_false, decide_false,
    Bool.false_or, Bool.and_eq_true] at hpositive hfailure hpending
  have hnone : (toWagerTransactionRow p).failureCode.isSome = false := hfailure
  exact ⟨hpositive, Option.isNone_iff_eq_none.mp hpending.1.1.2,
    Option.not_isSome_iff_eq_none.mp (Bool.eq_false_iff.mp hnone)⟩

/-- The row that a decision leaves of the reversal. -/
theorem Concluded.resolved (h : Concluded d sh l) (hs : Sound sh) (hwrote : s.Wrote l)
    (hwritten : s.written = some t) (hreserved : s.reserved = []) (hid : d.tx.id = t.id)
    (hr : r ∈ sh.db.wagers) (hrid : r.id = t.id) : d.tx = (toWagerTransactionRow t).set r := by
  have hmem : d.tx ∈ (l.view sh.db).wagers :=
    (h.books hs ▸ Books.mem_wagers_record.mpr (.inl rfl) : d.tx ∈ (l.view sh.db).books.wagers)
  rw [hwrote.wagers, Judging.leaves, hwritten] at hmem
  change d.tx ∈ Keyed.adjust _ _ _ (sh.db.wagers ++ s.reserved) at hmem
  rw [hreserved, List.append_nil] at hmem
  rcases Keyed.mem_adjust.mp hmem with ⟨x, hx, hxid, heq⟩ | ⟨-, hne⟩
  · rw [heq, hs.books.wagerIds.eq_of_key hx hr (hxid.trans hrid.symm)]
  · exact absurd hid hne

/-! ## Over every run -/

variable [Driver] {w : Service} {i : Nat} {outcome : PendingReferenceOutcome}

/-- What stands behind the outcome of a run of the worker. -/
def PendingReferenceOutcome.Rests (outcome : PendingReferenceOutcome) (sh : Shared) (l : Local) :
    Prop :=
  match outcome with
  | .idle => l.log = []
  | .rescheduled id _ _ _ _ =>
    ∃ d, Concluded d sh l ∧ d.tx.id = id ∧ d.movement = none ∧ d.events = []
  | .settled id _ _ _ _ _ => ∃ d, Concluded d sh l ∧ d.tx.id = id

theorem Settles.rests {past : List (Ending store Answer)} (h : Settles past sh l outcome) :
    outcome.Rests sh l := by
  cases h with
  | first h =>
    cases h.2 with
    | idle log => exact log
    | rescheduled concluded stands status still => exact ⟨_, concluded, rfl, still⟩
    | settled concluded => exact ⟨_, concluded, rfl⟩
  | second attempted failure lasting inbox h =>
    cases h with
    | mk concluded => exact ⟨_, concluded, rfl⟩

/-- Only a second transaction gives a reversal up. -/
theorem Settles.givesUp {past : List (Ending store Answer)} (h : Settles past sh l outcome)
    (hgiven : outcome.GivenUp) : ∃ before loc error id, past = [.failed before loc error] ∧
      loc.attempted = some id ∧ Driver.isTransientFailure error = false ∧
      GivenUp id sh l outcome := by
  obtain ⟨t, houtcome⟩ := hgiven
  cases h with
  | first h =>
    cases h.2 with
    | idle log => cases houtcome
    | rescheduled concluded => cases houtcome
    | settled concluded stands status =>
      obtain ⟨-, -, -, -, hfailed, -⟩ := PendingReferenceOutcome.settled.inj houtcome
      rcases status with hstatus | hstatus
      all_goals
        rw [hstatus] at hfailed
        cases hfailed
  | second attempted failure lasting inbox h => exact ⟨_, _, _, _, rfl, attempted, lasting, h⟩

/-- A reversal that waited, in a state `m` of the session that commits what it has
done with it in `u`. -/
structure HandledIn (m u : Service) (i : Nat) (p : WagerTransactionRow) (now : Instant) :
    Prop where
  reachable : Reachable m
  begun : ∃ x, m.sessions[i]? = some x
  later : World.Steps units m u
  mem : p ∈ m.shared.db.wagers
  status : p.status = .pendingReference
  kept : p ∈ u.shared.db.wagers
  wallet : ∀ v ∈ m.shared.db.snapshot.judgeLate now p, v.resultBalance.isSome = true →
    u.shared.db.walletById (uuidText p.walletId) = m.shared.db.walletById (uuidText p.walletId)

/-- What was done with a reversal, by the judgement on it. -/
def Handles (sh : Shared) (l : Local) (outcome : PendingReferenceOutcome)
    (p : WagerTransactionRow) : Option Verdict → Prop
  | none =>
    outcome = .rescheduled p.id p.walletId p.providerId p.correlationId (p.attempts + 1) ∧
      ∃ next, (l.view sh.db).books = sh.db.books.record
        ⟨{ p with attempts := p.attempts + 1, nextAttemptAt := next }, none, []⟩
  | some v =>
    outcome = .settled p.id p.walletId p.providerId p.correlationId v.status v.failureCode ∧
      ∃ d, (l.view sh.db).books = sh.db.books.record d ∧ d.Follows p v

/-- The reversal in hand, in the state in which all that was learned of it held. -/
theorem Judging.Resolved.handled {u : Service} (hresolved : s.Resolved outcome)
    (htied : s.Tied i u l) (hs : Sound u.shared) (hp : s.row = some p)
    (hrests : outcome.Rests u.shared l) :
    ∃ m now, l.readings = [now] ∧ HandledIn m u i (toWagerTransactionRow p) now ∧
      Handles u.shared l outcome (toWagerTransactionRow p)
        (m.shared.db.snapshot.judgeLate now (toWagerTransactionRow p)) := by
  obtain ⟨hasked, now, hnow, verdict, hverdict, hdone⟩ := hresolved.resolved p hp
  have hreserved : s.reserved = [] := by
    rw [Judging.reserved, hasked]
    rfl
  obtain ⟨hkept, -, hstatus⟩ := htied.rows.locked hasked p hp
  have hundecided := hs.undecided hkept hstatus
  obtain ⟨m, hm, hmu, hfacts⟩ := htied.gathered.moment
  have hseen : s.seen m.shared.db = m.shared.db := by
    rw [Judging.seen, hreserved, List.append_nil]
  rw [hseen] at hfacts
  have hjudge := hverdict _ hfacts hundecided
  refine ⟨m, now, htied.wrote.readings.trans hnow,
    { reachable := hm.reachable
      begun := hm.session
      later := hmu
      mem := hm.waiting hasked p hp
      status := hstatus
      kept := hkept
      wallet := fun v hv hshows => ?wallet }, ?handles⟩
  case wallet =>
    obtain rfl : verdict = some v := hjudge.symm.trans hv
    obtain ⟨w, hknown⟩ := hdone.2.2 hshows
    obtain ⟨hwallet, -⟩ := htied.gathered.lasting _ hknown rfl
    obtain ⟨hthen, -⟩ := hfacts _ hknown
    exact hwallet.trans hthen.symm
  case handles =>
    rw [hjudge]
    cases verdict with
    | none =>
      obtain ⟨-, ⟨next, hwritten⟩, rfl⟩ := hdone
      obtain ⟨d, concluded, hid, hmovement, hevents⟩ := hrests
      have htx := concluded.resolved hs htied.wrote hwritten hreserved hid hkept rfl
      have hd : d = ⟨{ toWagerTransactionRow p with
          attempts := p.attempts + 1, nextAttemptAt := some next }, none, []⟩ := by
        rcases d with ⟨tx, movement, events⟩
        cases htx
        cases hmovement
        cases hevents
        rfl
      exact ⟨rfl, some next, hd ▸ concluded.books hs⟩
    | some v =>
      obtain ⟨hconcludes, houtcome, -⟩ := hdone
      obtain rfl := houtcome hundecided
      obtain ⟨d, concluded, hid⟩ := hrests
      obtain ⟨t, hwritten, hcarries⟩ := hconcludes.written hundecided
      have htid : t.id = p.id := by rw [hcarries.same]
      have htx := concluded.resolved hs htied.wrote hwritten hreserved (hid.trans htid.symm) hkept
        htid.symm
      exact ⟨rfl, d, concluded.books hs,
        concluded.follows hs htied.wrote hconcludes (htx ▸ hcarries.bears _)⟩

/-- A commit of the worker, and the state that it found. -/
theorem Reachable.resolved_commit (h : Reachable w)
    (hmem : (i, .committed sh l (.resolved outcome)) ∈ w.history) :
    ∃ u, Reachable u ∧ World.Steps units u w ∧ u.shared = sh ∧
      u.history ++ [(i, .committed sh l (.resolved outcome))] <+: w.history ∧
      (outcome = .idle ∧ l.log = [] ∨
        (∃ m p now, l.readings = [now] ∧ HandledIn m u i p now ∧
          Handles sh l outcome p (m.shared.db.snapshot.judgeLate now p)) ∨
        ∃ before loc error id, (i, .failed before loc error) ∈ w.history ∧
          loc.attempted = some id ∧ Driver.isTransientFailure error = false ∧
          GivenUp id sh l outcome) := by
  obtain ⟨x, hx, u, hu, huw, rfl, hpast, s, ⟨-, htied⟩, hjudged⟩ := h.judged.commits hmem
  obtain ⟨entry, past, hcommitted⟩ := h.commit_recorded hmem
  obtain rfl : entry = x.entry := session_entry hcommitted.session ⟨x, hx, rfl⟩
  refine ⟨u, hu, huw, rfl, hpast, ?_⟩
  have hcommits := hcommitted.commits
  rcases x with ⟨entry, status⟩
  cases entry with
  | createWallet command =>
    obtain ⟨view, heq, -⟩ := hcommits
    cases heq
  | submit command =>
    obtain ⟨result, heq, -⟩ := hcommits
    cases heq
  | consume delivery command =>
    obtain ⟨outcome', heq, -⟩ := hcommits
    cases heq
  | resolvePending =>
    obtain ⟨outcome', heq, hsettles⟩ := hcommits
    cases heq
    obtain ⟨outcome', heq, hresolved | ⟨-, hgiven⟩⟩ := hjudged
    · cases heq
      cases hp : s.row with
      | none =>
        obtain rfl := hresolved.idle hp
        exact .inl ⟨rfl, hsettles.rests⟩
      | some p =>
        obtain ⟨m, now, hreading, hhandled, hhandles⟩ :=
          hresolved.handled (htied hresolved.aside) hcommitted.sound hp hsettles.rests
        exact .inr (.inl ⟨m, _, now, hreading, hhandled, hhandles⟩)
    · cases heq
      obtain ⟨before, loc, error, id, rfl, attempted, lasting, hgives⟩ := hsettles.givesUp hgiven
      exact .inr (.inr ⟨before, loc, error, id, hcommitted.earlier _ (List.mem_singleton.mpr rfl),
        attempted, lasting, hgives⟩)

/-- Over every run of the service the worker decides by one state. -/
theorem Reachable.resolvesAtomically (h : Reachable w) : ResolvesAtomically w := by
  intro i sh l outcome hmem
  obtain ⟨u, hu, huw, rfl, hpast, hidle | ⟨m, p, now, hreading, hin, hhandles⟩ |
    ⟨before, loc, error, id, hearlier, attempted, lasting, hgives⟩⟩ := h.resolved_commit hmem
  · obtain ⟨rfl, hlog⟩ := hidle
    exact .idle hlog
  · cases hjudge : m.shared.db.snapshot.judgeLate now p with
    | none =>
      rw [hjudge] at hhandles
      obtain ⟨rfl, next, hbooks⟩ := hhandles
      exact .waits (.of_steps hin.reachable hin.begun hin.later huw hpast) hreading hin.mem
        hin.status hin.kept hjudge hbooks
    | some v =>
      rw [hjudge] at hhandles
      obtain ⟨rfl, d, hbooks, hfollows⟩ := hhandles
      exact .settled (.of_steps hin.reachable hin.begun hin.later huw hpast) hreading hin.mem
        hin.status hin.kept hjudge hbooks hfollows
  · exact .givenUp hearlier attempted lasting hgives

end Proofs

/-- The worker reschedules, settles and gives up. -/
theorem busy_resolvesAtomically :
    @ResolvesAtomically samplePlatform sampleDriver busyService ∧
      workerCommits busyService = busyOutcomes :=
  ⟨@Reachable.resolvesAtomically samplePlatform sampleDriver busyService busy_reachable,
    busy_ends.1⟩

end Wagering
