import Wagering.Correctness.History
import Wagering.Correctness.Parsing

/-!
# No domain error escapes

The guards of the use cases imply the preconditions of the domain: a command
that the interface accepted never meets a domain error, and neither does the
worker, so that a transaction is given up only where a repository call failed
for good.
-/

namespace Wagering

open Interleave

section Statements

variable [Platform]

/-- The command of a body that `parseSubmitWager` accepted, with a positive amount. -/
structure SubmitWagerCommand.FromBody (command : SubmitWagerCommand) : Prop where
  parsed : ∃ json body idempotencyKey correlationId causationId,
    parseSubmitWager json = .ok body ∧
      command = body.command idempotencyKey correlationId causationId
  positive : ∃ money, Money.from command.money = .ok money ∧ 0 < money.cents

/-- What `executeWithin` may throw when the request is well formed. -/
inductive Refused : Failure → Prop
  | keyConflict (message : Text) (existing : Option Text) :
    Refused (.application ⟨.idempotencyKeyConflict, message, existing⟩)
  | externalReused (message : Text) (existing : Option Text) :
    Refused (.application ⟨.externalTransactionIdReused, message, existing⟩)
  | repository (error : RepositoryError) : Refused (.repository error)

variable [Driver]

/-- What the service promises about errors. -/
structure KeepsDomainErrors (w : Service) : Prop where
  submitted : ∀ i s command sh l e, w.sessions[i]? = some s → s.entry.command? = some command →
    command.FromBody → (i, .failed sh l e) ∈ w.history → Refused e
  worker : ∀ i s sh l e, w.sessions[i]? = some s → s.entry = .resolvePending →
    (i, .failed sh l e) ∈ w.history → ∃ r, e = .repository r
  failed : ∀ t ∈ w.shared.db.wagers, t.status = .failed →
    ∃ i sh l r, (i, .failed sh l (.repository r)) ∈ w.history ∧ l.attempted = some t.id ∧
      Driver.isTransientFailure (.repository r) = false

end Statements

section Proofs

variable [Platform]

/-- What the interface accepted, the domain accepts. -/
theorem SubmitWagerCommand.FromBody.acceptable (laws : NfcLaws) {command : SubmitWagerCommand}
    (h : command.FromBody) : command.Acceptable := by
  obtain ⟨json, body, idempotencyKey, correlationId, causationId, hparsed, rfl⟩ := h.parsed
  obtain ⟨source, -, hsteps⟩ := parseSubmitWager_ok hparsed
  have hnormal := hsteps.normal laws
  refine ⟨h.positive, fun hkind => ?_, hnormal.unreserved, fun hreversal => ?_⟩
  · have hmem := hnormal.kind
    rw [show body.kind = .opening from hkind] at hmem
    simp [submittableKinds] at hmem
  · have hsome : body.referenceExternalTransactionId.isSome = true := by
      refine hnormal.referenced ?_
      change body.kind.isReversal = true at hreversal
      cases hkind : body.kind with
      | refund => exact .inl rfl
      | rollback => exact .inr rfl
      | _ => rw [hkind] at hreversal; cases hreversal
    obtain ⟨reference, hreference⟩ := Option.isSome_iff_exists.mp hsome
    have hfilled := (hnormal.reference reference hreference).filled
    change (body.referenceExternalTransactionId.getD []).isEmpty = false
    rw [hreference]
    cases reference with
    | nil => cases hfilled
    | cons u rest => rfl

theorem SubmitFailure.refused_of {command : SubmitWagerCommand} {sh : Shared} {l : Local}
    {e : Failure} (h : SubmitFailure command sh l e) (hacceptable : command.Acceptable) :
    Refused e := by
  cases h with
  | conflict => exact .keyConflict _ _
  | reused => exact .externalReused _ _
  | refused => exact .repository _
  | invalid hnot => exact absurd hacceptable hnot
  | notPositive hnot => exact absurd hacceptable hnot
  | version => exact .repository _
  | payload => exact .repository _

variable [Driver] {w : Service}

/-- A commit that leaves a transaction given up is the worker's second one, after
a failure that was not transient. -/
theorem Committed.gaveUp {i : Nat} {sh : Shared} {l : Local} {a : Answer} {entry : Entry}
    {past : List (Ending store Answer)} (h : Committed w i sh l a entry past)
    {t : WagerTransactionRow} (ht : t ∈ (l.view sh.db).wagers) (hstatus : t.status = .failed)
    (hnew : t ∉ sh.db.wagers) :
    ∃ before loc r, (i, .failed before loc (.repository r)) ∈ w.history ∧
      loc.attempted = some t.id ∧ Driver.isTransientFailure (.repository r) = false := by
  have hafter := h.ready.sound h.sound h.own
  have hconcluded : ∀ {d : Decision}, Concluded d sh l → t = d.tx := by
    intro d concluded
    have hbooks : t ∈ (sh.db.books.record d).wagers := concluded.books h.sound ▸ ht
    exact (Books.mem_wagers_record.mp hbooks).resolve_right fun hold => hnew hold.1
  have hidle : businessOf l.log ≠ [] := by
    intro hlog
    rw [view_wagers_idle hlog] at ht
    exact hnew ht
  have hsubmission : ∀ {command : SubmitWagerCommand} {result : SubmitWagerResult},
      Submission command sh l result → False := by
    intro command result submission
    cases submission with
    | replayed lost => exact hidle lost.idle
    | decided concluded key external hash kept inserted stored status answer =>
      rw [hconcluded concluded, stored] at hstatus
      exact status hstatus
  have hcommits := h.commits
  cases entry with
  | createWallet command =>
    obtain ⟨view, -, created⟩ := hcommits
    rcases created.wagers t ht with hold | hkind
    · exact absurd hold hnew
    · have hprocessed := (hafter.books.wagers t ht).openingProcessed hkind
      rw [hstatus] at hprocessed
      cases hprocessed
  | submit command =>
    obtain ⟨result, -, -, submission⟩ := hcommits
    exact (hsubmission submission).elim
  | consume delivery command =>
    obtain ⟨outcome, -, consumption⟩ := hcommits
    cases consumption with
    | processed inbox submission => exact (hsubmission submission).elim
    | duplicate log => exact absurd (by rw [log]; rfl) hidle
    | permanent log => exact absurd (by rw [log]; rfl) hidle
  | resolvePending =>
    obtain ⟨outcome, -, settles⟩ := hcommits
    cases settles with
    | first hresolves =>
      cases hresolves.2 with
      | idle log => exact absurd (by rw [log]; rfl) hidle
      | rescheduled concluded stands status =>
        rw [hconcluded concluded, status] at hstatus
        cases hstatus
      | settled concluded stands status =>
        rw [hconcluded concluded] at hstatus
        rcases status with status | status <;> rw [status] at hstatus <;> cases hstatus
    | @second before _ loc _ error id _ attempted failure lasting inbox hgiven =>
      obtain ⟨r, rfl⟩ := failure
      cases hgiven with
      | mk concluded stands tx status =>
        refine ⟨before, loc, r, h.earlier _ (List.mem_singleton.mpr rfl), ?_, lasting⟩
        rw [attempted, hconcluded concluded, tx]

/-- A transaction that is given up goes back to a commit that gave it up. -/
theorem Reachable.failed_origin (h : Reachable w) {id : Text}
    (hid : ∃ t ∈ w.shared.db.wagers, t.id = id ∧ t.status = .failed) :
    ∃ i sh l a, (i, .committed sh l a) ∈ w.history ∧
      (¬ ∃ t ∈ sh.db.wagers, t.id = id ∧ t.status = .failed) ∧
      ∃ t ∈ (l.view sh.db).wagers, t.id = id ∧ t.status = .failed := by
  have horigin := @World.Steps.origin _ _ store Entry Answer units
    (fun sh : Shared => ∃ t ∈ sh.db.wagers, t.id = id ∧ t.status = .failed)
    (fun hop hp => (exec_effect hop).1 ▸ hp) (fun ha hp => ?_) _ _ h hid
  · rcases horigin with ⟨t, ht, -⟩ | horigin
    · cases ht
    · exact horigin
  · obtain ⟨outbox, publishing, rfl, -, -⟩ := ambient_same ha
    exact hp

/-- In every reachable state. -/
theorem Reachable.keepsDomainErrors (laws : NfcLaws) (h : Reachable w) :
    KeepsDomainErrors w where
  submitted := by
    intro i s command sh l e hs hcommand hbody hmem
    obtain ⟨entry, past, hfailed⟩ := h.failure_recorded hmem
    obtain rfl := session_entry hfailed.session ⟨s, hs, rfl⟩
    rcases hfailed.fails with houtage | hfails
    · obtain ⟨r, rfl⟩ := isOutage_repository houtage
      exact .repository r
    · cases hentry : s.entry with
      | createWallet command' => rw [hentry] at hcommand; cases hcommand
      | resolvePending => rw [hentry] at hcommand; cases hcommand
      | submit command' =>
        rw [hentry] at hcommand hfails
        cases hcommand
        exact SubmitFailure.refused_of hfails (hbody.acceptable laws)
      | consume delivery command' =>
        rw [hentry] at hcommand hfails
        cases hcommand
        cases hfails with
        | submission hsubmit => exact hsubmit.refused_of (hbody.acceptable laws)
        | refused => exact .repository _
        | clock => exact .repository _
  worker := by
    intro i s sh l e hs hentry hmem
    obtain ⟨entry, past, hfailed⟩ := h.failure_recorded hmem
    obtain rfl := session_entry hfailed.session ⟨s, hs, rfl⟩
    rcases hfailed.fails with houtage | hfails
    · exact isOutage_repository houtage
    · rw [hentry] at hfails
      exact SettleFailure.failure hfails
  failed := by
    intro t ht hstatus
    obtain ⟨i, sh, l, a, hmem, hbefore, t', ht', hid, hstatus'⟩ :=
      h.failed_origin ⟨t, ht, rfl, hstatus⟩
    obtain ⟨entry, past, hcommitted⟩ := h.commit_recorded hmem
    obtain ⟨before, loc, r, hfailed, hattempted, hlasting⟩ :=
      hcommitted.gaveUp ht' hstatus' fun hold => hbefore ⟨t', hold, hid, hstatus'⟩
    exact ⟨i, before, loc, r, hfailed, hid ▸ hattempted, hlasting⟩

end Proofs

/-! ## The sample run -/

section Sample

local instance failurePlatform : Platform := samplePlatform

local instance failureDriver : Driver := sampleDriver

theorem sample_nfcLaws : NfcLaws := ⟨fun _ => rfl, fun _ h => h, fun _ h => h, fun _ _ => rfl⟩

/-- What the refused command is parsed from. -/
theorem sampleConflict_fromBody : sampleConflict.FromBody where
  parsed := ⟨.object sampleConflict.body.record, sampleConflict.body,
    sampleConflict.idempotencyKey, sampleConflict.correlationId, sampleConflict.causationId,
    by decide +kernel, rfl⟩
  positive := ⟨sampleMoney, rfl, by decide⟩

/-- A submission is refused, and the worker gives a reversal up after its failure. -/
theorem busy_keepsDomainErrors : KeepsDomainErrors busyService ∧ sampleConflict.FromBody ∧
    failures busyService = busyFailures ∧ workerCommits busyService = busyOutcomes :=
  ⟨busy_reachable.keepsDomainErrors sample_nfcLaws, sampleConflict_fromBody, busy_ends.2,
    busy_ends.1⟩

end Sample

end Wagering
