import Wagering.Correctness.Timekeeping
import Wagering.Guarantees.Lifecycle
import Wagering.Guarantees.Transitions

/-!
# The six hours of a pending reversal

What ends the wait for a reference is the clock: a reversal is rejected for want
of its reference only when its six hours are over, and however short the delays
between its runs are, it never reaches the limit of attempts before.
-/

namespace Wagering

open Interleave

section Statements

variable [Platform]

/-! ## Any runs, any jitter -/

/-- A reversal that a submission has made to wait at `now`. -/
structure Pended (now : Instant) (t : WagerTransaction) : Prop where
  status : t.status = .pendingReference
  attempts : t.attempts = 0
  nextAttemptAt : t.nextAttemptAt = some (now + firstRetryDelayMs)
  expiresAt : t.expiresAt = some (now + pendingReferenceTtlMs)

/-- What a submission makes of its own reversal at `now`, when it finds no settled reference. -/
theorem pended_of_created {props : CreateWagerTransactionProps} {created t : WagerTransaction}
    {balance : Money} {now : Instant} (hcreate : WagerTransaction.create props = .ok created)
    (hmark : created.markPendingReference balance (now + firstRetryDelayMs)
      (now + pendingReferenceTtlMs) = .ok t) : Pended now t := by
  obtain ⟨-, -, heq⟩ := WagerTransaction.reserve_ok (WagerTransaction.create_ok hcreate).2.2
  obtain ⟨-, -, hmark⟩ := bind_ok hmark
  split at hmark
  · cases hmark
  · cases hmark
    exact ⟨rfl, by rw [heq], rfl, rfl⟩

theorem Pended.onTime {now : Instant} {t : WagerTransaction} (h : Pended now t) :
    OnTime now t.attempts t.nextAttemptAt t.expiresAt := by
  rw [h.attempts, h.nextAttemptAt, h.expiresAt]
  exact .pended now

section Runs

variable {K : Type} [Field K] [LinearOrder K] [FloorRing K]

/-- What the promise of six hours from `start` on says after these runs. -/
structure Promise (start : Instant) (runs : List (PendingRun K)) (t : WagerTransaction) :
    Prop where
  attempts : t.status = .pendingReference → t.attempts < maxAttempts
  rescheduled : t.status = .pendingReference → runs.length ≤ 99
  exhausted : t.status = .pendingReference → ∀ now,
    isExhausted t now = true ↔ start + pendingReferenceTtlMs ≤ now
  later : t.status = .pendingReference → ∀ run ∈ runs.getLast?,
    ∃ next, t.nextAttemptAt = some next ∧ run.now < next
  settled : t.isTerminal = true → runs.dropLast.length ≤ 99
  kept : t.isTerminal = true → ∀ run ∈ runs.getLast?,
    run.reference.any referenceIsSettled = false → start + pendingReferenceTtlMs ≤ run.now

variable [IsStrictOrderedRing K] {t₀ t : WagerTransaction} {runs : List (PendingRun K)}
  {start : Instant}

theorem PendingRuns.length_le (h : PendingRuns t₀ runs t) (h₀ : Pended start t₀)
    (hwaits : t.status = .pendingReference) : runs.length ≤ 95 := by
  obtain ⟨hcount, htime⟩ := h.onTime h₀.attempts h₀.onTime hwaits
  have := htime.attempts_le
  omega

/-- The promise is kept, whenever the worker runs and whatever jitter it draws. -/
theorem PendingRuns.promise (h : PendingRuns t₀ runs t) (h₀ : Pended start t₀) :
    Promise start runs t := by
  have hopen : t.status = .pendingReference → t.isTerminal = false := fun hwaits => by
    rw [WagerTransaction.isTerminal, hwaits]
    rfl
  refine
    { attempts := fun hwaits => ?attempts
      rescheduled := fun hwaits => Nat.le_trans (h.length_le h₀ hwaits) (by decide)
      exhausted := fun hwaits => (h.onTime h₀.attempts h₀.onTime hwaits).2.isExhausted_iff
      later := fun hwaits run hrun => ?later
      settled := fun hterminal => ?settled
      kept := fun hterminal run hrun hnone => ?kept }
  case attempts =>
    have := (h.onTime h₀.attempts h₀.onTime hwaits).2.attempts_le
    exact Int.lt_of_le_of_lt this (by decide)
  case later =>
    cases h with
    | none => cases hrun
    | next before waits due jitter leads =>
      rw [List.getLast?_concat] at hrun
      cases hrun
      have htime := (before.onTime h₀.attempts h₀.onTime waits).2
      rcases leads.onTime htime due jitter.1 with ⟨-, -, -, hlater⟩ | ⟨hterminal, -⟩
      · exact hlater
      · rw [hopen hwaits] at hterminal
        cases hterminal
  case settled =>
    cases h with
    | none => exact Nat.zero_le _
    | next before waits due jitter leads =>
      rw [List.dropLast_concat]
      exact Nat.le_trans (before.length_le h₀ waits) (by decide)
  case kept =>
    cases h with
    | none => cases hrun
    | next before waits due jitter leads =>
      rw [List.getLast?_concat] at hrun
      cases hrun
      have htime := (before.onTime h₀.attempts h₀.onTime waits).2
      rcases leads.onTime htime due jitter.1 with ⟨hwaits, -⟩ | ⟨-, hlate⟩
      · rw [hopen hwaits] at hterminal
        cases hterminal
      · exact hlate hnone

end Runs

/-! ## What a commit writes -/

variable {sh : Shared} {l : Local} {s : TimeState} {row : WagerTransactionRow}

/-- What a commit has made of a transaction that waits or is rejected. -/
inductive Waited (sh : Shared) (l : Local) (row : WagerTransactionRow) : Prop
  | pended {now : Instant} (fresh : ∀ p ∈ sh.db.wagers, p.id ≠ row.id)
    (waits : row.status = .pendingReference) (reading : now ∈ l.readings)
    (onTime : OnTime now row.attempts row.nextAttemptAt row.expiresAt)
    (expires : row.expiresAt = some (now + pendingReferenceTtlMs))
    (later : ∃ next, row.nextAttemptAt = some next ∧ now < next)
  | refused (fresh : ∀ p ∈ sh.db.wagers, p.id ≠ row.id) (status : row.status = .rejected)
  | worked {pending t : WagerTransaction} {run : PendingRun ℚ}
    (mem : toWagerTransactionRow pending ∈ sh.db.wagers) (id : pending.id = row.id)
    (due : isDue run.now (toWagerTransactionRow pending) = true) (readings : l.readings = [run.now])
    (jitter : 0 ≤ run.jitter) (seen : run.reference.any referenceIsSettled = true →
      ReferenceSettled sh (toWagerTransactionRow pending))
    (leads : run.Leads pending t) (status : row.status = t.status)
    (attempts : row.attempts = t.attempts) (nextAttemptAt : row.nextAttemptAt = t.nextAttemptAt)
    (expiresAt : row.expiresAt = t.expiresAt)

/-- A transaction that a commit adds has not been attempted yet. -/
theorem Ready.attempts_zero (h : Ready sh l) (hrow : row ∈ (l.view sh.db).wagers)
    (hfresh : ∀ p ∈ sh.db.wagers, p.id ≠ row.id) : row.attempts = 0 := by
  obtain ⟨c, hallows, hbooks, -, -⟩ := h.change
  obtain ⟨hwagers, -⟩ := sh.db.books.withWallet_eq c.opened
  have hsame : ∀ {r}, r ∈ (sh.db.books.withWallet c.opened).wagers → r ∈ sh.db.wagers :=
    fun hr => (congrArg (_ ∈ ·) hwagers).mp hr
  have hmem : row ∈ (sh.db.books.amend c).wagers := hbooks ▸ hrow
  rw [Books.amend] at hmem
  cases hdecision : c.decision with
  | none =>
    rw [hdecision] at hmem
    exact absurd rfl (hfresh row (hsame hmem))
  | some d =>
    rw [hdecision] at hmem
    rcases Books.mem_wagers_record.mp hmem with rfl | ⟨hold, -⟩
    · rcases (hallows.decides d hdecision).counted with ⟨-, hzero⟩ | ⟨p, hp, hid, -⟩
      · exact hzero
      · exact absurd hid (hfresh p (hsame hp))
    · exact absurd rfl (hfresh row (hsame hold))

/-- A row that a commit leaves waiting or rejected was so before, or a unit that
keeps to the clock has made it so. -/
theorem Timed.waited (h : Timed sh l s) (ho : Own sh l) (hready : Ready sh l)
    (hrow : row ∈ (l.view sh.db).wagers)
    (hstatus : row.status = .pendingReference ∨ row.status = .rejected) :
    row ∈ sh.db.wagers ∨ Waited sh l row := by
  rcases mem_wagers_after hrow with hold | hinserted | ⟨new, old, hupdated, hid, rfl⟩
  · exact .inl hold
  · rw [(h.inserted row hinserted).1] at hstatus
    rcases hstatus with hstatus | hstatus <;> cases hstatus
  · have hclocked := h.log new hupdated
    unfold Clocked at hclocked
    split at hclocked
    · obtain ⟨hkey, hpended⟩ := hclocked hstatus
      have hfresh : ∀ p ∈ sh.db.wagers, p.id ≠ old.id := fun p hp heq =>
        ho.free _ hkey (wagerId_mem_iff.mpr ⟨p, hp, heq.trans hid⟩)
      rcases hstatus with hwaits | hrejected
      · obtain ⟨now, hnow, hnext, hexpires⟩ := hpended hwaits
        have hzero : (new.set old).attempts = 0 := hready.attempts_zero hrow hfresh
        refine .inr (.pended hfresh hwaits hnow ?_ hexpires ⟨_, hnext, ?_⟩)
        · rw [hzero, show (new.set old).nextAttemptAt = _ from hnext,
            show (new.set old).expiresAt = _ from hexpires]
          exact .pended now
        · exact Int.lt_add_of_pos_right now (by decide)
      · exact .inr (.refused hfresh hrejected)
    · rename_i pending hdue
      obtain ⟨hpending, run, t, hreadings, hjitter, hfound, hleads, prior, rfl⟩ := hclocked
      obtain ⟨-, -, hmem, hdues⟩ := h.due pending hdue
      refine .inr (.worked hmem (hpending.symm.trans hid.symm)
        (hdues _ (hreadings ▸ List.mem_singleton.mpr rfl)) (h.readings.trans hreadings)
        hjitter.1 (fun hsettled => ?_) hleads rfl rfl rfl rfl)
      cases href : run.reference with
      | none =>
        rw [href] at hsettled
        cases hsettled
      | some reference =>
        rw [href] at hsettled hfound
        exact h.found pending hdue reference hfound hsettled

/-! ## Every run of the service -/

/-- Every committed reversal that waits is on schedule. -/
def Scheduled (sh : Shared) : Prop :=
  ∀ row ∈ sh.db.wagers, row.status = .pendingReference →
    ∃ start, OnTime start row.attempts row.nextAttemptAt row.expiresAt

/-- A run of the worker on a reversal that is on schedule. -/
theorem Waited.leads (hsh : Scheduled sh) {pending t : WagerTransaction} {run : PendingRun ℚ}
    (hmem : toWagerTransactionRow pending ∈ sh.db.wagers)
    (hdue : isDue run.now (toWagerTransactionRow pending) = true) (hjitter : 0 ≤ run.jitter)
    (hleads : run.Leads pending t) :
    ∃ start, pending.expiresAt = some (start + pendingReferenceTtlMs) ∧
      ((t.status = .pendingReference ∧ OnTime start t.attempts t.nextAttemptAt t.expiresAt ∧
          ∃ next, t.nextAttemptAt = some next ∧ run.now < next) ∨
        t.isTerminal = true ∧ (run.reference.any referenceIsSettled = false →
          start + pendingReferenceTtlMs ≤ run.now)) := by
  simp only [isDue, Bool.and_eq_true, decide_eq_true_eq] at hdue
  obtain ⟨start, htime⟩ := hsh _ hmem hdue.1
  refine ⟨start, htime.expires, ?_⟩
  rcases hleads.onTime htime hdue.2 hjitter with ⟨hwaits, -, htime', hlater⟩ | hsettles
  · exact .inl ⟨hwaits, htime', hlater⟩
  · exact .inr hsettles

/-- A commit keeps the schedule. -/
theorem Scheduled.committed (hsh : Scheduled sh) (h : Timed sh l s) (ho : Own sh l)
    (hready : Ready sh l) : Scheduled (committed sh l) := by
  intro row hrow hwaits
  rcases h.waited ho hready hrow (.inl hwaits) with hold | hwaited
  · exact hsh row hold hwaits
  · cases hwaited with
    | pended fresh waits reading onTime => exact ⟨_, onTime⟩
    | refused fresh status =>
      rw [status] at hwaits
      cases hwaits
    | worked mem id due readings jitter seen leads status attempts nextAttemptAt expiresAt =>
      obtain ⟨start, -, hcases⟩ := Waited.leads hsh mem due jitter leads
      rcases hcases with ⟨-, htime, -⟩ | ⟨hterminal, -⟩
      · refine ⟨start, ?_⟩
        rw [attempts, nextAttemptAt, expiresAt]
        exact htime
      · rw [WagerTransaction.isTerminal, ← status, hwaits] at hterminal
        cases hterminal

variable [Driver] {w : Service}

/-- Every transaction that committed kept to the clock. -/
theorem Reachable.timed (h : Reachable w) {i : Nat} {a : Answer}
    (hmem : (i, Ending.committed sh l a) ∈ w.history) : ∃ s, Timed sh l s :=
  (World.Tracks.steps rfl rfl (fun hv => Reachable.sound hv) units_time timed_start Timed.rely
    (fun hinv htied hallows hop => exec_timed htied hinv hallows hop) h).2 hmem

/-- The waiting reversals are on schedule, now and whenever a transaction committed. -/
theorem Reachable.scheduled (h : Reachable w) :
    Scheduled w.shared ∧
      ∀ {i sh l a}, (i, Ending.committed sh l a) ∈ w.history → Scheduled sh := by
  induction h with
  | refl =>
    refine ⟨fun row hrow => (by cases hrow), fun hmem => ?_⟩
    cases hmem
  | @tail mid w' before last ih =>
    have hnext : Reachable w' := .tail before last
    obtain ⟨hmid, hhistory⟩ := ih
    obtain ⟨action, hstep⟩ := last
    have hcommits : ∀ {i sh l a}, (i, Ending.committed sh l a) ∈ w'.history → Scheduled sh := by
      intro i sh l a hmem
      rcases World.step_commit hstep hmem with hold | ⟨rfl, -⟩
      · exact hhistory hold
      · exact hmid
    refine ⟨?_, hcommits⟩
    obtain ⟨-, hshared⟩ := World.step_cases hstep
    rcases hshared with
      ⟨-, heq | ⟨others, l, op, input, r, hop⟩ | ⟨a, -, ha⟩⟩ | ⟨i, l, a, heq, hnew⟩
    · exact heq ▸ hmid
    · intro row hrow
      rw [(exec_effect hop).1] at hrow
      exact hmid row hrow
    · obtain ⟨outbox, publishing, heq, -, -⟩ := ambient_same ha
      rw [heq]
      exact hmid
    · have hmem : (i, Ending.committed mid.shared l a) ∈ w'.history := by
        rw [hnew]
        exact List.mem_append_right _ (List.mem_singleton.mpr rfl)
      obtain ⟨entry, past, hcommitted⟩ := hnext.commit_recorded hmem
      obtain ⟨s, htimed⟩ := hnext.timed hmem
      rw [heq]
      exact hmid.committed htimed hcommitted.own hcommitted.ready

/-- What the promise of six hours says of a run of the service. -/
structure KeepsPromise (w : Service) : Prop where
  attempts : ∀ t : WagerTransaction, toWagerTransactionRow t ∈ w.shared.db.wagers →
    t.status = .pendingReference → t.attempts < maxAttempts ∧ rescheduled t.id w.history ≤ 99
  exhausted : ∀ t : WagerTransaction, toWagerTransactionRow t ∈ w.shared.db.wagers →
    t.status = .pendingReference → ∃ expires, t.expiresAt = some expires ∧
      ∀ now, isExhausted t now = true ↔ expires ≤ now
  pended : ∀ i sh l a, (i, Ending.committed sh l a) ∈ w.history →
    ∀ row ∈ (l.view sh.db).wagers, row.status = .pendingReference →
      (∀ p ∈ sh.db.wagers, p.id ≠ row.id) →
        ∃ now ∈ l.readings, row.expiresAt = some (now + pendingReferenceTtlMs) ∧
          ∃ next, row.nextAttemptAt = some next ∧ now < next
  later : ∀ i sh l a, (i, Ending.committed sh l a) ∈ w.history →
    ∀ p ∈ sh.db.wagers, ∀ row ∈ (l.view sh.db).wagers, row.id = p.id → row ≠ p →
      row.status = .pendingReference → ∃ now next, l.readings = [now] ∧
        (∃ due, p.nextAttemptAt = some due ∧ due ≤ now) ∧
          row.nextAttemptAt = some next ∧ now < next
  kept : ∀ i sh l a, (i, Ending.committed sh l a) ∈ w.history →
    ∀ p ∈ sh.db.wagers, p.status = .pendingReference →
      ∀ row ∈ (l.view sh.db).wagers, row.id = p.id → row.status = .rejected →
        ¬ ReferenceSettled sh p → ∃ now expires, l.readings = [now] ∧
          p.expiresAt = some expires ∧ expires ≤ now

theorem Reachable.keepsPromise (h : Reachable w) : KeepsPromise w := by
  have hsound := h.sound.inv
  -- what a recorded commit has written of a transaction that waits or is rejected
  have hwaited : ∀ {i sh l a row}, (i, Ending.committed sh l a) ∈ w.history →
      row ∈ (l.view sh.db).wagers →
      (row.status = .pendingReference ∨ row.status = .rejected) →
        Sound sh ∧ (row ∈ sh.db.wagers ∨ Waited sh l row) := by
    intro i sh l a row hmem hrow hstatus
    obtain ⟨entry, past, hcommitted⟩ := h.commit_recorded hmem
    obtain ⟨s, htimed⟩ := h.timed hmem
    exact ⟨hcommitted.sound, htimed.waited hcommitted.own hcommitted.ready hrow hstatus⟩
  refine
    { attempts := fun t hmem hwaits => ?attempts
      exhausted := fun t hmem hwaits => ?exhausted
      pended := fun i sh l a hmem row hrow hwaits hfresh => ?pended
      later := fun i sh l a hmem p hp row hrow hid hne hwaits => ?later
      kept := fun i sh l a hmem p hp hwaits row hrow hid hrejected hnone => ?kept }
  case attempts =>
    obtain ⟨start, htime⟩ := h.scheduled.1 _ hmem hwaits
    have hfew : t.attempts ≤ 95 := htime.attempts_le
    refine ⟨Int.lt_of_le_of_lt hfew (by decide), ?_⟩
    have hcount : w.shared.db.attemptsOf t.id = t.attempts := attemptsOf_of_mem hsound hmem
    have hrescheduled := h.attemptsOf t.id
    omega
  case exhausted =>
    obtain ⟨start, htime⟩ := h.scheduled.1 _ hmem hwaits
    exact ⟨_, htime.expires, fun now => OnTime.isExhausted_iff htime now⟩
  case pended =>
    rcases hwaited hmem hrow (.inl hwaits) with ⟨-, hold | hnew⟩
    · exact absurd rfl (hfresh row hold)
    · cases hnew with
      | pended fresh waits reading onTime expires later => exact ⟨_, reading, expires, later⟩
      | refused fresh status =>
        rw [status] at hwaits
        cases hwaits
      | worked mem id => exact absurd id (hfresh _ mem)
  case later =>
    rcases hwaited hmem hrow (.inl hwaits) with ⟨hsh, hold | hnew⟩
    · exact absurd (hsh.books.eq_of_id hold hp hid) hne
    · cases hnew with
      | pended fresh => exact absurd hid.symm (fresh p hp)
      | refused fresh status => exact absurd hid.symm (fresh p hp)
      | @worked pending t run mem id due readings jitter seen leads status attempts next expires =>
        have heq : toWagerTransactionRow pending = p := hsh.books.eq_of_id mem hp (id.trans hid)
        obtain ⟨start, -, hcases⟩ := Waited.leads (h.scheduled.2 hmem) mem due jitter leads
        rcases hcases with ⟨-, -, at_, hnext, hlater⟩ | ⟨hterminal, -⟩
        · refine ⟨run.now, at_, readings, ?_, next.trans hnext, hlater⟩
          rw [← heq]
          simp only [isDue, Bool.and_eq_true, Option.any_eq_true] at due
          obtain ⟨-, dueAt, hdue, hle⟩ := due
          exact ⟨dueAt, hdue, of_decide_eq_true hle⟩
        · rw [WagerTransaction.isTerminal, ← status, hwaits] at hterminal
          cases hterminal
  case kept =>
    rcases hwaited hmem hrow (.inr hrejected) with ⟨hsh, hold | hnew⟩
    · rw [hsh.books.eq_of_id hold hp hid, hwaits] at hrejected
      cases hrejected
    · cases hnew with
      | pended fresh => exact absurd hid.symm (fresh p hp)
      | refused fresh status => exact absurd hid.symm (fresh p hp)
      | @worked pending t run mem id due readings jitter seen leads status attempts next expires =>
        have heq : toWagerTransactionRow pending = p := hsh.books.eq_of_id mem hp (id.trans hid)
        obtain ⟨start, hexpires, hcases⟩ := Waited.leads (h.scheduled.2 hmem) mem due jitter leads
        rcases hcases with ⟨hopen, -⟩ | ⟨-, hlate⟩
        · rw [← status, hrejected] at hopen
          cases hopen
        · refine ⟨run.now, _, readings, heq ▸ hexpires, hlate ?_⟩
          by_contra hsettled
          exact hnone (heq ▸ seen (Bool.not_eq_false _ ▸ hsettled))

/-- The six hours end every wait, never the count of attempts: over any runs of
the worker on a reversal, at any jitter, and over every run of the service. -/
theorem Reachable.six_hours (h : Reachable w) :
    (∀ {K : Type} [Field K] [LinearOrder K] [IsStrictOrderedRing K] [FloorRing K]
      {props : CreateWagerTransactionProps} {created t₀ t : WagerTransaction} {balance : Money}
      {start : Instant} {runs : List (PendingRun K)},
        WagerTransaction.create props = .ok created →
        created.markPendingReference balance (start + firstRetryDelayMs)
          (start + pendingReferenceTtlMs) = .ok t₀ →
        PendingRuns t₀ runs t → Promise start runs t) ∧
      KeepsPromise w :=
  ⟨fun hcreate hmark hruns => hruns.promise (pended_of_created hcreate hmark), h.keepsPromise⟩

end Statements

section Sample

local instance promisePlatform : Platform := samplePlatform

local instance promiseDriver : Driver := sampleDriver

/-- A refund waits from 1000 on, and is put off once, at the least jitter. -/
theorem sample_six_hours : KeepsPromise sampleService ∧
    ∃ (t₀ t : WagerTransaction) (run : PendingRun ℚ),
      PendingRuns t₀ [run] t ∧ t.nextAttemptAt = some 10000 ∧ Promise 1000 [run] t := by
  obtain ⟨hruns, hkeeps⟩ := sample_reachable.six_hours
  obtain ⟨created, hcreate⟩ := WagerTransaction.create_eq refundProps (by decide)
    (by decide +kernel) (fun _ => by decide +kernel) (by decide)
  obtain ⟨-, -, heq⟩ := WagerTransaction.reserve_ok (WagerTransaction.create_ok hcreate).2.2
  have hmark := WagerTransaction.markPendingReference_eq (t := created) (by rw [heq])
    (by rw [heq]; rfl) refundProps.money (1000 + firstRetryDelayMs) (1000 + pendingReferenceTtlMs)
  generalize ht₀ : ({ created with
    status := .pendingReference, resultBalance := some refundProps.money,
    nextAttemptAt := some (1000 + firstRetryDelayMs),
    expiresAt := some (1000 + pendingReferenceTtlMs) } : WagerTransaction) = t₀ at hmark
  have hwaits : t₀.status = .pendingReference := by subst ht₀; rfl
  have hzero : t₀.attempts = 0 := by subst ht₀; rw [heq]
  have hnext : t₀.nextAttemptAt = some 6000 := by subst ht₀; rfl
  have hexpires : t₀.expiresAt = some 21601000 := by subst ht₀; rfl
  have hdelay : exactBackoffMs 1 (0 : ℚ) = 4000 := by
    have := @exactBackoffMs_numerator ℚ _ _ _ _ 1 0
    rw [Nat.cast_zero, zero_div] at this
    rw [this]
    decide +kernel
  have hretry := WagerTransaction.scheduleRetry_eq hwaits
    (6000 + exactBackoffMs (t₀.attempts + 1) (0 : ℚ))
  have hrun : PendingRuns t₀ [(⟨6000, 0, none⟩ : PendingRun ℚ)] _ :=
    .next .none hwaits (by rw [hnext]; decide) ⟨le_refl 0, zero_lt_one⟩
      (.rescheduled rfl (by simp [isExhausted, hzero, hexpires, maxAttempts]) hretry)
  refine ⟨hkeeps, t₀, _, _, hrun, ?_, hruns hcreate hmark hrun⟩
  simp only [hzero, Int.zero_add, hdelay]
  rfl

end Sample

end Wagering
