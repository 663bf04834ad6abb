import Mathlib.Algebra.Order.Floor.Ring
import Mathlib.Data.Rat.Floor
import Mathlib.Tactic.FieldSimp
import Mathlib.Tactic.Linarith
import Mathlib.Tactic.Positivity
import Wagering.Application.ResolvePendingReference
import Wagering.Lib.Retries

/-!
# Runs of the worker on one pending reversal

What the runs that find a reversal due may leave of it, with the delay in exact
arithmetic for a jitter of any ordered field.  A reversal that waits is on
schedule: at the least delays the six hours are over after 95 retries, so the
limit of 100 is never what ends the wait.
-/

namespace Wagering

open Retries

/-! ## Delays -/

/-- The least that `pendingReferenceBackoffMs` answers after so many attempts. -/
def leastBackoffMs (attempts : Nat) : Int := min 240000 (4000 * 2 ^ attempts)

theorem leastBackoffMs_pos (attempts : Nat) : 0 < leastBackoffMs attempts := by
  have hpow : (0 : Int) < 2 ^ attempts := Int.pow_pos (by decide)
  exact Int.lt_min.mpr ⟨by decide, by omega⟩

/-- After 95 retries the six hours are over, however short the delays were. -/
theorem ttl_le_earliest :
    pendingReferenceTtlMs ≤ earliest firstRetryDelayMs leastBackoffMs 95 := by
  decide +kernel

section Exact

variable {K : Type} [Field K] [LinearOrder K] [FloorRing K]

/-- `pendingReferenceBackoffMs` in exact arithmetic. -/
def exactBackoffMs (attempts : Int) (jitter : K) : Int :=
  let delay : Int := min 300000 (5000 * 2 ^ (attempts - 1).toNat)
  ⌊(delay : K) * (8 / 10 + jitter * (4 / 10)) + 1 / 2⌋

variable [IsStrictOrderedRing K]

theorem leastBackoffMs_le (attempts : Nat) {jitter : K} (h : 0 ≤ jitter) :
    leastBackoffMs attempts ≤ exactBackoffMs ((attempts : Int) + 1) jitter := by
  have hpow : (0 : Int) < 2 ^ attempts := Int.pow_pos (by decide)
  rw [exactBackoffMs, leastBackoffMs, Int.add_sub_cancel, Int.toNat_natCast]
  generalize (2 : Int) ^ attempts = power at hpow
  generalize hleast : min 240000 (4000 * power) = least
  generalize hdelay : min 300000 (5000 * power) = delay
  have hfifth : least * 10 = delay * 8 := by omega
  have hcast : (least : K) * 10 = delay * 8 := by exact_mod_cast hfifth
  have hnonneg : (0 : K) ≤ delay := Int.cast_nonneg (by omega)
  have hproduct : 0 ≤ (delay : K) * jitter := mul_nonneg hnonneg h
  rw [Int.le_floor]
  linarith

/-- At the jitters that the runtime draws the delay is the one of the code. -/
theorem exactBackoffMs_numerator (attempts : Int) (numerator : Nat) :
    exactBackoffMs attempts ((numerator : K) / 2 ^ 53) =
      pendingReferenceBackoffMs attempts numerator := by
  rw [exactBackoffMs, pendingReferenceBackoffMs, jittered]
  generalize (min 300000 (5000 * 2 ^ (attempts - 1).toNat) : Int) = delay
  have hquotient : (delay : K) * (8 / 10 + (numerator : K) / 2 ^ 53 * (4 / 10)) + 1 / 2 =
      ((2 * delay * (8 * 2 ^ 53 + 4 * numerator) + 10 * 2 ^ 53 : Int) : K) /
        ((20 * 2 ^ 53 : Nat) : K) := by
    push_cast
    field_simp
    ring
  rw [hquotient, Int.floor_div_natCast, Int.floor_intCast]
  rfl

end Exact

/-! ## On schedule -/

/-- A reversal whose wait began at `start`: it has been put off `attempts` times,
is due next at `due`, and expires six hours after it began to wait. -/
structure OnTime (start : Instant) (attempts : Int) (nextAttemptAt expiresAt : Option Instant) :
    Prop where
  expires : expiresAt = some (start + pendingReferenceTtlMs)
  schedule : ∃ (n : Nat) (due : Instant), attempts = n ∧ nextAttemptAt = some due ∧
    OnSchedule firstRetryDelayMs leastBackoffMs start (start + pendingReferenceTtlMs) n due

namespace OnTime

variable {start now : Instant} {attempts : Int} {nextAttemptAt expiresAt : Option Instant}

/-- A reversal that has just been made to wait. -/
theorem pended (start : Instant) : OnTime start 0 (some (start + firstRetryDelayMs))
    (some (start + pendingReferenceTtlMs)) :=
  ⟨rfl, 0, _, rfl, rfl, .initial _ _ _ _⟩

theorem attempts_le (h : OnTime start attempts nextAttemptAt expiresAt) : attempts ≤ 95 := by
  obtain ⟨n, due, rfl, -, hschedule⟩ := h.schedule
  have hmost : n ≤ 95 := hschedule.attempts_le (fun i => Int.le_of_lt (leastBackoffMs_pos i))
    (Int.add_le_add_left ttl_le_earliest start)
  omega

/-- A retry that comes in time and waits for no less than the least delay keeps the schedule. -/
theorem retried (h : OnTime start attempts nextAttemptAt expiresAt)
    (hdue : nextAttemptAt.any fun at_ => at_ ≤ now) (hopen : now < start + pendingReferenceTtlMs)
    {delay : Int} (hdelay : ∀ n : Nat, attempts = n → leastBackoffMs n ≤ delay) :
    OnTime start (attempts + 1) (some (now + delay)) expiresAt := by
  obtain ⟨n, due, rfl, rfl, hschedule⟩ := h.schedule
  have hdue : due ≤ now := of_decide_eq_true hdue
  exact ⟨h.expires, n + 1, _, rfl, rfl,
    hschedule.putOff hdue hopen (Int.add_le_add_left (hdelay n rfl) now)⟩

/-- Nothing but the clock exhausts a reversal that is on schedule. -/
theorem isExhausted_iff [Platform] {t : WagerTransaction}
    (h : OnTime start t.attempts t.nextAttemptAt t.expiresAt) (now : Instant) :
    isExhausted t now = true ↔ start + pendingReferenceTtlMs ≤ now := by
  have hfew := h.attempts_le
  have hcount : ¬ maxAttempts ≤ t.attempts := by
    rw [maxAttempts]
    omega
  simp [isExhausted, hcount, h.expires]

end OnTime

variable [Platform]

/-! ## Runs -/

/-- A run that finds the reversal due: its clock, the jitter that it draws, and
the reference as it first reads it. -/
structure PendingRun (K : Type) : Type where
  now : Instant
  jitter : K
  reference : Option WagerTransaction

namespace PendingRun

variable {K : Type} [Field K] [LinearOrder K] [FloorRing K]

/-- What the run may leave of the reversal `t`. -/
inductive Leads (run : PendingRun K) (t : WagerTransaction) : WagerTransaction → Prop
  | rescheduled {t' : WagerTransaction}
    (unsettled : run.reference.any referenceIsSettled = false)
    (lasting : isExhausted t run.now = false)
    (retry : t.scheduleRetry (run.now + exactBackoffMs (t.attempts + 1) run.jitter) = .ok t') :
    Leads run t t'
  | settled {t' : WagerTransaction}
    (resolved : run.reference.any referenceIsSettled = true ∨ isExhausted t run.now = true)
    (terminal : t'.isTerminal = true) : Leads run t t'

variable [IsStrictOrderedRing K] {run : PendingRun K} {t t' : WagerTransaction} {start : Instant}

/-- A run either puts the reversal off, on schedule and to a later time, or settles
it, and without a settled reference only when the six hours are over. -/
theorem Leads.onTime (h : run.Leads t t')
    (ht : OnTime start t.attempts t.nextAttemptAt t.expiresAt)
    (hdue : t.nextAttemptAt.any fun at_ => at_ ≤ run.now) (hjitter : 0 ≤ run.jitter) :
    (t'.status = .pendingReference ∧ t'.attempts = t.attempts + 1 ∧
        OnTime start t'.attempts t'.nextAttemptAt t'.expiresAt ∧
        ∃ next, t'.nextAttemptAt = some next ∧ run.now < next) ∨
      t'.isTerminal = true ∧ (run.reference.any referenceIsSettled = false →
        start + pendingReferenceTtlMs ≤ run.now) := by
  cases h with
  | rescheduled unsettled lasting retry =>
    have hopen : run.now < start + pendingReferenceTtlMs := by
      by_contra hlate
      rw [(ht.isExhausted_iff run.now).mpr (Int.not_lt.mp hlate)] at lasting
      cases lasting
    have hdelay : ∀ n : Nat, t.attempts = n →
        leastBackoffMs n ≤ exactBackoffMs (t.attempts + 1) run.jitter := by
      intro n hn
      rw [hn]
      exact leastBackoffMs_le n hjitter
    obtain ⟨n, due, hn, -⟩ := ht.schedule
    have hpos : 0 < exactBackoffMs (t.attempts + 1) run.jitter :=
      Int.lt_of_lt_of_le (leastBackoffMs_pos n) (hdelay n hn)
    unfold WagerTransaction.scheduleRetry at retry
    split at retry
    · cases retry
    · rename_i hstatus
      cases retry
      exact .inl ⟨not_not.mp hstatus, rfl, ht.retried hdue hopen hdelay, _, rfl,
        Int.lt_add_of_pos_right _ hpos⟩
  | settled resolved terminal =>
    refine .inr ⟨terminal, fun hnone => ?_⟩
    rcases resolved with hsettled | hexhausted
    · rw [hnone] at hsettled
      cases hsettled
    · exact (ht.isExhausted_iff run.now).mp hexhausted

end PendingRun

section Runs

variable {K : Type} [Field K] [LinearOrder K] [FloorRing K]

/-- The reversal `t` after runs of the worker that each came when it was due. -/
inductive PendingRuns (t₀ : WagerTransaction) : List (PendingRun K) → WagerTransaction → Prop
  | none : PendingRuns t₀ [] t₀
  | next {runs : List (PendingRun K)} {run : PendingRun K} {t t' : WagerTransaction}
    (before : PendingRuns t₀ runs t) (waits : t.status = .pendingReference)
    (due : t.nextAttemptAt.any fun at_ => at_ ≤ run.now) (jitter : 0 ≤ run.jitter ∧ run.jitter < 1)
    (leads : run.Leads t t') : PendingRuns t₀ (runs ++ [run]) t'

variable [IsStrictOrderedRing K] {t₀ t : WagerTransaction} {runs : List (PendingRun K)}
  {start : Instant}

/-- As long as the reversal waits it is on schedule, and its runs are its attempts. -/
theorem PendingRuns.onTime (h : PendingRuns t₀ runs t) (hzero : t₀.attempts = 0)
    (h₀ : OnTime start t₀.attempts t₀.nextAttemptAt t₀.expiresAt)
    (hwaits : t.status = .pendingReference) :
    t.attempts = runs.length ∧ OnTime start t.attempts t.nextAttemptAt t.expiresAt := by
  induction h with
  | none => exact ⟨hzero, h₀⟩
  | @next runs run t t' before waits due jitter leads ih =>
    obtain ⟨hcount, ht⟩ := ih waits
    rcases leads.onTime ht due jitter.1 with ⟨-, hmore, ht', -⟩ | ⟨hterminal, -⟩
    · refine ⟨?_, ht'⟩
      rw [hmore, hcount, List.length_append, List.length_singleton]
      rfl
    · rw [WagerTransaction.isTerminal, hwaits] at hterminal
      cases hterminal

end Runs

end Wagering
