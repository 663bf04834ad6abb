import Wagering.Correctness.Ordering
import Wagering.Correctness.Timing

/-!
# Every unit keeps to the clock

Function by function: a submission lets only its own reversal wait, from the time
that it read, and the worker leaves of the reversal that it found due what a run
may leave of it.
-/

namespace Wagering

open Interleave

variable [Platform] {α β : Type} {s : TimeState}

/-- The code keeps to the clock, from `s` on, and has the same reversal in hand. -/
abbrev Times (code : Code α) (s : TimeState) : Prop :=
  code.Follows timekeeping (fun s' _ => s'.due = s.due) s

theorem times_call {op : Op} {f : op.Answer → Code β} (hallows : s.Allows op)
    (h : ∀ answer, (s.next op answer).due = s.due ∧ Times (f answer) (s.next op answer)) :
    Times (call op >>= f) s :=
  ⟨hallows, fun answer => Program.follows_mono (h answer).2 fun _ _ hdue => hdue.trans (h answer).1⟩

theorem follows_of_times {code : Code α} (h : Times code s) :
    code.Follows timekeeping (fun _ _ => True) s :=
  Program.follows_mono h fun _ _ _ => trivial

theorem times_domain {x : Except DomainError α} {f : α → Code β}
    (h : ∀ a, x = .ok a → Times (f a) s) : Times (domain x >>= f) s := by
  cases x with
  | ok a => exact h a rfl
  | error e => exact trivial

/-! ## The transaction in hand -/

/-- Whatever settles the transaction may be written. -/
def TimeState.Settles (s : TimeState) (t : WagerTransaction) : Prop :=
  ∀ t' : WagerTransaction, t'.id = t.id → t'.isTerminal = true → s.Writes t'

/-- The transaction is the unit's own, and `now` is a reading of its clock. -/
structure TimeState.Reserved (s : TimeState) (t : WagerTransaction) (now : Instant) : Prop where
  due : s.due = none
  inserted : s.inserted = some t.id
  reading : now ∈ s.readings

variable {t : WagerTransaction} {now : Instant}

theorem TimeState.Settles.of_eq {t' : WagerTransaction} (h : s.Settles t) (hid : t'.id = t.id) :
    s.Settles t' :=
  fun u hu hterminal => h u (hu.trans hid) hterminal

theorem TimeState.Reserved.mayWrite (h : s.Reserved t now) : s.Settles t := by
  intro t' hid hterminal
  unfold TimeState.Writes
  simp only [h.due]
  intro hstatus
  refine ⟨hid ▸ h.inserted, fun hwaits => ?_⟩
  rw [WagerTransaction.isTerminal, hwaits] at hterminal
  cases hterminal

/-- What may be written may be written after one more read. -/
theorem TimeState.Settles.found (h : s.Settles t) (reference : Option WagerTransaction) :
    TimeState.Settles { s with found := reference :: s.found } t := by
  intro t' hid hterminal
  have hwrites := h t' hid hterminal
  unfold TimeState.Writes at hwrites ⊢
  split at hwrites
  · rename_i hdue
    simp only [hdue]
    exact hwrites
  · rename_i pending hdue
    obtain ⟨hpending, hupdated, run, hreadings, hjitter, hfound, hleads⟩ := hwrites
    simp only [hdue]
    exact ⟨hpending, hupdated, run, hreadings, hjitter, List.mem_cons_of_mem _ hfound, hleads⟩

/-- The worker may settle the reversal that it found due, once a run may. -/
theorem TimeState.settles_due {pending : WagerTransaction} {reference : Option WagerTransaction}
    (hdue : s.due = some pending) (hupdated : s.updated = false) (hreadings : s.readings = [now])
    (hfound : reference ∈ s.found)
    (h : reference.any referenceIsSettled = true ∨ isExhausted pending now = true) :
    s.Settles pending := by
  intro t' hid hterminal
  unfold TimeState.Writes
  simp only [hdue]
  exact ⟨hid, hupdated, ⟨now, s.jitter / 2 ^ 53, reference⟩, hreadings, rfl, hfound,
    .settled h hterminal⟩

/-! ## Transitions -/

theorem markProcessed_status {t t' : WagerTransaction} {reference : Option Text}
    {balance : Money} {at_ : Instant} (h : t.markProcessed reference balance at_ = .ok t') :
    t'.status = .processed := by
  obtain ⟨-, -, h⟩ := bind_ok h
  cases h
  rfl

theorem markProcessed_terminal {t t' : WagerTransaction} {reference : Option Text}
    {balance : Money} {at_ : Instant} (h : t.markProcessed reference balance at_ = .ok t') :
    t'.isTerminal = true := by
  rw [WagerTransaction.isTerminal, markProcessed_status h]
  rfl

theorem reject_terminal {t t' : WagerTransaction} {code : FailureCode} {balance : Option Money}
    {at_ : Instant} (h : t.reject code balance at_ = .ok t') : t'.isTerminal = true := by
  obtain ⟨-, -, h⟩ := bind_ok h
  split at h
  · cases h
  · split at h
    · cases h
    · split at h
      · cases h
      · cases h
        rfl

theorem fail_status {t t' : WagerTransaction} {balance : Money} {at_ : Instant}
    (h : t.fail balance at_ = .ok t') : t'.status = .failed := by
  obtain ⟨-, -, h⟩ := bind_ok h
  cases h
  rfl

/-! ## Submissions -/

theorem times_process {wallet : Wallet} {entry : Option WalletLedgerEntry} {context : EventContext}
    {reference : Option Text} (h : s.Settles t) :
    Times (process t wallet entry now context reference) s := by
  refine times_domain fun t' ht' => ?_
  refine times_call (h t' (markProcessed_same ht').1 (markProcessed_terminal ht'))
    fun _ => ⟨rfl, ?_⟩
  cases entry with
  | none => exact times_call trivial fun _ => ⟨rfl, rfl⟩
  | some entry =>
    refine times_call trivial fun _ => ⟨rfl, ?_⟩
    refine times_call trivial fun _ => ⟨rfl, ?_⟩
    refine times_call trivial fun _ => ⟨rfl, ?_⟩
    exact times_call trivial fun _ => ⟨rfl, rfl⟩

theorem times_reject {code : FailureCode} {balance : Option Money} {context : EventContext}
    (h : s.Settles t) : Times (reject t code balance now context) s := by
  refine times_domain fun t' ht' => ?_
  refine times_call (h t' (reject_same ht').1 (reject_terminal ht')) fun _ => ⟨rfl, ?_⟩
  exact times_call trivial fun _ => ⟨rfl, rfl⟩

theorem times_move {w : Wallet} {direction : LedgerDirection}
    {f : WalletLedgerEntry × Wallet → Code β} (h : ∀ moved, Times (f moved) s) :
    Times (move w t direction now >>= f) s :=
  times_call trivial fun _ => ⟨rfl, times_domain fun moved _ => h moved⟩

theorem times_applyResolvedReversal {reference : WagerTransaction} {wallet : Wallet}
    {context : EventContext} (h : s.Settles t) :
    Times (applyResolvedReversal t reference wallet now context) s := by
  refine times_domain fun failure _ => ?_
  cases failure with
  | some failure => exact times_reject h
  | none =>
    refine times_call trivial fun alreadyReversed => ⟨rfl, ?_⟩
    split
    · exact times_reject h
    · refine times_domain fun direction _ => ?_
      refine times_domain fun rejection _ => ?_
      cases rejection with
      | some rejection => exact times_reject h
      | none => exact times_move fun moved => times_process h

theorem times_applyReversal {wallet : Wallet} {context : EventContext} (h : s.Reserved t now) :
    Times (applyReversal t wallet now context) s := by
  refine times_call (fun pending hpending => ?_) fun reference => ⟨rfl, ?_⟩
  · rw [h.due] at hpending
    cases hpending
  · have hreserved : (s.next (.findByExternalId t.providerId
        (t.referenceExternalTransactionId.getD [])) reference).Reserved t now :=
      ⟨h.due, h.inserted, h.reading⟩
    split
    · refine times_domain fun t' ht' => ?_
      obtain ⟨hid, -⟩ := markPendingReference_same ht'
      refine times_call ?_ fun _ => ⟨rfl, times_call trivial fun _ => ⟨rfl, rfl⟩⟩
      obtain ⟨-, -, hmark⟩ := bind_ok ht'
      split at hmark
      · cases hmark
      · cases hmark
        change TimeState.Writes _ _
        unfold TimeState.Writes
        simp only [hreserved.due]
        exact fun _ => ⟨h.inserted, fun _ => ⟨now, h.reading, rfl, rfl⟩⟩
    · exact times_applyResolvedReversal hreserved.mayWrite

/-- `resolveOptionalReference` reads at most the reference. -/
theorem times_resolveOptionalReference {f : Except FailureCode (Option Text) → Code β}
    (h : s.Reserved t now)
    (hf : ∀ s' result, s'.due = s.due → s'.Reserved t now → Times (f result) s') :
    Times (resolveOptionalReference t >>= f) s := by
  refine Program.follows_bind ?_
  have hthen : ∀ s' result, s'.due = s.due → s'.Reserved t now →
      (f result).Follows timekeeping (fun s'' _ => s''.due = s.due) s' :=
    fun s' result hdue hreserved =>
      Program.follows_mono (hf s' result hdue hreserved) fun _ _ hdue' => hdue'.trans hdue
  unfold resolveOptionalReference
  split
  · refine Program.follows_call (fun pending hpending => ?_) fun reference => ?_
    · rw [h.due] at hpending
      cases hpending
    · have hreserved : (s.next (.findByExternalId t.providerId ‹Text›) reference).Reserved t now :=
        ⟨h.due, h.inserted, h.reading⟩
      simp only
      split
      · exact hthen _ _ rfl hreserved
      · split
        · exact hthen _ _ rfl hreserved
        · exact hthen _ _ rfl hreserved
  · exact hthen s _ rfl h

theorem times_applyLocked {command : SubmitWagerCommand} {context : EventContext} {wallet : Wallet}
    (h : s.Reserved t now) : Times (applyLocked t command now context wallet) s := by
  unfold applyLocked
  split
  · exact times_reject h.mayWrite
  · split
    · exact times_reject h.mayWrite
    · split
      · exact times_applyReversal h
      · split
        · exact times_process h.mayWrite
        · refine times_resolveOptionalReference h fun s' result hdue hreserved => ?_
          cases result with
          | error failure => exact times_reject hreserved.mayWrite
          | ok referenceId =>
            refine times_domain fun direction _ => ?_
            refine times_domain fun rejection _ => ?_
            cases rejection with
            | some rejection => exact times_reject hreserved.mayWrite
            | none => exact times_move fun moved => times_process hreserved.mayWrite

theorem times_apply {command : SubmitWagerCommand} (h : s.Reserved t now) :
    Times (apply t command now) s := by
  refine times_call trivial fun eventId => ⟨rfl, ?_⟩
  refine times_call trivial fun wallet => ⟨rfl, ?_⟩
  cases wallet with
  | none => exact times_reject h.mayWrite
  | some wallet => exact times_applyLocked h

theorem times_resolveExisting {command : SubmitWagerCommand} {payloadHash : Text}
    (hdue : s.due = none) : Times (resolveExisting command payloadHash) s := by
  refine times_call trivial fun byKey => ⟨rfl, ?_⟩
  cases byKey with
  | some byKey =>
    simp only
    split
    · exact trivial
    · exact rfl
  | none =>
    refine times_call (fun pending hpending => ?_) fun byExternal => ⟨rfl, ?_⟩
    · rw [show s.due = some pending from hpending] at hdue
      cases hdue
    · cases byExternal <;> exact trivial

theorem times_executeWithin {command : SubmitWagerCommand} (hdue : s.due = none) :
    Times (executeWithin command) s := by
  refine times_domain fun money _ => ?_
  split
  · exact trivial
  · refine times_call hdue fun now => ⟨rfl, ?_⟩
    refine times_call trivial fun id => ⟨rfl, ?_⟩
    refine times_domain fun reserved _ => ?_
    refine times_call hdue fun owned => ?_
    cases owned with
    | none => exact ⟨rfl, times_resolveExisting hdue⟩
    | some owned => exact ⟨rfl, times_apply ⟨hdue, rfl, List.mem_cons_self⟩⟩

theorem times_consumeWithin (delivery : InboxDelivery) (command : SubmitWagerCommand) :
    Times (consumeWithin delivery command) timekeeping.start := by
  refine times_call rfl fun receivedAt => ⟨rfl, ?_⟩
  refine times_call trivial fun reserved => ⟨rfl, ?_⟩
  cases reserved with
  | none =>
    refine times_call trivial fun existing => ⟨rfl, ?_⟩
    cases existing with
    | none => exact rfl
    | some existing =>
      simp only
      split
      · exact rfl
      · split <;> exact rfl
  | some reserved =>
    refine Program.follows_bind (Program.follows_mono (times_executeWithin rfl)
      fun s result hdue => ?_)
    refine ⟨hdue, fun processedAt => ?_⟩
    exact ⟨trivial, fun _ => hdue⟩

/-! ## The other units -/

/-- Without a reversal in hand a transaction that is neither made to wait nor rejected
may be written. -/
theorem TimeState.writes_of_status (hdue : s.due = none) (hwaits : t.status ≠ .pendingReference)
    (hrejected : t.status ≠ .rejected) : s.Writes t := by
  unfold TimeState.Writes
  simp only [hdue]
  exact fun hstatus => absurd hstatus (not_or.mpr ⟨hwaits, hrejected⟩)

theorem times_recordOpening {command : CreateWalletCommand} {created : Wallet}
    {openingEntry : WalletLedgerEntry} {openingTransactionId : Text} {initialBalance : Money}
    (hdue : s.due = none) :
    Times (recordOpening command created openingEntry openingTransactionId initialBalance now)
      s := by
  refine times_domain fun t _ => ?_
  refine times_call hdue fun reserved => ?_
  have hkept : (s.next (.reserve t) reserved).due = s.due := by cases reserved <;> rfl
  refine ⟨hkept, times_domain fun t' ht' => ?_⟩
  have hstatus := markProcessed_status ht'
  refine times_call (TimeState.writes_of_status (hkept.trans hdue) ?_ ?_) fun _ => ⟨rfl, ?_⟩
  · rw [hstatus]
    decide
  · rw [hstatus]
    decide
  · refine times_call trivial fun _ => ⟨rfl, ?_⟩
    refine times_call trivial fun eventId => ⟨rfl, ?_⟩
    refine times_call trivial fun changedId => ⟨rfl, ?_⟩
    exact times_call trivial fun _ => ⟨rfl, rfl⟩

theorem times_createWallet (command : CreateWalletCommand) :
    Times (createWallet command) timekeeping.start := by
  refine times_domain fun initialBalance _ => ?_
  refine times_call rfl fun now => ⟨rfl, ?_⟩
  refine times_call trivial fun walletId => ⟨rfl, ?_⟩
  refine times_call trivial fun openingTransactionId => ⟨rfl, ?_⟩
  refine times_call trivial fun openingEntryId => ⟨rfl, ?_⟩
  refine times_domain fun opening _ => ?_
  refine times_call trivial fun created => ⟨rfl, ?_⟩
  cases created with
  | none => exact times_call trivial fun existing => ⟨rfl, trivial⟩
  | some created =>
    simp only
    split
    · exact rfl
    · exact times_recordOpening rfl

theorem times_recordRejected {context : EventContext} (h : s.Writes t) :
    Times (recordRejected t now context) s := by
  refine times_call h fun _ => ⟨rfl, ?_⟩
  exact times_call trivial fun _ => ⟨rfl, rfl⟩

/-- `settle`, of a reversal that a run may settle. -/
theorem times_settle (h : s.Settles t) (hdue : s.due = some t) (hupdated : s.updated = false) :
    Times (settle t now) s := by
  have hrejected : ∀ {s' : TimeState} {code balance context}, s'.Settles t → Times (do
      let pending ← domain (t.reject code balance now)
      recordRejected pending now context) s' := by
    intro s' code balance context hsettles
    refine times_domain fun t' ht' => ?_
    exact times_recordRejected (hsettles t' (reject_same ht').1 (reject_terminal ht'))
  refine times_call trivial fun eventId => ⟨rfl, ?_⟩
  refine times_call trivial fun wallet => ⟨rfl, ?_⟩
  cases wallet with
  | none => exact hrejected h
  | some wallet =>
    refine times_call (fun pending hpending => ?_) fun reference => ⟨rfl, ?_⟩
    · cases hdue.symm.trans hpending
      exact ⟨hupdated, rfl, rfl⟩
    · have hsettles := h.found reference
      split
      · exact hrejected hsettles
      · exact Program.follows_bind (Program.follows_mono (times_applyResolvedReversal hsettles)
          fun s' result hkept => hkept)

/-- `reschedule`, of the reversal that was found due with no settled reference. -/
theorem times_rescheduleReference {reference : Option WagerTransaction} (hdue : s.due = some t)
    (hupdated : s.updated = false) (hreadings : s.readings = [now]) (hfound : reference ∈ s.found)
    (hunsettled : reference.any referenceIsSettled = false) (hlasting : isExhausted t now = false) :
    Times (rescheduleReference t now) s := by
  refine times_call trivial fun jitter => ⟨rfl, ?_⟩
  refine times_domain fun t' ht' => ?_
  refine times_call ?_ fun _ => ⟨rfl, rfl⟩
  have hexact := @exactBackoffMs_numerator ℚ _ _ _ _ (t.attempts + 1) jitter
  rw [← hexact] at ht'
  change TimeState.Writes _ _
  unfold TimeState.Writes
  simp only [show (s.next .jitter jitter).due = some t from hdue]
  exact ⟨(scheduleRetry_same ht').1, hupdated, ⟨now, jitter / 2 ^ 53, reference⟩, hreadings, rfl,
    hfound, .rescheduled hunsettled hlasting ht'⟩

theorem times_resolveDue :
    resolveDue.Follows timekeeping (fun _ _ => True) timekeeping.start := by
  refine Program.follows_call rfl fun now => ?_
  refine Program.follows_call rfl fun pending => ?_
  cases pending with
  | none => exact trivial
  | some pending =>
    refine Program.follows_call trivial fun _ => ?_
    refine Program.follows_call (fun p hp => ?_) fun reference => ?_
    · cases hp
      exact ⟨rfl, rfl, rfl⟩
    · generalize hs : timekeeping.next _ _ reference = s
      have hdue : s.due = some pending := by subst hs; rfl
      have hupdated : s.updated = false := by subst hs; rfl
      have hreadings : s.readings = [now] := by subst hs; rfl
      have hfound : reference ∈ s.found := by subst hs; exact List.mem_cons_self
      refine follows_of_times ?_
      split
      · rename_i hwait
        rw [Bool.and_eq_true, Bool.not_eq_true', Bool.not_eq_true'] at hwait
        exact times_rescheduleReference hdue hupdated hreadings hfound hwait.1 hwait.2
      · rename_i hready
        refine times_settle (TimeState.settles_due hdue hupdated hreadings hfound ?_) hdue hupdated
        rw [Bool.and_eq_true, Bool.not_eq_true', Bool.not_eq_true', not_and_or,
          Bool.not_eq_false, Bool.not_eq_false] at hready
        exact hready

theorem times_recordFailure (id : Text) (error : Failure) :
    Times (recordFailure id error) timekeeping.start := by
  refine times_call rfl fun now => ⟨rfl, ?_⟩
  refine times_call trivial fun pending => ⟨rfl, ?_⟩
  cases pending with
  | none => exact trivial
  | some pending =>
    refine times_call trivial fun wallet => ⟨rfl, ?_⟩
    cases wallet with
    | none => exact trivial
    | some wallet =>
      simp only
      split
      · exact trivial
      · refine times_domain fun t' ht' => ?_
        have hstatus := fail_status ht'
        refine times_call trivial fun eventId => ⟨rfl, times_recordRejected ?_⟩
        refine TimeState.writes_of_status rfl ?_ ?_
        · rw [hstatus]
          decide
        · rw [hstatus]
          decide

/-! ## The units -/

theorem afterResolve_times [Driver] (l : Local) (r : Except Failure Answer) :
    (afterResolve l r).Follows timekeeping := by
  unfold afterResolve
  split
  · exact trivial
  · split
    · exact trivial
    · split
      · exact trivial
      · exact ⟨Program.follows_map (follows_of_times (times_recordFailure _ _)),
          fun _ _ => trivial⟩

/-- Every unit of work keeps to the clock. -/
theorem units_time [Driver] (entry : Entry) : (units entry).Follows timekeeping := by
  have hunit : ∀ {γ : Type} {code : Code γ} {f : γ → Answer}, Times code timekeeping.start →
      (f <$> code).Follows timekeeping (fun _ _ => True) timekeeping.start :=
    fun h => Program.follows_map (follows_of_times h)
  cases entry with
  | createWallet command => exact ⟨hunit (times_createWallet command), fun _ _ => trivial⟩
  | submit command => exact ⟨hunit (times_executeWithin rfl), fun _ _ => trivial⟩
  | consume delivery command =>
    exact ⟨hunit (times_consumeWithin delivery command), fun _ _ => trivial⟩
  | resolvePending => exact ⟨Program.follows_map times_resolveDue, afterResolve_times⟩

end Wagering
