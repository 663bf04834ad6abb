import Wagering.Correctness.Service
import Wagering.Domain.Objects

/-!
# The life of a transaction object

Whatever calls are made on a transaction, in whatever order and with whatever
arguments, its fields stay coherent with its status, a call that throws changes
nothing, and a terminal status is final.
-/

namespace Wagering

open Objects TransactionObject

section Statements

variable [Platform]

/-- A transaction as the code makes one. -/
inductive WagerTransaction.Made : WagerTransaction → Prop
  | created {props : CreateWagerTransactionProps} {t : WagerTransaction}
      (h : WagerTransaction.create props = .ok t) : Made t
  | opening {id walletId playerId : Text} {money : Money} {payloadHash correlationId : Text}
      {createdAt : Instant} {t : WagerTransaction}
      (h : WagerTransaction.createOpening id walletId playerId money payloadHash correlationId
        createdAt = .ok t) : Made t

/-- The fields agree with the status. -/
structure WagerTransaction.Coherent (t : WagerTransaction) : Prop where
  processedAt : t.processedAt ≠ none ↔ t.status.isTerminal = true
  failureCode : t.failureCode ≠ none ↔ t.status = .rejected ∨ t.status = .failed
  infrastructure : t.failureCode = some .infrastructureFailure ↔ t.status = .failed
  resultBalance : t.resultBalance = none ↔ t.status = .pending ∨ t.status = .rejected ∧
    (t.failureCode = some .walletNotFound ∨ t.failureCode = some .walletPlayerMismatch)
  waiting : t.status = .pendingReference → (t.kind = .refund ∨ t.kind = .rollback) ∧
    t.nextAttemptAt ≠ none ∧ t.expiresAt ≠ none

/-- The call succeeds. -/
def TransactionObject.Call.Succeeds (call : Call) (t : WagerTransaction) : Prop :=
  (call.method t).1 = .ok ()

/-- 1 for a call of `scheduleRetry` that succeeds. -/
def TransactionObject.Call.retries (call : Call) (t : WagerTransaction) : Nat :=
  match call, (call.method t).1 with
  | .scheduleRetry _, .ok _ => 1
  | _, _ => 0

/-- How many calls of `scheduleRetry` succeed. -/
def successfulRetries : List Call → WagerTransaction → Nat
  | [], _ => 0
  | call :: rest, t => call.retries t + successfulRetries rest (call.method t).2

/-- What a transaction is after some calls, and what the next one may do. -/
structure WagerTransaction.Lives (made : WagerTransaction) (calls : List Call) : Prop where
  coherent : (after Call.method calls made).Coherent
  attempts : (after Call.method calls made).attempts = successfulRetries calls made
  same : (after Call.method calls made).toCreateWagerTransactionProps =
    made.toCreateWagerTransactionProps
  throws : ∀ call : Call, ¬ call.Succeeds (after Call.method calls made) →
    (call.method (after Call.method calls made)).2 = after Call.method calls made
  final : (after Call.method calls made).isTerminal = true →
    ∀ call : Call, ¬ call.Succeeds (after Call.method calls made)
  failed : ∀ call : Call, (after Call.method calls made).status ≠ .failed →
    (call.method (after Call.method calls made)).2.status = .failed →
      (after Call.method calls made).status = .pendingReference

/-! ## What a call can do -/

/-- A call that succeeds, with its guards and all that it assigns. -/
inductive TransactionObject.Call.Does (t : WagerTransaction) : Call → WagerTransaction → Prop
  | processed (reference : Option Text) (balance : Money) (at_ : Instant)
      (h : t.status.isTerminal = false) :
      Does t (.markProcessed reference balance at_)
        { t with
          status := .processed, referenceTransactionId := reference,
          resultBalance := some balance, processedAt := some at_ }
  | waits (balance : Money) (next expires : Instant) (h : t.status = .pending)
      (hkind : t.kind.isReversal = true) :
      Does t (.markPendingReference balance next expires)
        { t with
          status := .pendingReference, resultBalance := some balance,
          nextAttemptAt := some next, expiresAt := some expires }
  | rejected (code : FailureCode) (balance : Option Money) (at_ : Instant)
      (h : t.status.isTerminal = false) (hcode : code ≠ .infrastructureFailure)
      (hbalance : code.disclosesNoBalance = balance.isNone) :
      Does t (.reject code balance at_)
        { t with
          status := .rejected, failureCode := some code, resultBalance := balance,
          processedAt := some at_ }
  | failed (balance : Money) (at_ : Instant) (h : t.status = .pendingReference) :
      Does t (.fail balance at_)
        { t with
          status := .failed, failureCode := some .infrastructureFailure,
          resultBalance := some balance, processedAt := some at_ }
  | retried (next : Instant) (h : t.status = .pendingReference) :
      Does t (.scheduleRetry next)
        { t with attempts := t.attempts + 1, nextAttemptAt := some next }

theorem assertTransition_ok {t : WagerTransaction} {target : WagerTransactionStatus} {u : Unit}
    (h : t.assertTransition target = .ok u) : t.status.isTerminal = false ∧
      (target = .failed → t.status = .pendingReference) ∧
      (target = .pendingReference → t.status = .pending) := by
  unfold WagerTransaction.assertTransition at h
  split at h
  · cases h
  · rename_i hguard
    simp only [Bool.or_eq_true, Bool.and_eq_true, decide_eq_true_eq, not_or, not_and,
      Decidable.not_not, WagerTransaction.isTerminal, Bool.not_eq_true] at hguard
    exact ⟨hguard.1.1, hguard.1.2, hguard.2⟩

theorem TransactionObject.Call.does {call : Call} {t t' : WagerTransaction}
    (h : call.apply t = .ok t') : call.Does t t' := by
  cases call with
  | markProcessed reference balance at_ =>
    obtain ⟨u, hassert, h⟩ := bind_ok h
    cases h
    exact .processed reference balance at_ (assertTransition_ok hassert).1
  | markPendingReference balance next expires =>
    obtain ⟨u, hassert, h⟩ := bind_ok h
    split at h
    · cases h
    · rename_i hkind
      cases h
      exact .waits balance next expires ((assertTransition_ok hassert).2.2 rfl)
        (by simpa [WagerTransaction.requiresReference] using hkind)
  | reject code balance at_ =>
    obtain ⟨u, hassert, h⟩ := bind_ok h
    split at h
    · cases h
    · split at h
      · cases h
      · split at h
        · cases h
        · cases h
          refine .rejected code balance at_ (assertTransition_ok hassert).1 ‹_› ?_
          cases balance <;> simp_all
  | fail balance at_ =>
    obtain ⟨u, hassert, h⟩ := bind_ok h
    cases h
    exact .failed balance at_ ((assertTransition_ok hassert).2.1 rfl)
  | scheduleRetry next =>
    simp only [apply, WagerTransaction.scheduleRetry] at h
    split at h
    · cases h
    · cases h
      exact .retried next (Decidable.not_not.mp ‹_›)

/-- A call throws and changes nothing, or succeeds and does what it can. -/
theorem TransactionObject.Call.cases (call : Call) (t : WagerTransaction) :
    (∃ e, call.method t = (.error e, t)) ∨
      ∃ t', call.method t = (.ok (), t') ∧ call.Does t t' := by
  cases happly : call.apply t with
  | error e => exact .inl ⟨e, call.realizes.apply_error (by rw [happly]; rfl)⟩
  | ok t' => exact .inr ⟨t', call.realizes.apply_ok (by rw [happly]; rfl), call.does happly⟩

/-! ## What every call keeps -/

theorem WagerTransaction.Made.coherent {t : WagerTransaction} (h : t.Made) :
    t.Coherent ∧ t.attempts = 0 := by
  have hreserved : ∀ {props : CreateWagerTransactionProps},
      WagerTransaction.reserve props = .ok t → t.Coherent ∧ t.attempts = 0 := by
    intro props hreserve
    obtain ⟨-, -, rfl⟩ := WagerTransaction.reserve_ok hreserve
    exact ⟨⟨by simp [WagerTransactionStatus.isTerminal], by simp, by simp, by simp, by simp⟩, rfl⟩
  cases h with
  | created h => exact hreserved (WagerTransaction.create_ok h).2.2
  | opening h => exact hreserved h

/-- Before it is terminal, a transaction has no failure code and no time of processing. -/
theorem WagerTransaction.Coherent.undecided {t : WagerTransaction} (h : t.Coherent)
    (hstatus : t.status.isTerminal = false) : t.failureCode = none ∧ t.processedAt = none := by
  constructor
  · by_contra hne
    rcases h.failureCode.mp hne with heq | heq <;> rw [heq] at hstatus <;> cases hstatus
  · by_contra hne
    rw [h.processedAt.mp hne] at hstatus
    cases hstatus

theorem TransactionObject.Call.Does.coherent {call : Call} {t t' : WagerTransaction}
    (h : call.Does t t') (ht : t.Coherent) : t'.Coherent := by
  cases h with
  | processed reference balance at_ hstatus =>
    obtain ⟨hcode, -⟩ := ht.undecided hstatus
    constructor <;> simp [WagerTransactionStatus.isTerminal, hcode]
  | waits balance next expires hstatus hkind =>
    obtain ⟨hcode, hprocessed⟩ := ht.undecided (by rw [hstatus]; rfl)
    have hreversal : t.kind = .refund ∨ t.kind = .rollback := by
      cases hk : t.kind <;> rw [hk] at hkind <;> simp_all [WagerTransactionKind.isReversal]
    constructor <;> simp [WagerTransactionStatus.isTerminal, hcode, hprocessed, hreversal]
  | rejected code balance at_ hstatus hcode hbalance =>
    have hnone : balance = none ↔ code = .walletNotFound ∨ code = .walletPlayerMismatch := by
      rw [← Option.isNone_iff_eq_none, ← hbalance]
      cases code <;> simp [FailureCode.disclosesNoBalance]
    constructor <;> simp [WagerTransactionStatus.isTerminal, hcode, hnone]
  | failed balance at_ hstatus =>
    constructor <;> simp [WagerTransactionStatus.isTerminal]
  | retried next hstatus =>
    exact
      { ht with
        waiting := fun _ => ⟨(ht.waiting hstatus).1, by simp, (ht.waiting hstatus).2.2⟩ }

theorem TransactionObject.Call.Does.same {call : Call} {t t' : WagerTransaction}
    (h : call.Does t t') :
    t'.toCreateWagerTransactionProps = t.toCreateWagerTransactionProps := by
  cases h <;> rfl

/-- Only a transaction that is not terminal is changed, and only one that waits fails. -/
theorem TransactionObject.Call.Does.from {call : Call} {t t' : WagerTransaction}
    (h : call.Does t t') : t.status.isTerminal = false ∧
      (t'.status = .failed → t.status = .pendingReference) := by
  cases h with
  | processed reference balance at_ hstatus => exact ⟨hstatus, fun h => by cases h⟩
  | waits balance next expires hstatus hkind =>
    exact ⟨by rw [hstatus]; rfl, fun h => by cases h⟩
  | rejected code balance at_ hstatus hcode hbalance => exact ⟨hstatus, fun h => by cases h⟩
  | failed balance at_ hstatus => exact ⟨by rw [hstatus]; rfl, fun _ => hstatus⟩
  | retried next hstatus => exact ⟨by rw [hstatus]; rfl, fun _ => hstatus⟩

/-- One call, of an object in any state. -/
theorem WagerTransaction.Coherent.call {t : WagerTransaction} (h : t.Coherent) (call : Call) :
    (call.method t).2.Coherent ∧
      (call.method t).2.toCreateWagerTransactionProps = t.toCreateWagerTransactionProps := by
  rcases call.cases t with ⟨e, hcall⟩ | ⟨t', hcall, hdoes⟩
  · rw [hcall]
    exact ⟨h, rfl⟩
  · rw [hcall]
    exact ⟨hdoes.coherent h, hdoes.same⟩

/-- Only `scheduleRetry` counts, when it succeeds. -/
theorem attempts_after (calls : List Call) (t : WagerTransaction) :
    (after Call.method calls t).attempts = t.attempts + successfulRetries calls t := by
  induction calls generalizing t with
  | nil => simp [successfulRetries]
  | cons call rest ih =>
    have hstep : (call.method t).2.attempts = t.attempts + call.retries t := by
      unfold Call.retries
      rcases call.cases t with ⟨e, hcall⟩ | ⟨t', hcall, hdoes⟩
      · rw [hcall]
        cases call <;> simp
      · rw [hcall]
        cases hdoes <;> simp
    show (after Call.method rest (call.method t).2).attempts = _
    rw [ih, hstep, successfulRetries, Nat.cast_add, add_assoc]

/-- The life of every transaction object, after any sequence of calls. -/
theorem transaction_lives {made : WagerTransaction} (h : made.Made) (calls : List Call) :
    made.Lives calls := by
  obtain ⟨hcoherent, hzero⟩ := h.coherent
  have hkeeps : (after Call.method calls made).Coherent ∧
      (after Call.method calls made).toCreateWagerTransactionProps =
        made.toCreateWagerTransactionProps := after_induct (P := fun t : WagerTransaction =>
      t.Coherent ∧ t.toCreateWagerTransactionProps = made.toCreateWagerTransactionProps)
    ⟨hcoherent, rfl⟩
    (fun call t ht => ⟨(ht.1.call call).1, (ht.1.call call).2.trans ht.2⟩) calls
  refine
    { coherent := hkeeps.1
      attempts := by rw [attempts_after, hzero, zero_add]
      same := hkeeps.2
      throws := fun call hthrows => ?throws
      final := fun hterminal call hsucceeds => ?final
      failed := fun call hnot hfailed => ?failed }
  case throws =>
    rcases call.cases (after Call.method calls made) with ⟨e, hcall⟩ | ⟨t', hcall, -⟩
    · rw [hcall]
    · exact absurd (congrArg Prod.fst hcall) hthrows
  case final =>
    rcases call.cases (after Call.method calls made) with ⟨e, hcall⟩ | ⟨t', hcall, hdoes⟩
    · rw [Call.Succeeds, hcall] at hsucceeds
      cases hsucceeds
    · rw [WagerTransaction.isTerminal, hdoes.from.1] at hterminal
      cases hterminal
  case failed =>
    rcases call.cases (after Call.method calls made) with ⟨e, hcall⟩ | ⟨t', hcall, hdoes⟩
    · rw [hcall] at hfailed
      exact absurd hfailed hnot
    · rw [hcall] at hfailed
      exact hdoes.from.2 hfailed

end Statements

section Sample

local instance transitionPlatform : Platform := samplePlatform

theorem refundProps_inRange : (1000 : Int).natAbs ≤ maxAbsolute := by decide

def refundProps : CreateWagerTransactionProps where
  id := sampleId 1
  providerId := utf16 "pragmatic"
  externalTransactionId := utf16 "refund-1"
  idempotencyKey := utf16 "refund-1"
  payloadHash := []
  walletId := sampleId 2
  playerId := utf16 "p1"
  roundId := utf16 "r1"
  gameId := utf16 "g1"
  kind := .refund
  money := ⟨1000, utf16 "BRL", refundProps_inRange, by decide +kernel⟩
  referenceExternalTransactionId := some (utf16 "bet-1")
  correlationId := utf16 "c1"
  createdAt := 1000

theorem sample_transaction_lives :
    ∃ made : WagerTransaction, made.Made ∧ ∀ calls, made.Lives calls := by
  obtain ⟨made, hcreate⟩ := WagerTransaction.create_eq refundProps (by decide)
    (by decide +kernel) (fun _ => by decide +kernel) (by decide)
  exact ⟨made, .created hcreate, fun calls => transaction_lives (.created hcreate) calls⟩

end Sample

end Wagering
