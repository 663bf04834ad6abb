import Wagering.Application.SubmitWager
import Wagering.Lib.Testimony

/-!
# Testimonies of the use cases

How the code of a use case testifies where it calls the domain, and that a
repository call never fails with an error of the application: whoever meets one
has it from the use case itself.
-/

namespace Wagering

open Interleave

/-- A computation of the domain, as a step of a use case. -/
theorem testifies_domain [Platform] {T : Typestate ports} {t : T.State} {α β : Type}
    {P : T.State → β → Prop} {F : T.State → Failure → Prop} {x : Except DomainError α}
    {f : α → Code β} (hok : ∀ a, x = .ok a → (f a).Testifies T P F t)
    (herror : ∀ e, F t (.domain e)) : (domain x >>= f).Testifies T P F t := by
  cases x with
  | ok a => exact hok a rfl
  | error e => exact herror e

/-! ## Errors of the application -/

section Errors

variable {sh sh' : Shared} {others : List Local} {l : Local} {α ρ : Type} {e : ApplicationError}

/-- The result is no error that a use case throws. -/
def Result.Blameless (result : Result α) : Prop :=
  ∀ sh e, result ≠ some (sh, .error (.application e))

theorem Result.blameless_answer {a : α} : (Result.answer sh l a).Blameless := by
  intro sh' e h
  cases h

theorem Result.blameless_refuse {r : RepositoryError} :
    (Result.refuse sh r : Result α).Blameless := by
  intro sh' e h
  cases h

theorem Result.blameless_none : Result.Blameless (none : Result α) := by
  intro sh' e h
  cases h

theorem Result.blameless_mapped {a : Except DomainError α} : (Result.mapped sh l a).Blameless := by
  intro sh' e h
  cases a <;> cases h

theorem Result.blameless_found {mapper : ρ → Except DomainError α} {row : Option ρ} :
    (Result.found sh l mapper row).Blameless := by
  cases row with
  | none => exact blameless_answer
  | some row => exact blameless_mapped

theorem insertOrIgnore_blameless {rules : List Rule} {keys : List UniqueKey} {row : ρ}
    {write : ρ → Write} {mapper : ρ → Except DomainError α} {lost : Local} :
    (insertOrIgnore rules keys row write mapper sh others l lost).Blameless := by
  unfold insertOrIgnore
  split
  · exact Result.blameless_refuse
  · split
    · exact Result.blameless_none
    · split
      · exact Result.blameless_answer
      · exact Result.blameless_found

theorem insertPlain_blameless {rules foreignKeys : List Rule} {keys : List UniqueKey}
    {write : Write} : (insertPlain rules keys foreignKeys write sh others l).Blameless := by
  unfold insertPlain
  split
  · exact Result.blameless_refuse
  · split
    · exact Result.blameless_none
    · split
      · exact Result.blameless_refuse
      · split
        · exact Result.blameless_refuse
        · exact Result.blameless_answer

theorem updateRow_blameless {table : String} {id : Text} {locked : Bool} {old? : Option ρ}
    {rules : ρ → List Rule} {write : ρ → Write} :
    (updateRow table id locked old? rules write sh l).Blameless := by
  unfold updateRow
  split
  · exact Result.blameless_none
  · split
    · exact Result.blameless_refuse
    · split
      · exact Result.blameless_refuse
      · exact Result.blameless_answer

variable [Platform]

/-- The errors of the application are thrown by the use cases alone. -/
theorem exec_blameless (op : Op) (input : Input) :
    (exec sh others l op input).Blameless := by
  cases input with
  | instant at_ =>
    cases op
    case now =>
      simp only [exec]
      split
      · exact Result.blameless_answer
      · exact Result.blameless_none
    all_goals exact Result.blameless_none
  | identity id =>
    cases op
    case nextId =>
      simp only [exec]
      split
      · exact Result.blameless_answer
      · exact Result.blameless_none
    all_goals exact Result.blameless_none
  | jitter numerator =>
    cases op
    case jitter =>
      simp only [exec]
      split
      · exact Result.blameless_answer
      · exact Result.blameless_none
    all_goals exact Result.blameless_none
  | step =>
    cases op with
    | now => exact Result.blameless_none
    | nextId => exact Result.blameless_none
    | jitter => exact Result.blameless_none
    | attempt id => exact Result.blameless_answer
    | insertIfAbsent wallet => exact insertOrIgnore_blameless
    | findByPlayerAndCurrency playerId currency => exact Result.blameless_found
    | lockWallet id =>
      simp only [exec]
      split
      · exact Result.blameless_refuse
      · split
        · exact Result.blameless_none
        · split
          · exact Result.blameless_answer
          · exact Result.blameless_found
    | updateWallet wallet => exact updateRow_blameless
    | reserve transaction =>
      simp only [exec]
      split
      · exact Result.blameless_refuse
      · exact insertOrIgnore_blameless
    | findByIdempotencyKey providerId idempotencyKey => exact Result.blameless_found
    | findByExternalId providerId externalTransactionId => exact Result.blameless_found
    | hasActiveReversal referenceTransactionId => exact Result.blameless_answer
    | lockWager id =>
      simp only [exec]
      split
      · exact Result.blameless_none
      · split
        · exact Result.blameless_answer
        · exact Result.blameless_found
    | lockDuePendingReference now =>
      simp only [exec]
      split
      · exact Result.blameless_answer
      · exact Result.blameless_found
    | updateWager transaction => exact updateRow_blameless
    | insertLedger entry => exact insertPlain_blameless
    | reserveInbox message => exact insertOrIgnore_blameless
    | findInbox key => exact Result.blameless_found
    | markInboxProcessed key processedAt => exact updateRow_blameless
    | enqueue events now =>
      simp only [exec]
      split
      · exact Result.blameless_answer
      · exact insertPlain_blameless

end Errors

end Wagering
