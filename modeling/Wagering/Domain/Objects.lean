import Wagering.Domain.WagerTransaction
import Wagering.Lib.Method

/-!
# The classes and their assignments

The mutating methods of `domain/wallet.ts` and `domain/wager-transaction.ts`
with their assignments one by one.  Each computes the function that the use
cases are modelled with: whatever it throws, it throws before it assigns.
-/

namespace Wagering

open Objects Method

variable [Platform]

/-! ## Wallet -/

namespace WalletObject

def apply (direction : LedgerDirection) (balanceAfter : Money) (props : MovementProps) :
    Method Wallet DomainError WalletLedgerEntry := do
  let w ← this
  let entry ← lift (WalletLedgerEntry.create
    { id := props.entryId, walletId := w.id, transactionId := props.transactionId, direction,
      money := props.money, balanceBefore := w.balance, balanceAfter, createdAt := props.at_ })
  assign fun w => { w with balance := balanceAfter }
  assign fun w => { w with version := w.version + 1 }
  assign fun w =>
    { w with updatedAt := if props.at_ > w.updatedAt then props.at_ else w.updatedAt }
  pure entry

def debit (props : MovementProps) : Method Wallet DomainError WalletLedgerEntry := do
  let w ← this
  lift (w.assertMovement props)
  let enough ← lift (w.canDebit props.money)
  if !enough then
    lift (.error (.insufficientFunds w.balance.toString props.money.toString))
  else do
    let balanceAfter ← lift (w.balance.subtract props.money)
    apply .debit balanceAfter props

def credit (props : MovementProps) : Method Wallet DomainError WalletLedgerEntry := do
  let w ← this
  lift (w.assertMovement props)
  let balanceAfter ← lift (w.balance.add props.money)
  apply .credit balanceAfter props

/-- `credit` or `debit`. -/
def move (direction : LedgerDirection) (props : MovementProps) :
    Method Wallet DomainError WalletLedgerEntry :=
  match direction with
  | .credit => credit props
  | .debit => debit props

theorem apply_realizes (direction : LedgerDirection) (balanceAfter : Money)
    (props : MovementProps) :
    (apply direction balanceAfter props).Realizes fun w => w.apply direction balanceAfter props := by
  intro w
  unfold apply Wallet.apply
  rw [this_bind]
  exact lift_bind fun entry _ => rfl

theorem debit_realizes (props : MovementProps) :
    (debit props).Realizes fun w => w.debit props := by
  intro w
  unfold debit Wallet.debit
  rw [this_bind]
  refine lift_bind fun _ _ => lift_bind fun enough _ => ?_
  split
  · rfl
  · exact lift_bind fun balanceAfter _ => apply_realizes _ _ props w

theorem credit_realizes (props : MovementProps) :
    (credit props).Realizes fun w => w.credit props := by
  intro w
  unfold credit Wallet.credit
  rw [this_bind]
  exact lift_bind fun _ _ => lift_bind fun balanceAfter _ => apply_realizes _ _ props w

theorem move_realizes (direction : LedgerDirection) (props : MovementProps) :
    (move direction props).Realizes fun w => w.move direction props := by
  cases direction with
  | debit => exact debit_realizes props
  | credit => exact credit_realizes props

end WalletObject

/-! ## Wager transaction -/

namespace TransactionObject

def markProcessed (referenceTransactionId : Option Text) (resultBalance : Money)
    (at_ : Instant) : Method WagerTransaction DomainError Unit := do
  let t ← this
  lift (t.assertTransition .processed)
  assign fun t => { t with status := .processed }
  assign fun t => { t with referenceTransactionId }
  assign fun t => { t with resultBalance := some resultBalance }
  assign fun t => { t with processedAt := some at_ }

def markPendingReference (resultBalance : Money) (nextAttemptAt expiresAt : Instant) :
    Method WagerTransaction DomainError Unit := do
  let t ← this
  lift (t.assertTransition .pendingReference)
  if !t.requiresReference then
    lift (.error (.invalidWagerTransaction (t.kind.text ++
      utf16 " does not await a reference: PENDING_REFERENCE is exclusive to REFUND and ROLLBACK")))
  else do
    assign fun t => { t with status := .pendingReference }
    assign fun t => { t with resultBalance := some resultBalance }
    assign fun t => { t with nextAttemptAt := some nextAttemptAt }
    assign fun t => { t with expiresAt := some expiresAt }

def reject (code : FailureCode) (resultBalance : Option Money) (at_ : Instant) :
    Method WagerTransaction DomainError Unit := do
  let t ← this
  lift (t.assertTransition .rejected)
  if code = .infrastructureFailure then
    lift (.error (.invalidWagerTransaction (utf16 "INFRASTRUCTURE_FAILURE belongs to FAILED")))
  else if !code.disclosesNoBalance && resultBalance.isNone then
    lift (.error (.invalidWagerTransaction (utf16 "rejection " ++ code.text ++
      utf16 " observed the wallet and requires the historical balance")))
  else if code.disclosesNoBalance && resultBalance.isSome then
    lift (.error (.invalidWagerTransaction (code.text ++
      utf16 " cannot carry a historical balance: the caller does not own that wallet")))
  else do
    assign fun t => { t with status := .rejected }
    assign fun t => { t with failureCode := some code }
    assign fun t => { t with resultBalance }
    assign fun t => { t with processedAt := some at_ }

def fail (resultBalance : Money) (at_ : Instant) : Method WagerTransaction DomainError Unit := do
  let t ← this
  lift (t.assertTransition .failed)
  assign fun t => { t with status := .failed }
  assign fun t => { t with failureCode := some .infrastructureFailure }
  assign fun t => { t with resultBalance := some resultBalance }
  assign fun t => { t with processedAt := some at_ }

def scheduleRetry (nextAttemptAt : Instant) : Method WagerTransaction DomainError Unit := do
  let t ← this
  if t.status ≠ .pendingReference then
    lift (.error (.invalidTransactionState t.status.text
      WagerTransactionStatus.pendingReference.text))
  else do
    assign fun t => { t with attempts := t.attempts + 1 }
    assign fun t => { t with nextAttemptAt := some nextAttemptAt }

/-- The mutators, with their arguments. -/
inductive Call : Type
  | markProcessed (referenceTransactionId : Option Text) (resultBalance : Money) (at_ : Instant)
  | markPendingReference (resultBalance : Money) (nextAttemptAt expiresAt : Instant)
  | reject (code : FailureCode) (resultBalance : Option Money) (at_ : Instant)
  | fail (resultBalance : Money) (at_ : Instant)
  | scheduleRetry (nextAttemptAt : Instant)

def Call.method : Call → Method WagerTransaction DomainError Unit
  | .markProcessed reference balance at_ => TransactionObject.markProcessed reference balance at_
  | .markPendingReference balance next expires =>
    TransactionObject.markPendingReference balance next expires
  | .reject code balance at_ => TransactionObject.reject code balance at_
  | .fail balance at_ => TransactionObject.fail balance at_
  | .scheduleRetry next => TransactionObject.scheduleRetry next

/-- The function that a mutator computes. -/
def Call.apply : Call → WagerTransaction → Except DomainError WagerTransaction
  | .markProcessed reference balance at_, t => t.markProcessed reference balance at_
  | .markPendingReference balance next expires, t => t.markPendingReference balance next expires
  | .reject code balance at_, t => t.reject code balance at_
  | .fail balance at_, t => t.fail balance at_
  | .scheduleRetry next, t => t.scheduleRetry next

theorem Call.realizes (call : Call) :
    call.method.Realizes fun t => (fun t' => ((), t')) <$> call.apply t := by
  intro t
  cases call with
  | markProcessed reference balance at_ =>
    show TransactionObject.markProcessed reference balance at_ t =
      outcome t (_ <$> t.markProcessed reference balance at_)
    unfold TransactionObject.markProcessed WagerTransaction.markProcessed
    rw [this_bind, map_bind]
    exact lift_bind fun _ _ => rfl
  | markPendingReference balance next expires =>
    show TransactionObject.markPendingReference balance next expires t =
      outcome t (_ <$> t.markPendingReference balance next expires)
    unfold TransactionObject.markPendingReference WagerTransaction.markPendingReference
    rw [this_bind, map_bind]
    refine lift_bind fun _ _ => ?_
    split <;> rfl
  | reject code balance at_ =>
    show TransactionObject.reject code balance at_ t =
      outcome t (_ <$> t.reject code balance at_)
    unfold TransactionObject.reject WagerTransaction.reject
    rw [this_bind, map_bind]
    refine lift_bind fun _ _ => ?_
    split
    · rfl
    · split
      · rfl
      · split <;> rfl
  | fail balance at_ =>
    show TransactionObject.fail balance at_ t =
      outcome t (_ <$> t.fail balance at_)
    unfold TransactionObject.fail WagerTransaction.fail
    rw [this_bind, map_bind]
    exact lift_bind fun _ _ => rfl
  | scheduleRetry next =>
    show TransactionObject.scheduleRetry next t =
      outcome t (_ <$> t.scheduleRetry next)
    unfold TransactionObject.scheduleRetry WagerTransaction.scheduleRetry
    rw [this_bind]
    split <;> rfl

end TransactionObject

end Wagering
