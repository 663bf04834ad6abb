import Wagering.Persistence.Ledger

/-!
# Reconciling a wallet

`application/use-cases/reconcile-wallet.ts`; the metric is left out.
-/

namespace Wagering

variable [Platform]

/-- `ReconciliationReport`. -/
structure ReconciliationReport : Type where
  walletId : Text
  storedBalance : MoneyProps
  calculatedBalance : MoneyProps
  difference : MoneyProps
  consistent : Bool
  checkedEntries : Nat
deriving DecidableEq

/-- The work of `execute`, which `readOnly` runs. -/
def reconcileWallet (walletId : Text) : ReadCode ReconciliationReport := do
  match ← query (.findWallet walletId) with
  | none =>
    .raise (.application ⟨.resourceNotFound, utf16 "wallet not found", none⟩)
  | some wallet => do
    let reconstructed ← query (.reconstructBalance wallet)
    match wallet.balance.subtract reconstructed.balance with
    | .error e => .raise (.domain e)
    | .ok difference =>
      pure
        { walletId := wallet.id
          storedBalance := wallet.balance.toJSON
          calculatedBalance := reconstructed.balance.toJSON
          difference := difference.toJSON
          consistent := difference.isZero
          checkedEntries := reconstructed.entries }

end Wagering
