import Wagering.Application.SubmitWager

/-!
# Creating a wallet

`application/use-cases/create-wallet.ts`.  The clock and the identifiers are
read before the transaction opens, which no statement can observe.
-/

namespace Wagering

open Interleave

variable [Platform]

/-- `CreateWalletCommand`. -/
structure CreateWalletCommand : Type where
  playerId : Text
  initialBalance : MoneyProps
  correlationId : Text

/-- `WalletView`. -/
structure WalletView : Type where
  id : Text
  playerId : Text
  balance : MoneyProps
  version : Int
deriving DecidableEq

/-- `view`. -/
def walletView (wallet : Wallet) : WalletView where
  id := wallet.id
  playerId := wallet.playerId
  balance := wallet.balance.toJSON
  version := wallet.version

/-- The payload that an OPENING is hashed from. -/
def openingPayload (created : Wallet) (initialBalance : Money) : BusinessPayload :=
  let identity := openingIdentity created.id
  { providerId := identity.providerId
    externalTransactionId := identity.externalTransactionId
    playerId := created.playerId
    walletId := created.id
    roundId := identity.roundId
    gameId := identity.gameId
    kind := .opening
    money := initialBalance
    referenceExternalTransactionId := none }

/-- `execute`, once the wallet row is inserted and has an opening balance. -/
def recordOpening (command : CreateWalletCommand) (created : Wallet)
    (openingEntry : WalletLedgerEntry) (openingTransactionId : Text) (initialBalance : Money)
    (now : Instant) : Code WalletView := do
  let opening ← domain (WagerTransaction.createOpening openingTransactionId created.id
    created.playerId initialBalance (payloadHashOf (openingPayload created initialBalance))
    command.correlationId now)
  let _ ← call (.reserve opening)
  let opening ← domain (opening.markProcessed none created.balance now)
  call (.updateWager opening)
  call (.insertLedger openingEntry)
  let eventId ← call .nextId
  let context : EventContext :=
    { eventId, correlationId := command.correlationId, causationId := none, occurredAt := now }
  let changedId ← call .nextId
  call (.enqueue
    [wagerTransactionProcessed opening context,
     walletBalanceChanged created openingEntry
       { context with eventId := changedId, causationId := some opening.id }] now)
  pure (walletView created)

/-- `execute`. -/
def createWallet (command : CreateWalletCommand) : Code WalletView := do
  let initialBalance ← domain (Money.from command.initialBalance)
  let now ← call .now
  let walletId ← call .nextId
  let openingTransactionId ← call .nextId
  let openingEntryId ← call .nextId
  let opening ← domain (Wallet.open walletId command.playerId initialBalance now openingEntryId
    openingTransactionId)
  match ← call (.insertIfAbsent opening.wallet) with
  | none => do
    let existing ← call
      (.findByPlayerAndCurrency command.playerId initialBalance.currency)
    throwApplication .walletAlreadyExists
      "a wallet already exists for this player and currency" (existing.map Wallet.id)
  | some created =>
    match opening.openingEntry with
    | none => pure (walletView created)
    | some openingEntry =>
      recordOpening command created openingEntry openingTransactionId initialBalance now

end Wagering
