import Wagering.Application.ConsumeWagerMessage
import Wagering.Application.CreateWallet
import Wagering.Application.ResolvePendingReference

/-!
# Units of work

The four entry points, each as the transactions that it opens one after the
other (`infrastructure/persistence/unit-of-work.ts`), and the system in which
any number of them run.
-/

namespace Wagering

open Interleave

/-- What is asked of the system. -/
inductive Entry : Type
  | createWallet (command : CreateWalletCommand)
  | submit (command : SubmitWagerCommand)
  | consume (delivery : InboxDelivery) (command : SubmitWagerCommand)
  | resolvePending

/-- What an entry point returns. -/
inductive Answer : Type
  | wallet (view : WalletView)
  | submitted (result : SubmitWagerResult)
  | consumed (outcome : ConsumeOutcome)
  | resolved (outcome : PendingReferenceOutcome)
deriving DecidableEq

variable [Platform] [Driver]

/-- The rest of `consume` after its transaction: a failure becomes an outcome. -/
def afterConsume : Except Failure Answer → Except Failure Answer
  | .ok answer => .ok answer
  | .error error => .ok (.consumed (classifyFailure error))

/-- The rest of `ResolvePendingReferenceUseCase.run` after its first transaction. -/
def afterResolve (loc : Local) : Except Failure Answer → Job store Answer
  | .ok answer => .done (.ok answer)
  | .error error =>
    match loc.attempted with
    | none => .done (.error error)
    | some id =>
      if Driver.isTransientFailure error then .done (.error error)
      else .transactional (Answer.resolved <$> recordFailure id error) fun _ r => .done r

/-- What each entry point does. -/
def units : Entry → Job store Answer
  | .createWallet command =>
    .transactional (Answer.wallet <$> createWallet command) fun _ r => .done r
  | .submit command =>
    .transactional (Answer.submitted <$> executeWithin command) fun _ r => .done r
  | .consume delivery command =>
    .transactional (Answer.consumed <$> consumeWithin delivery command) fun _ r =>
      .done (afterConsume r)
  | .resolvePending => .transactional (Answer.resolved <$> resolveDue) afterResolve

/-- The service: its committed state, its sessions and their history. -/
abbrev Service : Type := World store Entry Answer

/-- The service before the first request. -/
def Service.start : Service := ⟨.start, [], []⟩

/-- The states that some schedule of requests, operations, failures, crashes and
publisher steps leads to. -/
def Reachable (w : Service) : Prop := World.Steps units Service.start w

end Wagering
