import Wagering.Application.ResolvePendingReference
import Wagering.Correctness.Reversing

/-!
# Verdicts

What the use cases are for: a transaction is judged by what the tables hold at
one moment of the wallet that it names, of the transaction that it refers to,
and of the reversals of that one.  A verdict is a function of rows; it knows
neither calls nor locks nor sessions.

The functions of the domain that the use cases call on the way decide the same.
-/

namespace Wagering

/-- What is decided of a transaction: how it ends, the balance that it shows, in
which currency, and how its wallet moves. -/
structure Verdict : Type where
  status : WagerTransactionStatus
  failureCode : Option FailureCode
  referenceTransactionId : Option Text
  resultBalance : Option (Int × Text)
  movement : Option LedgerDirection
deriving DecidableEq

namespace Verdict

def refused (code : FailureCode) (resultBalance : Option (Int × Text)) : Verdict :=
  ⟨.rejected, some code, none, resultBalance, none⟩

def waits (resultBalance : Int × Text) : Verdict :=
  ⟨.pendingReference, none, none, some resultBalance, none⟩

def processed (reference : Option Text) (resultBalance : Int × Text)
    (movement : Option LedgerDirection) : Verdict :=
  ⟨.processed, none, reference, some resultBalance, movement⟩

/-- `v`, unless there is a reason to refuse. -/
def guarded (failure : Option FailureCode) (shown : Int × Text) (v : Verdict) : Verdict :=
  match failure with
  | some code => .refused code (some shown)
  | none => v

/-- The first answer to a submission. -/
def result (v : Verdict) (transactionId : Text) : SubmitWagerResult where
  transactionId
  status := v.status
  balance := v.resultBalance.map fun shown => moneyText shown.1 shown.2
  failureCode := v.failureCode
  idempotentReplay := false

end Verdict

/-! ## Judgements of rows -/

/-- The balance of a wallet, as a transaction shows it. -/
def WalletRow.shown (w : WalletRow) : Int × Text := (w.balance, w.currency)

/-- The direction of a reversal, from its own kind and that of its reference. -/
def WagerTransactionKind.undoes : WagerTransactionKind → WagerTransactionKind → LedgerDirection
  | .rollback, .win | .rollback, .refund => .debit
  | _, _ => .credit

namespace WagerTransactionRow

/-- Why `t` may not build on `r`, if it may not. -/
def mismatch (t r : WagerTransactionRow) : Option FailureCode :=
  if r.status ≠ .processed then some .referenceNotProcessed
  else if r.providerId ≠ t.providerId || r.playerId ≠ t.playerId || r.walletId ≠ t.walletId ||
      r.roundId ≠ t.roundId then some .referenceMismatch
  else if r.currency ≠ t.currency then some .currencyMismatch
  else none

/-- A transaction that is free to move its wallet. -/
def judgeMovement (t : WagerTransactionRow) (w : WalletRow) (direction : LedgerDirection)
    (reference : Option Text) : Verdict :=
  let balance := w.balance + direction.signed t.amount
  if balance < 0 then
    .refused (if t.kind.isReversal then .reversalWouldOverdraw else .insufficientFunds)
      (some w.shown)
  else if (maxAbsolute : Int) < balance then .refused .balanceLimitExceeded (some w.shown)
  else .processed reference (balance, w.currency) (some direction)

/-- A reversal of a reference that is settled. -/
def judgeReversal (t r : WagerTransactionRow) (w : WalletRow) (reversed : Bool) : Verdict :=
  if r.kind ∉ t.kind.reversibleKinds then .refused .referenceKindNotReversible (some w.shown)
  else .guarded (t.mismatch r) w.shown <|
    if r.amount ≠ t.amount then .refused .reversalAmountMismatch (some w.shown)
    else if reversed then .refused .referenceAlreadyReversed (some w.shown)
    else t.judgeMovement w (t.kind.undoes r.kind) (some r.id)

/-- The transaction has waited long enough. -/
def exhausted (t : WagerTransactionRow) (now : Instant) : Bool :=
  maxAttempts ≤ t.attempts || t.expiresAt.any fun expiresAt => expiresAt ≤ now

end WagerTransactionRow

/-- What a judgement looks up. -/
structure Snapshot : Type where
  wallet : Text → Option WalletRow
  transaction : Text → Text → Option WagerTransactionRow
  reversed : Text → Bool

/-- What the tables hold. -/
def Database.snapshot (db : Database) : Snapshot where
  wallet := fun id => db.walletById (uuidText id)
  transaction := db.wagerByExternal
  reversed := hasActiveReversal db.wagers

namespace Snapshot

/-- The transaction that `t` refers to. -/
def reference (snap : Snapshot) (t : WagerTransactionRow) : Option WagerTransactionRow :=
  snap.transaction t.providerId (t.referenceExternalTransactionId.getD [])

/-- It, once it is settled; a transaction that refers to itself need not wait. -/
def decidable (snap : Snapshot) (t : WagerTransactionRow) : Option WagerTransactionRow :=
  (snap.reference t).filter fun r => r.id = t.id || r.status.isTerminal

/-- The link of a WIN to the BET that it names. -/
def link (snap : Snapshot) (t : WagerTransactionRow) : Except FailureCode (Option Text) :=
  if t.kind = .win ∧ t.referenceExternalTransactionId.isSome then
    match snap.decidable t with
    | none => .ok none
    | some r =>
      if r.kind ≠ .bet then .error .referenceMismatch
      else match t.mismatch r with
      | some code => .error code
      | none => .ok (some r.id)
  else .ok none

/-- The verdict on a new transaction, of a request that names a wallet and a player. -/
def judge (snap : Snapshot) (walletId playerId : Text) (t : WagerTransactionRow) : Verdict :=
  match snap.wallet walletId with
  | none => .refused .walletNotFound none
  | some w =>
    if w.playerId ≠ playerId then .refused .walletPlayerMismatch none
    else if w.currency ≠ t.currency then .refused .currencyMismatch (some w.shown)
    else if t.kind.isReversal then
      match snap.decidable t with
      | none => .waits w.shown
      | some r => t.judgeReversal r w (snap.reversed r.id)
    else match t.kind.baseDirection with
    -- a LOSS leaves its wallet alone
    | none => .processed none w.shown none
    | some direction =>
      match snap.link t with
      | .error code => .refused code (some w.shown)
      | .ok reference => t.judgeMovement w direction reference

section Cases

variable {snap : Snapshot} {walletId playerId : Text} {t : WagerTransactionRow} {w : WalletRow}

theorem judge_missing (hwallet : snap.wallet walletId = none) :
    snap.judge walletId playerId t = .refused .walletNotFound none := by
  unfold judge
  rw [hwallet]

theorem judge_foreign (hwallet : snap.wallet walletId = some w) (hplayer : w.playerId ≠ playerId) :
    snap.judge walletId playerId t = .refused .walletPlayerMismatch none := by
  unfold judge
  rw [hwallet]
  exact if_pos hplayer

theorem judge_currency (hwallet : snap.wallet walletId = some w) (hplayer : w.playerId = playerId)
    (hcurrency : w.currency ≠ t.currency) :
    snap.judge walletId playerId t = .refused .currencyMismatch (some w.shown) := by
  unfold judge
  rw [hwallet]
  exact (if_neg (not_not.mpr hplayer)).trans (if_pos hcurrency)

/-- The verdict on a reversal whose wallet is in order. -/
theorem judge_reversal (hwallet : snap.wallet walletId = some w) (hplayer : w.playerId = playerId)
    (hcurrency : w.currency = t.currency) (hkind : t.kind.isReversal = true) :
    snap.judge walletId playerId t =
      match snap.decidable t with
      | none => .waits w.shown
      | some r => t.judgeReversal r w (snap.reversed r.id) := by
  unfold judge
  rw [hwallet]
  exact (if_neg (not_not.mpr hplayer)).trans ((if_neg (not_not.mpr hcurrency)).trans (if_pos hkind))

/-- The verdict on any other transaction whose wallet is in order. -/
theorem judge_direct (hwallet : snap.wallet walletId = some w) (hplayer : w.playerId = playerId)
    (hcurrency : w.currency = t.currency) (hkind : ¬ t.kind.isReversal = true) :
    snap.judge walletId playerId t =
      match t.kind.baseDirection with
      | none => .processed none w.shown none
      | some direction =>
        match snap.link t with
        | .error code => .refused code (some w.shown)
        | .ok reference => t.judgeMovement w direction reference := by
  unfold judge
  rw [hwallet]
  exact (if_neg (not_not.mpr hplayer)).trans ((if_neg (not_not.mpr hcurrency)).trans (if_neg hkind))

end Cases

/-- The transaction that `t` refers to, once it is settled. -/
def settled (snap : Snapshot) (t : WagerTransactionRow) : Option WagerTransactionRow :=
  (snap.reference t).filter fun r => r.status.isTerminal

/-- The verdict on a reversal that has waited until its reference was settled, or
long enough. -/
def judgeDue (snap : Snapshot) (t : WagerTransactionRow) : Verdict :=
  match snap.wallet t.walletId with
  | none => .refused .walletNotFound none
  | some w =>
    match snap.settled t with
    | none =>
      .refused (if (snap.reference t).isNone then .referenceNotFound else .referenceNotProcessed)
        (some w.shown)
    | some r => t.judgeReversal r w (snap.reversed r.id)

/-- The verdict on a reversal that waits: none as long as it may go on waiting. -/
def judgeLate (snap : Snapshot) (now : Instant) (t : WagerTransactionRow) : Option Verdict :=
  if (snap.settled t).isNone && !t.exhausted now then none else some (snap.judgeDue t)

end Snapshot

/-! ## What the domain decides -/

section Domain

variable [Platform] {t r : WagerTransaction} {w w' : Wallet} {direction : LedgerDirection}

theorem bindingFailure_row (t r : WagerTransaction) :
    bindingFailure t r = (toWagerTransactionRow t).mismatch (toWagerTransactionRow r) := rfl

/-- The guard of a movement throws unless the currencies agree. -/
theorem movementFailure_currency {failure : Option FailureCode}
    (h : movementFailure w t direction = .ok failure) : t.money.currency = w.currency := by
  have hcurrency : ∀ {u : Unit}, w.assertSameCurrency t.money = .ok u →
      t.money.currency = w.currency := by
    intro u hassert
    unfold Wallet.assertSameCurrency at hassert
    split at hassert
    · assumption
    · cases hassert
  unfold movementFailure at h
  cases direction with
  | debit =>
    obtain ⟨enough, henough, -⟩ := bind_ok h
    obtain ⟨u, hassert, -⟩ := bind_ok henough
    exact hcurrency hassert
  | credit =>
    obtain ⟨room, hroom, -⟩ := bind_ok h
    obtain ⟨u, hassert, -⟩ := bind_ok hroom
    exact hcurrency hassert

/-- The guard of a movement, on the rows. -/
theorem judgeMovement_guard {failure : Option FailureCode} (hw : w.Storable)
    (hpos : 0 < t.money.cents) (h : movementFailure w t direction = .ok failure)
    (reference : Option Text) :
    (toWagerTransactionRow t).judgeMovement (toWalletRow w) direction reference =
      .guarded failure (toWalletRow w).shown
        (.processed reference (w.movedCents direction t.money, w.currency) (some direction)) := by
  have hcan := Wallet.canMove_eq direction hw.currency (movementFailure_currency h)
  have hnonneg := hw.nonneg
  have hrange := w.balance.inRange
  unfold WagerTransactionRow.judgeMovement Wallet.movedCents
  cases direction with
  | debit =>
    simp only [Wallet.canMove] at hcan
    simp only [movementFailure, hcan, bind, Except.bind, pure, Except.pure, Except.ok.injEq] at h
    subst h
    have hroom : ¬ (maxAbsolute : Int) < w.balance.cents + -t.money.cents := by omega
    by_cases henough : t.money.cents ≤ w.balance.cents
    · have hfunds : ¬ w.balance.cents + -t.money.cents < 0 := by omega
      simp [toWagerTransactionRow, toWalletRow, LedgerDirection.signed, Verdict.guarded, henough,
        hfunds, hroom]
    · have hshort : w.balance.cents + -t.money.cents < 0 := by omega
      simp [toWagerTransactionRow, toWalletRow, LedgerDirection.signed, Verdict.guarded, henough,
        hshort, WagerTransaction.overdraftFailureCode, WagerTransaction.requiresReference]
      rfl
  | credit =>
    simp only [Wallet.canMove] at hcan
    simp only [movementFailure, hcan, bind, Except.bind, pure, Except.pure, Except.ok.injEq] at h
    subst h
    have hfunds : ¬ w.balance.cents + t.money.cents < 0 := by omega
    by_cases hroom : (w.balance.cents + t.money.cents).natAbs ≤ maxAbsolute
    · have hbelow : ¬ (maxAbsolute : Int) < w.balance.cents + t.money.cents := by omega
      simp [toWagerTransactionRow, toWalletRow, LedgerDirection.signed, Verdict.guarded, hroom,
        hfunds, hbelow]
    · have habove : (maxAbsolute : Int) < w.balance.cents + t.money.cents := by omega
      simp [toWagerTransactionRow, toWalletRow, LedgerDirection.signed, Verdict.guarded, hroom,
        hfunds, habove]

/-- The rules of a reversal, on the rows. -/
theorem judgeReversal_rules {failure : Option FailureCode} {w : WalletRow} {reversed : Bool}
    (h : reversalFailure t r = .ok failure) :
    (toWagerTransactionRow t).judgeReversal (toWagerTransactionRow r) w reversed =
      .guarded failure w.shown
        (if reversed then .refused .referenceAlreadyReversed (some w.shown)
        else (toWagerTransactionRow t).judgeMovement w (t.kind.undoes r.kind) (some r.id)) := by
  unfold reversalFailure at h
  unfold WagerTransactionRow.judgeReversal
  rw [← bindingFailure_row]
  split at h
  · rename_i hkind
    cases h
    exact if_pos hkind
  · rename_i hkind
    rw [if_neg (show ¬ (toWagerTransactionRow r).kind ∉
      (toWagerTransactionRow t).kind.reversibleKinds from hkind)]
    split at h
    · rename_i code hcode
      cases h
      rw [hcode]
      rfl
    · rename_i hbound
      have hcurrency := (bindingFailure_eq_none.mp hbound).currency
      simp only [Money.equals, Money.assertSameCurrency, hcurrency, if_true, bind, Except.bind, pure,
        Except.pure, Except.ok.injEq] at h
      rw [hbound]
      by_cases hamount : r.money.cents = t.money.cents
      · simp only [hamount, decide_true, if_true] at h
        subst h
        exact if_neg (not_not.mpr hamount)
      · simp only [hamount, decide_false, Bool.false_eq_true, if_false] at h
        subst h
        exact if_pos hamount

/-- The direction of a reversal that keeps to the rules. -/
theorem ledgerDirectionFor_undoes (hkind : r.kind ∈ t.kind.reversibleKinds)
    (h : t.ledgerDirectionFor (some r) = .ok direction) : direction = t.kind.undoes r.kind := by
  obtain ⟨direction', hdirection, hundoes⟩ := ledgerDirectionFor_ok hkind
  obtain rfl := Except.ok.inj (hdirection.symm.trans h)
  cases hk : t.kind with
  | refund =>
    rw [hk] at hundoes
    rcases hundoes with hbase | ⟨hrollback, -⟩
    · cases hbase
      rfl
    · cases hrollback
  | rollback =>
    rw [hk] at hkind hundoes
    rcases hundoes with hbase | ⟨-, hopposite⟩
    · cases hbase
    · simp only [WagerTransactionKind.reversibleKinds, List.mem_cons, List.not_mem_nil,
        or_false] at hkind
      rcases hkind with hr | hr | hr
      all_goals
        rw [hr] at hopposite ⊢
        cases direction' <;> first | rfl | cases hopposite
  | _ =>
    rw [hk] at hkind
    cases hkind

end Domain

end Wagering
