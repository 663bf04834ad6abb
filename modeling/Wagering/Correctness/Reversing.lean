import Wagering.Correctness.Outcomes

/-!
# Reversals and movements at a locked wallet

`applyResolvedReversal`, the guard of a movement and the movement itself, for a
transaction whose wallet is locked.  No domain method throws here: each is
called under a guard that implies its preconditions.
-/

namespace Wagering

open Interleave

variable [Platform] {α : Type} {sh sh' : Shared} {l l' : Local} {t reference : WagerTransaction}
  {w : Wallet} {direction : LedgerDirection}
  {P : Shared → Local → SubmitWagerResult → Prop} {F : Shared → Local → Failure → Prop}
  {context : EventContext} {now : Instant}

/-! ## The guards -/

/-- A code that a rejection at a locked wallet may carry. -/
def FailureCode.atWallet (code : FailureCode) : Bool :=
  !code.disclosesNoBalance && decide (code ≠ .infrastructureFailure)

theorem bindingFailure_atWallet {code : FailureCode}
    (h : bindingFailure t reference = some code) : code.atWallet = true := by
  unfold bindingFailure at h
  repeat' split at h
  all_goals cases h
  all_goals rfl

theorem reversalFailure_atWallet {code : FailureCode}
    (h : reversalFailure t reference = .ok (some code)) : code.atWallet = true := by
  unfold reversalFailure at h
  split at h
  · cases h
    rfl
  · split at h
    case h_1 failure hb =>
      cases h
      exact bindingFailure_atWallet hb
    case h_2 hb =>
      simp only [Money.equals, Money.assertSameCurrency, (bindingFailure_eq_none.mp hb).currency,
        bind, Except.bind, pure, Except.pure, if_true, Except.ok.injEq] at h
      split at h <;> cases h
      rfl

theorem winReferenceFailure_atWallet {code : FailureCode}
    (h : winReferenceFailure t reference = some code) : code.atWallet = true := by
  unfold winReferenceFailure at h
  split at h
  · cases h
    rfl
  · exact bindingFailure_atWallet h

/-- In one currency the guard of a movement never throws, and what it lets
through can be moved. -/
theorem movementFailure_ok (direction : LedgerDirection) (hw : w.balance.currency = w.currency)
    (hm : t.money.currency = w.currency) :
    ∃ failure, movementFailure w t direction = .ok failure ∧
      (∀ code ∈ failure, code.atWallet = true) ∧
      (failure = none → w.canMove direction t.money = .ok true) := by
  have hcan := Wallet.canMove_eq direction hw hm
  cases direction with
  | debit =>
    simp only [Wallet.canMove] at hcan ⊢
    simp only [movementFailure, hcan, bind, Except.bind, pure, Except.pure]
    refine ⟨_, rfl, fun code hcode => ?_, fun h => ?_⟩
    · split at hcode
      · cases hcode
      · cases hcode
        rw [WagerTransaction.overdraftFailureCode]
        split <;> rfl
    · split at h
      · rename_i htrue
        rw [htrue]
      · cases h
  | credit =>
    simp only [Wallet.canMove] at hcan ⊢
    simp only [movementFailure, hcan, bind, Except.bind, pure, Except.pure]
    refine ⟨_, rfl, fun code hcode => ?_, fun h => ?_⟩
    · split at hcode
      · cases hcode
      · cases hcode
        rfl
    · split at h
      · rename_i htrue
        rw [htrue]
      · cases h

/-- The direction of a reversal is the opposite of its reference's. -/
theorem ledgerDirectionFor_ok (h : reference.kind ∈ t.kind.reversibleKinds) :
    ∃ direction, t.ledgerDirectionFor (some reference) = .ok direction ∧
      (t.kind.baseDirection = some direction ∨
        t.kind = .rollback ∧ reference.kind.baseDirection = some direction.opposite) := by
  have hrollback : ∀ {direction : LedgerDirection}, t.kind = .rollback →
      reference.ledgerDirection = .ok direction →
      t.ledgerDirectionFor (some reference) = .ok direction.opposite := by
    intro direction hk hdir
    simp only [WagerTransaction.ledgerDirectionFor, hk, hdir, bind, Except.bind, pure, Except.pure]
    cases direction <;> rfl
  cases hk : t.kind with
  | refund =>
    exact ⟨.credit,
      by simp [WagerTransaction.ledgerDirectionFor, WagerTransaction.ledgerDirection, hk],
      .inl rfl⟩
  | rollback =>
    rw [hk] at h
    simp only [WagerTransactionKind.reversibleKinds, List.mem_cons, List.not_mem_nil, or_false] at h
    rcases h with h | h | h
    · exact ⟨_, hrollback hk (by rw [WagerTransaction.ledgerDirection, h]),
        .inr ⟨rfl, by rw [h]; rfl⟩⟩
    · exact ⟨_, hrollback hk (by rw [WagerTransaction.ledgerDirection, h]),
        .inr ⟨rfl, by rw [h]; rfl⟩⟩
    · exact ⟨_, hrollback hk (by rw [WagerTransaction.ledgerDirection, h]),
        .inr ⟨rfl, by rw [h]; rfl⟩⟩
  | _ =>
    rw [hk] at h
    cases h

/-! ## At the wallet -/

/-- The transaction in hand and its own wallet, locked. -/
structure AtWallet (t : WagerTransaction) (w : Wallet) (sh : Shared) (l : Local) : Prop where
  hand : InHand t sh l
  hold : Holding w sh l
  id : w.id = t.walletId
  currency : w.currency = t.money.currency

theorem AtWallet.rely (h : AtWallet t w sh l) (hr : Rely l sh sh') : AtWallet t w sh' l :=
  ⟨h.hand.rely hr, h.hold.rely hr, h.id, h.currency⟩

theorem AtWallet.identified (h : AtWallet t w sh l) (id : Text) :
    AtWallet t w sh { l with ids := id :: l.ids } :=
  ⟨h.hand.extend rfl (fun _ h => h) fun _ h => List.mem_cons_of_mem _ h,
    ⟨h.hold.mem, h.hold.lock, h.hold.storable⟩, h.id, h.currency⟩

theorem AtWallet.lock (h : AtWallet t w sh l) : t.walletId ∈ l.wallets := h.id ▸ h.hold.lock

/-- A rejection that observed the wallet. -/
theorem wp_rejectAtWallet {code : FailureCode} (hand : InHand t sh l) (hold : Holding w sh l)
    (hid : w.id = t.walletId) (hcurrency : w.currency = t.money.currency ∨ code = .currencyMismatch)
    (huse : Usable context now l) (hcode : code.atWallet = true) (hF : Refusals F context)
    (hP : ∀ sh' l' result, Decided t l result sh' l' → P sh' l' result) :
    (reject t code (some w.balance) now context).wp discipline P F sh l := by
  simp only [FailureCode.atWallet, Bool.and_eq_true, Bool.not_eq_true', decide_eq_true_eq] at hcode
  refine wp_reject hand huse hcode.2 hcode.1 (fun m hm => ?_) hF hP
  cases hm
  refine ⟨hold.storable.nonneg, ?_, _, hold.mem, hid, hold.storable.currency.symm⟩
  exact hcurrency.imp_left hold.storable.currency.trans

/-- `move` and `process`, once the guard has let the movement through. -/
theorem wp_moveAndProcess {referenceId : Option Text} (h : AtWallet t w sh l)
    (hcan : w.canMove direction t.money = .ok true) (hent : Entitled t referenceId direction sh)
    (hself : referenceId ≠ some t.id) (huse : Usable context now l) (hF : Refusals F context)
    (hP : ∀ sh' l' result, Decided t l result sh' l' → P sh' l' result) :
    (move w t direction now >>= fun moved =>
      process t moved.2 (some moved.1) now context referenceId).wp discipline P F sh l := by
  have hpos : 0 < t.money.cents := h.hand.storable.positive
  rw [move, Program.bind_assoc_eq]
  refine wp_nextId fun sh1 hr1 hs1 ho1 entryId _ _ => ?_
  obtain ⟨balanceAfter, hcents, hnonneg, hcur, hmove⟩ := Wallet.move_eq
    { entryId, transactionId := t.id, money := t.money, at_ := now }
    h.hold.storable.currency h.currency.symm hpos h.hold.storable.nonneg
    (Instant.isReading_isFinite huse.now) hcan
  rw [hmove, domain_ok, Program.pure_ctor_bind_eq]
  have h1 := (h.rely hr1).identified entryId
  refine wp_process_moved h1.hand h1.hold ?_ (hent.rely hr1 hs1 h.lock) List.mem_cons_self hself
    ⟨List.mem_cons_of_mem _ huse.eventId, huse.occurredAt, huse.now⟩ hF
    fun sh' l' result hd => hP _ _ _ ?_
  · exact
      { walletId := h.id
        currency := h.currency
        entryWallet := rfl
        entryTransaction := rfl
        money := rfl
        before := rfl
        after := rfl
        createdAt := rfl
        arithmetic := hcents
        nonneg := hnonneg
        balanceCurrency := hcur
        moved := rfl }
  · exact { hd with follows := ((Local.Follows.refl l).identified entryId).trans hd.follows }

/-! ## Reversals -/

/-- The reference as a reversal sees it: settled, or the reversal itself. -/
inductive Refers (t reference : WagerTransaction) (sh : Shared) : Prop
  | settled (mem : toWagerTransactionRow reference ∈ sh.db.wagers)
    (status : reference.status.isTerminal = true)
  | itself (kind : reference.kind = t.kind)

theorem Refers.rely (h : Refers t reference sh) (hr : Rely l sh sh') : Refers t reference sh' := by
  cases h with
  | settled mem status => exact .settled (hr.terminal _ mem status) status
  | itself kind => exact .itself kind

/-- A reversible reference is another transaction, and it is committed. -/
theorem Refers.reverses (h : Refers t reference sh)
    (hkind : reference.kind ∈ t.kind.reversibleKinds) (hbound : Bound t reference)
    (hcents : reference.money.cents = t.money.cents) :
    toWagerTransactionRow reference ∈ sh.db.wagers ∧
      Reverses (toWagerTransactionRow t) (toWagerTransactionRow reference) := by
  cases h with
  | settled mem =>
    exact ⟨mem, hbound.processed, hkind, hbound.provider, hbound.player, hbound.wallet,
      hbound.round, hbound.currency, hcents⟩
  | itself kind =>
    rw [kind] at hkind
    cases hk : t.kind <;> simp [hk, WagerTransactionKind.reversibleKinds] at hkind

theorem Entitled.of_reverses {r : WagerTransactionRow} (hr : r ∈ sh.db.wagers)
    (hrev : Reverses (toWagerTransactionRow t) r) (hfree : hasActiveReversal sh.db.wagers r.id = false)
    (hdir : t.kind.baseDirection = some direction ∨
      t.kind = .rollback ∧ r.kind.baseDirection = some direction.opposite) :
    Entitled t (some r.id) direction sh where
  reversal := fun _ => ⟨r, hr, rfl, hrev, hfree⟩
  linked := fun id hid => by
    cases hid
    exact ⟨r, hr, rfl, hrev.processed⟩
  directed := hdir.imp_right fun ⟨hk, hbase⟩ => ⟨hk, r, hr, rfl, hrev.processed, hbase⟩

/-- `applyResolvedReversal`. -/
theorem wp_applyResolvedReversal (h : AtWallet t w sh l) (href : Refers t reference sh)
    (huse : Usable context now l) (hF : Refusals F context)
    (hP : ∀ sh' l' result, Decided t l result sh' l' → P sh' l' result) :
    (applyResolvedReversal t reference w now context).wp discipline P F sh l := by
  obtain ⟨failure, hfailure⟩ := reversalFailure_ok t reference
  rw [applyResolvedReversal, hfailure, domain_ok, Program.pure_ctor_bind_eq]
  have hreject : ∀ {sh' : Shared} {code : FailureCode}, AtWallet t w sh' l →
      code.atWallet = true →
      (reject t code (some w.balance) now context).wp discipline P F sh' l :=
    fun h hcode => wp_rejectAtWallet h.hand h.hold h.id (.inl h.currency) huse hcode hF hP
  cases failure with
  | some code => exact hreject h (reversalFailure_atWallet hfailure)
  | none =>
    obtain ⟨hreversible, hbound, hcents⟩ := reversalFailure_eq_none.mp hfailure
    refine wp_hasActiveReversal fun sh1 hr1 hs1 ho1 => ?_
    have h1 := h.rely hr1
    obtain ⟨hmem, hrev⟩ := (href.rely hr1).reverses hreversible hbound hcents
    rw [h1.hand.view_hasActiveReversal]
    cases hactive : hasActiveReversal sh1.db.wagers reference.id with
    | true => exact hreject h1 rfl
    | false =>
      obtain ⟨direction, hdirection, hdir⟩ := ledgerDirectionFor_ok hreversible
      obtain ⟨rejection, hrejection, hcode, hcan⟩ := movementFailure_ok direction
        h.hold.storable.currency h.currency.symm
      simp only [Bool.false_eq_true, if_false, hdirection, hrejection, domain_ok,
        Program.pure_ctor_bind_eq]
      cases rejection with
      | some code => exact hreject h1 (hcode code rfl)
      | none =>
        refine wp_moveAndProcess h1 (hcan rfl) (.of_reverses hmem hrev hactive hdir) ?_ huse hF hP
        have hne := h1.hand.ne_of_terminal hs1 ho1 hmem (by rw [hrev.processed]; rfl)
        exact fun heq => hne (Option.some.inj heq)

end Wagering
