import Wagering.Isolation.LockOrder

/-!
# Every unit keeps to the order of locks

Function by function: each makes its calls in the order of the stages, writes
only rows of its own, and links only references that it has seen settled.
-/

namespace Wagering

open Interleave

variable [Platform] {α β : Type} {s : LockState}

/-- The code keeps to the order, from `s` on. -/
abbrev Keeps (code : Code α) (s : LockState) : Prop := code.Follows lockOrder (fun _ _ => True) s

theorem keeps_call {op : Op} {f : op.Answer → Code β} (hallows : s.Allows op)
    (h : ∀ answer, Keeps (f answer) (s.next op answer)) : Keeps (call op >>= f) s :=
  Program.follows_call hallows h

theorem keeps_domain {x : Except DomainError α} {f : α → Code β}
    (h : ∀ a, x = .ok a → Keeps (f a) s) : Keeps (domain x >>= f) s := by
  cases x with
  | ok a => exact h a rfl
  | error e => exact trivial

theorem keeps_bind {p : Code α} {f : α → Code β}
    (h : p.Follows lockOrder (fun s a => Keeps (f a) s) s) : Keeps (p >>= f) s :=
  Program.follows_bind h

/-! ## The transaction in hand -/

/-- The transaction is the unit's own, and its reference is settled. -/
structure LockState.Has (s : LockState) (t : WagerTransaction) : Prop where
  own : .wagerId t.id ∈ s.mine ∨ t.id ∈ s.generated
  linked : ∀ id ∈ t.referenceTransactionId, id ∈ s.settled

theorem LockState.Has.of_eq {t t' : WagerTransaction} (h : s.Has t) (hid : t'.id = t.id)
    (hreference : t'.referenceTransactionId = t.referenceTransactionId) : s.Has t' :=
  ⟨hid ▸ h.own, fun id hmem => h.linked id (hreference ▸ hmem)⟩

theorem LockState.has_learn (s : LockState) (t : WagerTransaction) :
    ((s.own (.wagerId t.id)).learn t).Has t := by
  refine ⟨.inl List.mem_cons_self, fun id hid => ?_⟩
  exact List.mem_append_left _ (Option.mem_toList.mpr hid)

theorem LockState.has_learned {t u : WagerTransaction} (h : s.Has t) : (s.learn u).Has t := by
  refine ⟨h.own, fun id hid => List.mem_append_right _ ?_⟩
  split
  · exact List.mem_cons_of_mem _ (h.linked id hid)
  · exact h.linked id hid

theorem LockState.has_found {t : WagerTransaction} (h : s.Has t) (provider external : Text)
    (reference : Option WagerTransaction) :
    (s.next (.findByExternalId provider external) reference).reached = s.reached ∧
      (s.next (.findByExternalId provider external) reference).Has t := by
  cases reference with
  | none => exact ⟨rfl, h⟩
  | some reference => exact ⟨rfl, has_learned h⟩

/-- A transaction that was read as settled can be linked. -/
theorem LockState.settled_learn (s : LockState) {t : WagerTransaction}
    (h : t.isTerminal = true) : t.id ∈ (s.learn t).settled := by
  refine List.mem_append_right _ ?_
  rw [if_pos h]
  exact List.mem_cons_self

/-! ## Transitions keep the identifier and the link -/

theorem markProcessed_same {t t' : WagerTransaction} {reference : Option Text} {balance : Money}
    {at_ : Instant} (h : t.markProcessed reference balance at_ = .ok t') :
    t'.id = t.id ∧ t'.referenceTransactionId = reference := by
  obtain ⟨-, -, h⟩ := bind_ok h
  cases h
  exact ⟨rfl, rfl⟩

theorem markPendingReference_same {t t' : WagerTransaction} {balance : Money}
    {next expires : Instant} (h : t.markPendingReference balance next expires = .ok t') :
    t'.id = t.id ∧ t'.referenceTransactionId = t.referenceTransactionId := by
  obtain ⟨-, -, h⟩ := bind_ok h
  split at h
  · cases h
  · cases h
    exact ⟨rfl, rfl⟩

theorem reject_same {t t' : WagerTransaction} {code : FailureCode} {balance : Option Money}
    {at_ : Instant} (h : t.reject code balance at_ = .ok t') :
    t'.id = t.id ∧ t'.referenceTransactionId = t.referenceTransactionId := by
  obtain ⟨-, -, h⟩ := bind_ok h
  split at h
  · cases h
  · split at h
    · cases h
    · split at h
      · cases h
      · cases h
        exact ⟨rfl, rfl⟩

theorem fail_same {t t' : WagerTransaction} {balance : Money} {at_ : Instant}
    (h : t.fail balance at_ = .ok t') :
    t'.id = t.id ∧ t'.referenceTransactionId = t.referenceTransactionId := by
  obtain ⟨-, -, h⟩ := bind_ok h
  cases h
  exact ⟨rfl, rfl⟩

theorem scheduleRetry_same {t t' : WagerTransaction} {next : Instant}
    (h : t.scheduleRetry next = .ok t') :
    t'.id = t.id ∧ t'.referenceTransactionId = t.referenceTransactionId := by
  unfold WagerTransaction.scheduleRetry at h
  split at h
  · cases h
  · cases h
    exact ⟨rfl, rfl⟩

theorem move_same {w w' : Wallet} {direction : LedgerDirection} {props : MovementProps}
    {entry : WalletLedgerEntry} (h : w.move direction props = .ok (entry, w')) : w'.id = w.id := by
  have happly : ∀ {after : Money}, w.apply direction after props = .ok (entry, w') →
      w'.id = w.id := by
    intro after happly
    obtain ⟨e, -, happly⟩ := bind_ok happly
    cases happly
    rfl
  cases direction with
  | credit =>
    obtain ⟨-, -, h⟩ := bind_ok h
    obtain ⟨after, -, h⟩ := bind_ok h
    exact happly h
  | debit =>
    obtain ⟨-, -, h⟩ := bind_ok h
    obtain ⟨enough, -, h⟩ := bind_ok h
    split at h
    · cases h
    · obtain ⟨after, -, h⟩ := bind_ok h
      exact happly h

/-! ## Submissions -/

theorem keeps_process {t : WagerTransaction} {wallet : Wallet} {entry : Option WalletLedgerEntry}
    {now : Instant} {context : EventContext} {reference : Option Text} (hreached : s.reached < 5)
    (hhas : s.Has t) (hwallet : entry.isSome = true → .walletId wallet.id ∈ s.mine)
    (hlinked : ∀ id ∈ reference, id ∈ s.settled) :
    Keeps (process t wallet entry now context reference) s := by
  refine keeps_domain fun t' ht' => ?_
  obtain ⟨hid, hreference⟩ := markProcessed_same ht'
  refine keeps_call ⟨hreached, hid ▸ hhas.own, fun id hmem => hlinked id (hreference ▸ hmem)⟩
    fun _ => ?_
  cases entry with
  | none => exact keeps_call ⟨Nat.le_refl 5, Nat.le_succ 5⟩ fun _ => trivial
  | some entry =>
    refine keeps_call ⟨Nat.le_refl 5, Nat.le_succ 5⟩ fun _ => ?_
    refine keeps_call (hwallet rfl) fun _ => ?_
    refine keeps_call trivial fun _ => ?_
    exact keeps_call ⟨Nat.le_succ 5, Nat.le_refl 6⟩ fun _ => trivial

theorem keeps_reject {t : WagerTransaction} {code : FailureCode} {balance : Option Money}
    {now : Instant} {context : EventContext} (hreached : s.reached < 5) (hhas : s.Has t) :
    Keeps (reject t code balance now context) s := by
  refine keeps_domain fun t' ht' => ?_
  obtain ⟨hid, hreference⟩ := reject_same ht'
  have hhas' := hhas.of_eq hid hreference
  refine keeps_call ⟨hreached, hhas'.own, hhas'.linked⟩ fun _ => ?_
  exact keeps_call ⟨Nat.le_refl 5, Nat.le_succ 5⟩ fun _ => trivial

/-- `move`: the wallet that it leads to is the same wallet. -/
theorem keeps_move {w : Wallet} {t : WagerTransaction} {direction : LedgerDirection}
    {now : Instant} {f : WalletLedgerEntry × Wallet → Code β}
    (h : ∀ id entry w', w'.id = w.id →
      Keeps (f (entry, w')) { s with generated := id :: s.generated }) :
    Keeps (move w t direction now >>= f) s := by
  refine ⟨trivial, fun id => ?_⟩
  refine keeps_domain fun moved hmoved => ?_
  obtain ⟨entry, w'⟩ := moved
  exact h id entry w' (move_same hmoved)

theorem keeps_applyResolvedReversal {t reference : WagerTransaction} {wallet : Wallet}
    {now : Instant} {context : EventContext} (hreached : s.reached < 5) (hhas : s.Has t)
    (hwallet : .walletId wallet.id ∈ s.mine)
    (hread : reference.isTerminal = true → reference.id ∈ s.settled) :
    Keeps (applyResolvedReversal t reference wallet now context) s := by
  refine keeps_domain fun failure hfailure => ?_
  cases failure with
  | some failure => exact keeps_reject hreached hhas
  | none =>
    have hterminal : reference.isTerminal = true := by
      rw [WagerTransaction.isTerminal, (reversalFailure_eq_none.mp hfailure).2.1.processed]
      rfl
    refine keeps_call trivial fun alreadyReversed => ?_
    split
    · exact keeps_reject hreached hhas
    · refine keeps_domain fun direction _ => ?_
      refine keeps_domain fun rejection _ => ?_
      cases rejection with
      | some rejection => exact keeps_reject hreached hhas
      | none =>
        refine keeps_move fun id entry w' hid => ?_
        refine keeps_process hreached
          ⟨hhas.own.imp_right (List.mem_cons_of_mem _), hhas.linked⟩
          (fun _ => hid ▸ hwallet) fun id hmem => ?_
        cases hmem
        exact hread hterminal

theorem keeps_applyReversal {t : WagerTransaction} {wallet : Wallet} {now : Instant}
    {context : EventContext} (hreached : s.reached < 5) (hhas : s.Has t)
    (hwallet : .walletId wallet.id ∈ s.mine) :
    Keeps (applyReversal t wallet now context) s := by
  refine keeps_call hreached fun reference => ?_
  have hwaits : ∀ {s' : LockState}, s'.reached < 5 → s'.Has t → Keeps (do
      let t ← domain (t.markPendingReference wallet.balance
        (now + firstRetryDelayMs) (now + pendingReferenceTtlMs))
      call (.updateWager t)
      call (.enqueue [wagerTransactionPendingReference t context] now)
      pure (resultOf t false)) s' := by
    intro s' hreached' hhas'
    refine keeps_domain fun t' ht' => ?_
    obtain ⟨hid, hreference⟩ := markPendingReference_same ht'
    have hhas'' := hhas'.of_eq hid hreference
    refine keeps_call ⟨hreached', hhas''.own, hhas''.linked⟩ fun _ => ?_
    exact keeps_call ⟨Nat.le_refl 5, Nat.le_succ 5⟩ fun _ => trivial
  cases reference with
  | none => exact hwaits hreached hhas
  | some reference =>
    have hhas' : (s.learn reference).Has t := LockState.has_learned hhas
    by_cases hdecidable : isDecidable t reference = true
    · simp only [Option.filter_some, hdecidable, if_true]
      exact keeps_applyResolvedReversal hreached hhas' hwallet
        fun hterminal => s.settled_learn hterminal
    · simp only [Option.filter_some, hdecidable, Bool.false_eq_true, if_false]
      exact hwaits hreached hhas'

theorem winReferenceFailure_terminal {win reference : WagerTransaction}
    (h : winReferenceFailure win reference = none) : reference.isTerminal = true := by
  unfold winReferenceFailure at h
  split at h
  · cases h
  · rw [WagerTransaction.isTerminal, (bindingFailure_eq_none.mp h).processed]
    rfl

/-- `resolveOptionalReference`: a reference that it returns is settled. -/
theorem keeps_resolveOptionalReference {t : WagerTransaction}
    {f : Except FailureCode (Option Text) → Code β} (hreached : s.reached < 5) (hhas : s.Has t)
    (h : ∀ s' result, s'.reached = s.reached → s'.mine = s.mine → s'.Has t →
      (∀ id, result = .ok (some id) → id ∈ s'.settled) → Keeps (f result) s') :
    Keeps (resolveOptionalReference t >>= f) s := by
  refine keeps_bind ?_
  unfold resolveOptionalReference
  split
  · refine Program.follows_call hreached fun reference => ?_
    cases reference with
    | none => exact h s (.ok none) rfl rfl hhas fun id hid => by cases hid
    | some reference =>
      have hhas' : (s.learn reference).Has t := LockState.has_learned hhas
      by_cases hdecidable : isDecidable t reference = true
      · cases hfailure : winReferenceFailure t reference with
        | some failure =>
          simp only [Option.filter_some, hdecidable, if_true, hfailure]
          exact h (s.learn reference) (.error failure) rfl rfl hhas' fun id hid => by cases hid
        | none =>
          simp only [Option.filter_some, hdecidable, if_true, hfailure]
          refine h (s.learn reference) (.ok (some reference.id)) rfl rfl hhas' fun id hid => ?_
          cases hid
          exact s.settled_learn (winReferenceFailure_terminal hfailure)
      · simp only [Option.filter_some, hdecidable, Bool.false_eq_true, if_false]
        exact h (s.learn reference) (.ok none) rfl rfl hhas' fun id hid => by cases hid
  · exact h s (.ok none) rfl rfl hhas fun id hid => by cases hid

theorem keeps_applyLocked {t : WagerTransaction} {command : SubmitWagerCommand} {now : Instant}
    {context : EventContext} {wallet : Wallet} (hreached : s.reached < 5) (hhas : s.Has t)
    (hwallet : .walletId wallet.id ∈ s.mine) :
    Keeps (applyLocked t command now context wallet) s := by
  unfold applyLocked
  split
  · exact keeps_reject hreached hhas
  · split
    · exact keeps_reject hreached hhas
    · split
      · exact keeps_applyReversal hreached hhas hwallet
      · split
        · exact keeps_process hreached hhas (fun h => by cases h) fun id hid => by cases hid
        · refine keeps_resolveOptionalReference hreached hhas
            fun s' result hreached' hmine hhas' hsettled => ?_
          rw [← hreached'] at hreached
          cases result with
          | error failure => exact keeps_reject hreached hhas'
          | ok referenceId =>
            refine keeps_domain fun direction _ => ?_
            refine keeps_domain fun rejection _ => ?_
            cases rejection with
            | some rejection => exact keeps_reject hreached hhas'
            | none =>
              refine keeps_move fun id entry w' hid => ?_
              refine keeps_process hreached
                ⟨hhas'.own.imp_right (List.mem_cons_of_mem _), hhas'.linked⟩
                (fun _ => ?_) fun id hmem => ?_
              · rw [hid]
                exact hmine ▸ hwallet
              · rw [Option.mem_def.mp hmem] at hsettled
                exact hsettled id rfl

theorem keeps_apply {t : WagerTransaction} {command : SubmitWagerCommand} {now : Instant}
    (hreached : s.reached < 4) (hhas : s.Has t) : Keeps (apply t command now) s := by
  refine keeps_call trivial fun eventId => ?_
  refine keeps_call hreached fun wallet => ?_
  cases wallet with
  | none =>
    exact keeps_reject (Nat.lt_succ_self 4)
      ⟨hhas.own.imp_right (List.mem_cons_of_mem _), hhas.linked⟩
  | some wallet =>
    refine keeps_applyLocked (Nat.lt_succ_self 4) ⟨?_, hhas.linked⟩ List.mem_cons_self
    exact hhas.own.imp (List.mem_cons_of_mem _) (List.mem_cons_of_mem _)

theorem keeps_resolveExisting {command : SubmitWagerCommand} {payloadHash : Text}
    (hreached : s.reached < 5) : Keeps (resolveExisting command payloadHash) s := by
  refine keeps_call trivial fun byKey => ?_
  cases byKey with
  | some byKey =>
    simp only
    split <;> exact trivial
  | none =>
    refine keeps_call hreached fun byExternal => ?_
    cases byExternal <;> exact trivial

theorem keeps_executeWithin {command : SubmitWagerCommand} (hreached : s.reached < 2) :
    Keeps (executeWithin command) s := by
  refine keeps_domain fun money _ => ?_
  split
  · exact trivial
  · refine keeps_call trivial fun now => ?_
    refine keeps_call trivial fun id => ?_
    refine keeps_domain fun reserved hcreate => ?_
    obtain ⟨-, -, heq⟩ := WagerTransaction.reserve_ok (WagerTransaction.create_ok hcreate).2.2
    refine keeps_call ⟨hreached, by rw [heq], by rw [heq]; exact List.mem_cons_self⟩ fun owned => ?_
    cases owned with
    | none => exact keeps_resolveExisting (show 2 < 5 by decide)
    | some owned => exact keeps_apply (show 2 < 4 by decide) (LockState.has_learn _ owned)

theorem keeps_consumeWithin (delivery : InboxDelivery) (command : SubmitWagerCommand) :
    Keeps (consumeWithin delivery command) lockOrder.start := by
  refine keeps_call trivial fun receivedAt => ?_
  refine keeps_call (show 0 < 1 by decide) fun reserved => ?_
  cases reserved with
  | none =>
    refine keeps_call trivial fun existing => ?_
    cases existing with
    | none => exact trivial
    | some existing =>
      simp only
      split
      · exact trivial
      · split <;> exact trivial
  | some reserved =>
    refine keeps_bind (Program.follows_mono (keeps_executeWithin (show 1 < 2 by decide))
      fun s result _ => ?_)
    refine keeps_call trivial fun processedAt => ?_
    exact keeps_call trivial fun _ => trivial

/-! ## The other units -/

theorem keeps_createWallet (command : CreateWalletCommand) :
    Keeps (createWallet command) lockOrder.start := by
  refine keeps_domain fun initialBalance _ => ?_
  refine keeps_call trivial fun now => ?_
  refine keeps_call trivial fun walletId => ?_
  refine keeps_call trivial fun openingTransactionId => ?_
  refine keeps_call trivial fun openingEntryId => ?_
  refine keeps_domain fun opening _ => ?_
  refine keeps_call (show 0 < 1 by decide) fun created => ?_
  cases created with
  | none => exact keeps_call trivial fun existing => trivial
  | some created =>
    simp only
    split
    · exact trivial
    · refine keeps_domain fun t ht => ?_
      obtain ⟨-, -, heq⟩ := WagerTransaction.reserve_ok ht
      have hgenerated : t.id ∈ [openingEntryId, openingTransactionId, walletId] := by
        rw [heq]
        exact List.mem_cons_of_mem _ List.mem_cons_self
      refine keeps_call ⟨show 1 < 2 by decide, by rw [heq], hgenerated⟩ fun reserved => ?_
      refine keeps_domain fun t' ht' => ?_
      obtain ⟨hid, hreference⟩ := markProcessed_same ht'
      refine keeps_call ⟨?_, ?_, fun id hmem => ?_⟩ fun _ => ?_
      · cases reserved <;> exact show 2 < 5 by decide
      · rw [hid]
        cases reserved <;> exact .inr hgenerated
      · rw [hreference] at hmem
        cases hmem
      · refine keeps_call ⟨Nat.le_refl 5, Nat.le_succ 5⟩ fun _ => ?_
        refine keeps_call trivial fun eventId => ?_
        refine keeps_call trivial fun changedId => ?_
        exact keeps_call ⟨Nat.le_succ 5, Nat.le_refl 6⟩ fun _ => trivial

theorem keeps_recordRejected {t : WagerTransaction} {now : Instant} {context : EventContext}
    (hreached : s.reached < 5) (hhas : s.Has t) : Keeps (recordRejected t now context) s := by
  refine keeps_call ⟨hreached, hhas.own, hhas.linked⟩ fun _ => ?_
  exact keeps_call ⟨Nat.le_refl 5, Nat.le_succ 5⟩ fun _ => trivial

theorem keeps_settle {t : WagerTransaction} {now : Instant} (hreached : s.reached < 4)
    (hhas : s.Has t) : Keeps (settle t now) s := by
  refine keeps_call trivial fun eventId => ?_
  refine keeps_call hreached fun wallet => ?_
  cases wallet with
  | none =>
    refine keeps_domain fun t' ht' => ?_
    obtain ⟨hid, hreference⟩ := reject_same ht'
    refine keeps_recordRejected (Nat.lt_succ_self 4) (LockState.Has.of_eq ?_ hid hreference)
    exact ⟨hhas.own.imp_right (List.mem_cons_of_mem _), hhas.linked⟩
  | some wallet =>
    have hhas' : ((({ s with generated := eventId :: s.generated } : LockState).reach 4).own
        (.walletId wallet.id)).Has t :=
      ⟨hhas.own.imp (List.mem_cons_of_mem _) (List.mem_cons_of_mem _), hhas.linked⟩
    refine keeps_call (Nat.lt_succ_self 4) fun reference => ?_
    cases reference with
    | none =>
      refine keeps_domain fun t' ht' => ?_
      obtain ⟨hid, hreference⟩ := reject_same ht'
      exact keeps_recordRejected (Nat.lt_succ_self 4) (hhas'.of_eq hid hreference)
    | some reference =>
      have hlearned := LockState.has_learned (u := reference) hhas'
      by_cases hsettled : referenceIsSettled reference = true
      · simp only [Option.filter_some, hsettled, if_true]
        have hreversal : Keeps (applyResolvedReversal t reference wallet now
            (pendingContext t eventId now)) _ :=
          keeps_applyResolvedReversal (Nat.lt_succ_self 4) hlearned List.mem_cons_self
            fun hterminal => LockState.settled_learn _ hterminal
        exact keeps_bind (Program.follows_mono hreversal fun s result _ => trivial)
      · simp only [Option.filter_some, hsettled, Bool.false_eq_true, if_false]
        refine keeps_domain fun t' ht' => ?_
        obtain ⟨hid, hreference⟩ := reject_same ht'
        exact keeps_recordRejected (Nat.lt_succ_self 4) (hlearned.of_eq hid hreference)

theorem keeps_rescheduleReference {t : WagerTransaction} {now : Instant}
    (hreached : s.reached < 5) (hhas : s.Has t) : Keeps (rescheduleReference t now) s := by
  refine keeps_call trivial fun jitter => ?_
  refine keeps_domain fun t' ht' => ?_
  obtain ⟨hid, hreference⟩ := scheduleRetry_same ht'
  have hhas' := hhas.of_eq hid hreference
  exact keeps_call ⟨hreached, hhas'.own, hhas'.linked⟩ fun _ => trivial

theorem keeps_resolveDue : Keeps resolveDue lockOrder.start := by
  refine keeps_call trivial fun now => ?_
  refine keeps_call (show 0 < 3 by decide) fun pending => ?_
  cases pending with
  | none => exact trivial
  | some pending =>
    refine keeps_call trivial fun _ => ?_
    refine keeps_call (show 3 < 5 by decide) fun reference => ?_
    have hhas := LockState.has_learn (lockOrder.start.reach 3) pending
    obtain ⟨hreached, hhas'⟩ := LockState.has_found hhas pending.providerId
      (pending.referenceExternalTransactionId.getD []) reference
    split
    · exact keeps_rescheduleReference (hreached ▸ show 3 < 5 by decide) hhas'
    · exact keeps_settle (hreached ▸ show 3 < 4 by decide) hhas'

theorem keeps_recordFailure (id : Text) (error : Failure) :
    Keeps (recordFailure id error) lockOrder.start := by
  refine keeps_call trivial fun now => ?_
  refine keeps_call (show 0 < 3 by decide) fun pending => ?_
  cases pending with
  | none => exact trivial
  | some pending =>
    refine keeps_call (show 3 < 4 by decide) fun wallet => ?_
    cases wallet with
    | none => exact trivial
    | some wallet =>
      have hhas := LockState.has_learn (lockOrder.start.reach 3) pending
      simp only
      split
      · exact trivial
      · refine keeps_domain fun t' ht' => ?_
        obtain ⟨hid, hreference⟩ := fail_same ht'
        refine keeps_call trivial fun eventId => ?_
        refine keeps_recordRejected (Nat.lt_succ_self 4) (LockState.Has.of_eq ?_ hid hreference)
        exact ⟨hhas.own.imp (List.mem_cons_of_mem _) (List.mem_cons_of_mem _), hhas.linked⟩

/-! ## The units -/

theorem afterResolve_follows [Driver] (l : Local) (r : Except Failure Answer) :
    (afterResolve l r).Follows lockOrder := by
  unfold afterResolve
  split
  · exact trivial
  · split
    · exact trivial
    · split
      · exact trivial
      · exact ⟨Program.follows_map (keeps_recordFailure _ _), fun _ _ => trivial⟩

/-- Every unit of work keeps to the order of locks. -/
theorem units_follow [Driver] (entry : Entry) : (units entry).Follows lockOrder := by
  cases entry with
  | createWallet command =>
    exact ⟨Program.follows_map (keeps_createWallet command), fun _ _ => trivial⟩
  | submit command =>
    exact ⟨Program.follows_map (keeps_executeWithin (show 0 < 2 by decide)), fun _ _ => trivial⟩
  | consume delivery command =>
    exact ⟨Program.follows_map (keeps_consumeWithin delivery command), fun _ _ => trivial⟩
  | resolvePending =>
    exact ⟨Program.follows_map keeps_resolveDue, afterResolve_follows⟩

end Wagering
