import Wagering.Correctness.Reversing

/-!
# Applying a reserved transaction

`apply`: every branch of a submission that owns its transaction, up to the
decision that it commits.
-/

namespace Wagering

open Interleave

variable [Platform] {α : Type} {sh sh' : Shared} {l l' : Local} {t reference : WagerTransaction}
  {w : Wallet} {command : SubmitWagerCommand}
  {P : Shared → Local → SubmitWagerResult → Prop} {F : Shared → Local → Failure → Prop}
  {context : EventContext} {now : Instant}

theorem Decided.from {l₁ : Local} {result : SubmitWagerResult} (h : l.Follows l₁)
    (hd : Decided t l₁ result sh' l') : Decided t l result sh' l' :=
  { hd with follows := h.trans hd.follows }

/-- The transaction that a lookup found, as a reversal sees it. -/
theorem InHand.refers (hand : InHand t sh l) (ho : Own sh l) (hstatus : t.status = .pending)
    {row : Option WagerTransactionRow} {answer : Option WagerTransaction} (hreads : Reads answer row)
    (hrow : ∀ r ∈ row, r ∈ (l.view sh.db).wagers)
    (h : answer.filter (isDecidable t) = some reference) : Refers t reference sh := by
  rw [Option.filter_eq_some_iff] at h
  obtain ⟨rfl, hdecidable⟩ := h
  have hmem := hrow (toWagerTransactionRow reference) hreads.row.symm
  rcases hand.mem_view.mp hmem with hmem | heq
  · simp only [isDecidable, Bool.or_eq_true, decide_eq_true_eq] at hdecidable
    rcases hdecidable with hid | hsettled
    · exact absurd hid (hand.fresh ho hstatus _ hmem)
    · exact .settled hmem hsettled
  · exact .itself (congrArg WagerTransactionRow.kind heq)

/-- The reference that a WIN names, if it is settled. -/
theorem wp_resolveOptionalReference {P : Shared → Local → α → Prop}
    {f : Except FailureCode (Option Text) → Code α} (hand : InHand t sh l)
    (hstatus : t.status = .pending)
    (h : ∀ sh', Rely l sh sh' → Sound sh' → Own sh' l →
      (∀ code : FailureCode, code.atWallet = true → (f (.error code)).wp discipline P F sh' l) ∧
      ∀ referenceId : Option Text,
        (∀ id ∈ referenceId, ∃ r ∈ sh'.db.wagers, r.id = id ∧ r.status = .processed) →
        (f (.ok referenceId)).wp discipline P F sh' l) :
    (resolveOptionalReference t >>= f).wp discipline P F sh l := by
  unfold resolveOptionalReference
  split
  case h_1 external hkind hexternal =>
    rw [Program.bind_assoc_eq]
    refine wp_findByExternalId fun sh1 hr1 hs1 ho1 => ?_
    have hand1 := hand.rely hr1
    refine ⟨hand1.view_valid hs1, fun answer hreads => ?_⟩
    obtain ⟨herror, hok⟩ := h sh1 hr1 hs1 ho1
    cases hfilter : answer.filter (isDecidable t) with
    | none => exact hok none fun id hid => by cases hid
    | some reference =>
      have href := hand1.refers ho1 hstatus hreads (fun r hr => Keyed.mem_of_lookup hr) hfilter
      cases hwin : winReferenceFailure t reference with
      | some code =>
        simpa only [hwin, Program.pure_bind_eq] using
          herror code (winReferenceFailure_atWallet hwin)
      | none =>
        simp only [hwin]
        refine hok (some reference.id) fun id hid => ?_
        cases hid
        unfold winReferenceFailure at hwin
        split at hwin
        · cases hwin
        · rename_i hbet
          cases href with
          | settled mem =>
            exact ⟨_, mem, rfl, (bindingFailure_eq_none.mp hwin).processed⟩
          | itself kind =>
            rw [hkind] at kind
            simp [kind] at hbet
  case h_2 =>
    refine Program.wp_intro fun sh1 hr1 hs1 ho1 => ?_
    exact (h sh1 hr1 hs1 ho1).2 none fun id hid => by cases hid

theorem ledgerDirection_ok (hloss : t.kind ≠ .loss) (hreversal : t.kind.isReversal = false) :
    ∃ direction, t.ledgerDirection = .ok direction ∧ t.kind.baseDirection = some direction := by
  unfold WagerTransaction.ledgerDirection
  cases hk : t.kind with
  | loss => exact absurd hk hloss
  | refund => rw [hk] at hreversal; cases hreversal
  | rollback => rw [hk] at hreversal; cases hreversal
  | _ => exact ⟨_, rfl, rfl⟩

/-- `applyReversal`. -/
theorem wp_applyReversal (h : AtWallet t w sh l) (hstatus : t.status = .pending)
    (hkind : t.kind.isReversal = true) (huse : Usable context now l) (hF : Refusals F context)
    (hP : ∀ sh' l' result, Decided t l result sh' l' → P sh' l' result) :
    (applyReversal t w now context).wp discipline P F sh l := by
  refine wp_findByExternalId fun sh1 hr1 hs1 ho1 => ?_
  have h1 := h.rely hr1
  refine ⟨h1.hand.view_valid hs1, fun answer hreads => ?_⟩
  cases hfilter : answer.filter (isDecidable t) with
  | some reference =>
    exact wp_applyResolvedReversal h1
      (h1.hand.refers ho1 hstatus hreads (fun r hr => Keyed.mem_of_lookup hr) hfilter) huse hF hP
  | none =>
    have hnow := Instant.isReading_isTimestamp huse.now
    have hvalid := h1.hand.waiting.pendingReference hkind h1.hand.unresolved h1.hold.storable.nonneg
      (Instant.isReading_timestamp huse.now (by decide) (by decide) :
        (now + firstRetryDelayMs).isTimestamp = true)
      (Instant.isReading_timestamp huse.now (by decide) (by decide) :
        (now + pendingReferenceTtlMs).isTimestamp = true)
    have hwallet : ∀ sh', Rely l sh1 sh' →
        ∃ w' ∈ sh'.db.wallets, w'.id = t.walletId ∧ w'.currency = t.money.currency :=
      fun sh' hr => ⟨_, (h1.hold.rely hr).mem, h.id, h.currency⟩
    rw [WagerTransaction.markPendingReference_eq hstatus hkind, domain_ok,
      Program.pure_ctor_bind_eq]
    refine wp_still h1.hand rfl (.inr ⟨hstatus, rfl⟩) (.inl ⟨rfl, fun _ => hstatus⟩) hvalid
      (fun sh' hr ho => ?_)
      (fun h => by cases h) h1.hand.unresolved (fun h => by cases h) (fun m hm => ?_) ⟨rfl, rfl⟩
      huse.eventId huse.occurredAt hnow (fun s hs => hF.payload hs) fun sh' l' hc hf => ?_
    · exact .awaits rfl hkind h1.hand.unresolved rfl (hwallet sh' hr)
        ((h1.hand.rely hr).fresh ho hstatus)
    · cases hm
      exact ⟨_, h1.hold.mem, h.id, h.hold.storable.currency.symm⟩
    · refine wp_pure fun sh'' hr hs ho => hP _ _ _ ⟨hf, _, _, hc.rely hr hs ho, rfl, ?_, ?_, rfl⟩
      · exact InHand.identity rfl
      · exact .inr (.inr ⟨hstatus, rfl⟩)

/-- `apply`, once it has found the wallet. -/
theorem wp_applyLocked (hand : InHand t sh l) (hold : Holding w sh l) (hstatus : t.status = .pending)
    (hid : w.id = t.walletId) (huse : Usable context now l) (hF : Refusals F context)
    (hP : ∀ sh' l' result, Decided t l result sh' l' → P sh' l' result) :
    (applyLocked t command now context w).wp discipline P F sh l := by
  unfold applyLocked
  split
  case isTrue hplayer => exact wp_reject hand huse (by decide) rfl (fun m hm => by cases hm) hF hP
  case isFalse hplayer =>
  split
  case isTrue hmismatch => exact wp_rejectAtWallet hand hold hid (.inr rfl) huse rfl hF hP
  case isFalse hmismatch =>
  have hat : AtWallet t w sh l := ⟨hand, hold, hid, not_not.mp hmismatch⟩
  split
  case isTrue hreversal => exact wp_applyReversal hat hstatus hreversal huse hF hP
  case isFalse hreversal =>
  have hreversal : t.kind.isReversal = false := by
    simpa [WagerTransaction.requiresReference] using hreversal
  split
  case isTrue hloss =>
    have hloss : t.kind = .loss := by simpa [WagerTransaction.affectsBalance] using hloss
    exact wp_process_still hand hold hid hat.currency huse hloss hF hP
  case isFalse hloss =>
  have hloss : t.kind ≠ .loss := by simpa [WagerTransaction.affectsBalance] using hloss
  refine wp_resolveOptionalReference hand hstatus fun sh1 hr1 hs1 ho1 =>
    ⟨fun code hcode => ?mismatch, fun referenceId hlinked => ?moves⟩
  case mismatch =>
    exact wp_rejectAtWallet (hand.rely hr1) (hold.rely hr1) hid (.inl hat.currency) huse hcode hF hP
  case moves =>
    have hat1 := hat.rely hr1
    obtain ⟨direction, hdirection, hbase⟩ := ledgerDirection_ok hloss hreversal
    obtain ⟨rejection, hrejection, hcode, hcan⟩ := movementFailure_ok direction
      hold.storable.currency hat.currency.symm
    simp only [hdirection, hrejection, domain_ok, Program.pure_ctor_bind_eq]
    cases rejection with
    | some code =>
      exact wp_rejectAtWallet hat1.hand hat1.hold hid (.inl hat.currency) huse (hcode code rfl) hF hP
    | none =>
      refine wp_moveAndProcess hat1 (hcan rfl) ⟨fun hk => ?_, hlinked, .inl hbase⟩ (fun heq => ?_)
        huse hF hP
      · rw [hreversal] at hk
        cases hk
      · obtain ⟨r, hr, hrid, hproc⟩ := hlinked _ heq
        exact hat1.hand.ne_of_terminal hs1 ho1 hr (by rw [hproc]; rfl) hrid

/-- `apply`. -/
theorem wp_apply (hand : InHand t sh l) (hstatus : t.status = .pending)
    (huuid : isUuid command.walletId = true) (hwallet : t.walletId = uuidText command.walletId)
    (hnow : now.isReading = true)
    (hF : ∀ eventId, Refusals F
      { eventId, correlationId := command.correlationId, causationId := command.causationId,
        occurredAt := now })
    (hP : ∀ sh' l' result, Decided t l result sh' l' → P sh' l' result) :
    (apply t command now).wp discipline P F sh l := by
  refine wp_nextId fun sh1 hr1 hs1 ho1 eventId _ _ => ?_
  have hand1 : InHand t sh1 { l with ids := eventId :: l.ids } :=
    (hand.rely hr1).extend rfl (fun _ h => h) fun _ h => List.mem_cons_of_mem _ h
  refine wp_lockWallet huuid fun sh2 hr2 hs2 ho2 => ?_
  have hand2 := hand1.rely hr2
  have huse : ∀ {l' : Local}, eventId ∈ l'.ids → Usable
      { eventId, correlationId := command.correlationId, causationId := command.causationId,
        occurredAt := now } now l' :=
    fun h => ⟨h, Instant.isReading_isTimestamp hnow, hnow⟩
  rw [hand2.view_wallets]
  refine ⟨hs2.wallets, fun _ => ?notFound, fun w hw hmem hid => ?found⟩
  case notFound =>
    exact wp_reject hand2 (huse List.mem_cons_self) (by decide) rfl (fun m hm => by cases hm)
      (hF eventId) fun sh' l' result hd =>
        hP _ _ _ (hd.from ((Local.Follows.refl l).identified eventId))
  case found =>
    have hlocked :
        l.Follows { { l with ids := eventId :: l.ids } with wallets := w.id :: l.wallets } :=
      ⟨List.prefix_refl _, rfl, rfl, List.suffix_refl _⟩
    exact wp_applyLocked (hand2.extend rfl (fun _ h => h) fun _ h => h)
      ⟨hmem, List.mem_cons_self, hw⟩ hstatus (hid.trans hwallet.symm) (huse List.mem_cons_self)
      (hF eventId) fun sh' l' result hd => hP _ _ _ (hd.from hlocked)

end Wagering
