import Wagering.Application.ResolvePendingReference
import Wagering.Correctness.Applying

/-!
# Resolving pending references

`ResolvePendingReferenceUseCase`: both of its transactions.  The worker holds
the pending row itself, so what it decides is about a row that was there before,
and the texts of its events are texts of that row.
-/

namespace Wagering

open Interleave

/-- The delay stays within a fifth of what it is computed from. -/
theorem jittered_bounds {delay : Int} {jitter : Nat} (h : 0 ≤ delay) (hj : jitter < 2 ^ 53) :
    0 ≤ jittered delay jitter ∧ jittered delay jitter ≤ 2 * delay := by
  have hle : delay * jitter ≤ delay * 2 ^ 53 := Int.mul_le_mul_of_nonneg_left (by omega) h
  have hnonneg : 0 ≤ delay * jitter := Int.mul_nonneg h (by omega)
  have heq : 2 * delay * (8 * 2 ^ 53 + 4 * (jitter : Int)) + 10 * 2 ^ 53 =
      16 * 2 ^ 53 * delay + 8 * (delay * jitter) + 10 * 2 ^ 53 := by ring
  rw [jittered, heq]
  generalize delay * (jitter : Int) = product at hle hnonneg
  constructor <;> omega

theorem pendingReferenceBackoffMs_bounds (attempts : Int) {jitter : Nat} (hj : jitter < 2 ^ 53) :
    0 ≤ pendingReferenceBackoffMs attempts jitter ∧
      pendingReferenceBackoffMs attempts jitter ≤ 600000 := by
  have hpow : (0 : Int) ≤ 5000 * 2 ^ (attempts - 1).toNat :=
    Int.mul_nonneg (by decide) (Int.pow_nonneg (by decide))
  have hbounds := jittered_bounds (Int.le_min.mpr ⟨(by decide : (0 : Int) ≤ 300000), hpow⟩) hj
  have hmin := Int.min_le_left 300000 (5000 * 2 ^ (attempts - 1).toNat)
  rw [pendingReferenceBackoffMs]
  omega

variable {α : Type} {sh sh' : Shared} {l l' : Local} {now : Instant}

/-- A committed row has the id. -/
def Stands (id : Text) (sh : Shared) : Prop := ∃ p ∈ sh.db.wagers, p.id = id

theorem Stands.rely {id : Text} (hr : Rely l sh sh') (h : Stands id sh) : Stands id sh' := by
  obtain ⟨p, hp, hid⟩ := h
  obtain ⟨p', hp', same, -⟩ := hr.wagers p hp
  exact ⟨p', hp', same.id.symm.trans hid⟩

variable [Platform] {t : WagerTransaction}

/-- What a run of the worker that commits has done, by its outcome. -/
inductive Resolution (sh : Shared) (l : Local) : PendingReferenceOutcome → Prop
  | idle (log : l.log = []) : Resolution sh l .idle
  | rescheduled {d : Decision} {walletId providerId correlationId : Text}
    (concluded : Concluded d sh l) (stands : Stands d.tx.id sh)
    (status : d.tx.status = .pendingReference) (still : d.movement = none ∧ d.events = []) :
    Resolution sh l
      (.rescheduled d.tx.id walletId providerId correlationId d.tx.attempts)
  | settled {d : Decision} {walletId providerId correlationId : Text} {code : Option FailureCode}
    (concluded : Concluded d sh l) (stands : Stands d.tx.id sh)
    (status : d.tx.status = .processed ∨ d.tx.status = .rejected) :
    Resolution sh l (.settled d.tx.id walletId providerId correlationId d.tx.status code)

/-- What the second transaction has done: it gave the pending reversal up. -/
inductive GivenUp (id : Text) (sh : Shared) (l : Local) : PendingReferenceOutcome → Prop
  | mk {d : Decision} {walletId providerId correlationId : Text} {code : Option FailureCode}
    (concluded : Concluded d sh l) (stands : Stands d.tx.id sh)
    (tx : d.tx.id = id) (status : d.tx.status = .failed) :
    GivenUp id sh l (.settled d.tx.id walletId providerId correlationId d.tx.status code)

/-- A decision about a row that was there adds no row. -/
theorem Concluded.wagers_old {d : Decision} (h : Concluded d sh l) (hs : Sound sh)
    (hstands : Stands d.tx.id sh) :
    ∀ r ∈ (l.view sh.db).wagers, ∃ r' ∈ sh.db.wagers, SameIdentity r' r := by
  intro r hr
  have hbooks : r ∈ (sh.db.books.record d).wagers := h.books hs ▸ hr
  rcases Books.mem_wagers_record.mp hbooks with rfl | ⟨hold, -⟩
  · rcases h.decides.prior with ⟨fresh, -⟩ | ⟨p, hp, -, same, -⟩
    · obtain ⟨p, hp, hid⟩ := hstands
      exact absurd hid (fresh p hp)
    · exact ⟨p, hp, same⟩
  · exact ⟨r, hold, .refl r⟩

/-! ## The pending row -/

/-- The texts of a row can be sent. -/
theorem WagerTransactionRow.Valid.plain {row : WagerTransactionRow} (h : row.Valid) :
    ∀ s ∈ row.correlationId :: (some row.id).toList, isPlain s = true := by
  have hcolumns := h.columns
  simp only [wagerColumnRules, List.forall_mem_cons] at hcolumns
  obtain ⟨-, -, -, -, -, -, -, hcorrelation, -⟩ := hcolumns
  intro s hs
  rcases List.mem_cons.mp hs with rfl | hs
  · have hstored : Text.stored row.correlationId = row.correlationId :=
      congrArg WagerTransactionRow.correlationId h.stored
    simp only [textRule, Bool.not_eq_true'] at hcorrelation
    simp [isPlain, hcorrelation, hstored]
  · cases List.mem_singleton.mp hs
    exact isPlain_uuid h.canonical

/-- The events about a pending row are never refused for their texts. -/
theorem pendingContext_refusals {F : Shared → Local → Failure → Prop} (eventId : Text)
    (now : Instant) (hvalid : (toWagerTransactionRow t).Valid)
    (hF : ∀ {sh l} {w : WalletRow}, w ∈ sh.db.wallets → 2147483647 ≤ w.version →
      F sh l (.repository (.integrity (.outOfRange (utf16 "version"))))) :
    Refusals F (pendingContext t eventId now) where
  version := hF
  payload := fun ht hbad => by
    have hplain := hvalid.plain _ ht
    rw [hplain] at hbad
    cases hbad

/-- The pending row that a transaction has locked. -/
theorem inHand_locked (hs : Sound sh) (hmem : toWagerTransactionRow t ∈ sh.db.wagers)
    (hstorable : t.Storable) (hstatus : t.status = .pendingReference) (hlog : l.log = [])
    (hlock : t.id ∈ l.wagers) : InHand t sh l := by
  have hright := hs.books.wagers _ hmem
  have hnot : ¬ t.status = .processed := by
    rw [hstatus]
    decide
  exact
    { valid := hs.wagers _ hmem
      storable := hstorable
      unresolved := by
        cases href : t.referenceTransactionId with
        | none => rfl
        | some id => exact absurd (hright.linked id href).1 hnot
      kind := fun hk => hnot (hright.openingProcessed hk)
      ids := fun k hk => by simp [Local.keys, hlog] at hk
      held := .locked (by rw [hlog]; rfl) hstatus hmem hlock }

/-- The wallet of a pending row is there. -/
theorem pending_wallet (hs : Sound sh) (hmem : toWagerTransactionRow t ∈ sh.db.wagers)
    (hstatus : t.status = .pendingReference) :
    ∃ w ∈ sh.db.wallets, w.id = t.walletId ∧ w.currency = t.money.currency :=
  (hs.books.wagers _ hmem).wallet (.inr hstatus)

/-- The wallet that a unit of work finds under the id of its pending row. -/
theorem InHand.atWallet {w : Wallet} (hand : InHand t sh l) (hs : Sound sh)
    (hmem : toWagerTransactionRow t ∈ sh.db.wagers) (hstatus : t.status = .pendingReference)
    (hw : w.Storable) (hwallet : toWalletRow w ∈ sh.db.wallets) (hid : w.id = t.walletId)
    (hlock : w.id ∈ l.wallets) : AtWallet t w sh l := by
  refine ⟨hand, ⟨hwallet, hlock, hw⟩, hid, ?_⟩
  obtain ⟨v, hv, hvid, hcurrency⟩ := pending_wallet hs hmem hstatus
  have heq : toWalletRow w = v :=
    hs.books.wallet_eq_of_id hwallet hv (hid.trans hvid.symm)
  exact (congrArg WalletRow.currency heq).trans hcurrency

/-! ## The code -/

variable {P : Shared → Local → PendingReferenceOutcome → Prop}
  {F : Shared → Local → Failure → Prop}

/-- What the worker's first transaction ends with. -/
def Resolves (sh : Shared) (l : Local) (outcome : PendingReferenceOutcome) : Prop :=
  inboxOf l.log = [] ∧ Resolution sh l outcome

/-- The refusal that is left to the worker: a wallet at the last version. -/
def Overflows (F : Shared → Local → Failure → Prop) : Prop :=
  ∀ {sh l} {w : WalletRow}, w ∈ sh.db.wallets → 2147483647 ≤ w.version →
    F sh l (.repository (.integrity (.outOfRange (utf16 "version"))))

/-- `findReference`: it may find nothing, or a row that is committed. -/
theorem wp_findReference {P : Shared → Local → α → Prop}
    {f : Option WagerTransaction → Code α} (hand : InHand t sh l)
    (hmem : toWagerTransactionRow t ∈ sh.db.wagers)
    (h : ∀ sh', Rely l sh sh' → Sound sh' → Own sh' l → ∀ reference : Option WagerTransaction,
      (∀ r ∈ reference, toWagerTransactionRow r ∈ sh'.db.wagers) →
      (f reference).wp discipline P F sh' l) :
    (findReference t >>= f).wp discipline P F sh l := by
  refine wp_findByExternalId fun sh1 hr1 hs1 ho1 => ?_
  have hand1 := hand.rely hr1
  refine ⟨hand1.view_valid hs1, fun answer hreads => h sh1 hr1 hs1 ho1 answer fun r hr => ?_⟩
  cases hr
  have hfound := Keyed.mem_of_lookup hreads.row.symm
  obtain ⟨t', ht', same, -⟩ := hr1.wagers _ hmem
  rcases hand1.mem_view.mp hfound with hfound | heq
  · exact hfound
  · rcases hand1.view_wagers with ⟨-, hpending⟩ | ⟨-, hin⟩
    · exact absurd same.id.symm (hand1.fresh ho1 hpending t' ht')
    · exact heq ▸ hin

/-- `reschedule`. -/
theorem wp_rescheduleReference (hand : InHand t sh l) (hmem : toWagerTransactionRow t ∈ sh.db.wagers)
    (hstatus : t.status = .pendingReference) (hlock : t.id ∈ l.wagers) (hinbox : inboxOf l.log = [])
    (hattempts : t.attempts < 100) (hnow : now.isReading = true)
    (hP : ∀ sh' l' outcome, Resolves sh' l' outcome → P sh' l' outcome) :
    (rescheduleReference t now).wp discipline P F sh l := by
  refine wp_jitter fun sh1 hr1 hs1 ho1 jitter hjitter => ?_
  have hand1 := hand.rely hr1
  have hmem1 := (hr1.lockedWagers _ hlock).mpr hmem
  obtain ⟨hlow, hhigh⟩ := pendingReferenceBackoffMs_bounds (t.attempts + 1) hjitter
  have hvalid := hand1.waiting.retried hstatus hattempts
    (Instant.isReading_timestamp hnow hlow (by omega))
  simp only [WagerTransaction.scheduleRetry_eq hstatus, domain_ok, Program.pure_ctor_bind_eq]
  generalize ht : ({ t with
    attempts := t.attempts + 1,
    nextAttemptAt := some (now + pendingReferenceBackoffMs (t.attempts + 1) jitter) } :
      WagerTransaction) = t' at hvalid ⊢
  have same : t'.toCreateWagerTransactionProps = t.toCreateWagerTransactionProps := by subst ht; rfl
  have hstatus' : t'.status = .pendingReference := by subst ht; exact hstatus
  have hreference : t'.referenceTransactionId = none := by subst ht; exact hand.unresolved
  have hnot : t'.status ≠ .processed := by rw [hstatus']; decide
  refine wp_updateDecided ⟨toWagerTransactionRow t', none, []⟩ hand1 same rfl
    fun sh2 hr2 hs2 ho2 => ?_
  have hand2 := hand1.rely hr2
  have hmem2 := (hr2.lockedWagers _ hlock).mpr hmem1
  have hid : (toWagerTransactionRow t).id = (toWagerTransactionRow t').id := (InHand.identity same).id
  refine ⟨?deciding, fun h => absurd h hnot, fun r hr => ?reference,
    fun hdeciding => wp_pure fun sh3 hr3 hs3 ho3 => ?done⟩
  case deciding =>
    refine hand2.deciding ho2 same (.inl (by subst ht; rfl))
      (.inr ⟨hstatus, hstatus', by subst ht; rfl⟩) hvalid (fun m hm => ?_)
      (.retried hstatus' hreference ⟨_, hmem2, hid⟩) (fun ev hev => by cases hev)
      fun h => absurd h hnot
    have hm : t.resultBalance = some m := by subst ht; exact hm
    exact (hs2.books.wagers _ hmem2).observed m.currency (by simp [toWagerTransactionRow, hm])
  case reference =>
    rw [hreference] at hr
    cases hr
  case done =>
    have hlog : inboxOf (l.push (.updateWager (toWagerTransactionRow t'))).log = [] := by
      rw [← hinbox]
      simp [Local.push, inboxOf, Write.isInbox]
    have hconcluded : Concluded ⟨toWagerTransactionRow t', none, []⟩ sh2
        (l.push (.updateWager (toWagerTransactionRow t'))) :=
      ⟨⟨[], hdeciding, rfl⟩, fun m hm => by cases hm⟩
    have hdone : Resolution sh3 (l.push (.updateWager (toWagerTransactionRow t')))
        (.rescheduled t'.id t'.walletId t'.providerId t'.correlationId t'.attempts) :=
      .rescheduled (hconcluded.rely hr3 hs3 ho3) (Stands.rely hr3 ⟨_, hmem2, hid⟩) hstatus'
        ⟨rfl, rfl⟩
    subst ht
    exact hP _ _ _ ⟨hlog, hdone⟩

/-- `rejected`: the row and the event of a pending reversal that came to nothing. -/
theorem wp_recordRejected {t' : WagerTransaction} {eventId : Text} (hand : InHand t sh l)
    (hmem : toWagerTransactionRow t ∈ sh.db.wagers)
    (same : t'.toCreateWagerTransactionProps = t.toCreateWagerTransactionProps)
    (hexpires : t'.expiresAt = t.expiresAt) (hattempts : t'.attempts = t.attempts)
    (hstatus : t'.status = .rejected ∨ t'.status = .failed)
    (hreference : t'.referenceTransactionId = none) (hprocessed : t'.processedAt = some now)
    (hvalid : (toWagerTransactionRow t').Valid)
    (hbalance : ∀ m ∈ t'.resultBalance,
      ∃ w ∈ sh.db.wallets, w.id = t.walletId ∧ w.currency = m.currency)
    (heventId : eventId ∈ l.ids) (hnow : now.isReading = true)
    (hP : ∀ sh' l' d, Concluded d sh' l' → d.tx = toWagerTransactionRow t' →
      Stands d.tx.id sh' → inboxOf l'.log = inboxOf l.log →
      P sh' l' (settledOutcome t' t'.status t'.failureCode)) :
    (recordRejected t' now (pendingContext t eventId now)).wp discipline P F sh l := by
  have hnow' := Instant.isReading_isTimestamp hnow
  have hid := (InHand.identity same).id
  have hdata : (wagerTransactionRejected t' (pendingContext t eventId now)).data =
      (toWagerTransactionRow t').rejectedData := by
    simp [wagerTransactionRejected, WagerTransactionRow.rejectedData, toWagerTransactionRow,
      Money.toJSON, Money.toString, moneyText, hprocessed]
  have hnot : t'.status ≠ .processed := by
    rcases hstatus with h | h <;> rw [h] <;> decide
  have hkind : t'.kind ≠ .opening := by
    rw [same]
    exact hand.kind
  have hcode : (recordRejected t' now (pendingContext t eventId now)).wp discipline
      (fun sh' l' outcome => outcome = settledOutcome t' t'.status t'.failureCode ∧
        Concluded ⟨toWagerTransactionRow t', none,
          [wagerTransactionRejected t' (pendingContext t eventId now)]⟩ sh' l' ∧ l.Follows l')
      F sh l := by
    refine wp_still hand same (.inl hexpires) (.inl ⟨hattempts, fun h => ?stays⟩) hvalid
      (fun sh' _ _ => hdata ▸ .refused hstatus hkind hreference) (fun h => absurd h hnot) hreference
      (fun h => absurd h hnot) hbalance ⟨rfl, rfl⟩ heventId hnow' hnow' (fun s hs hbad => ?_)
      fun sh' l' hc hf => wp_pure fun sh'' hr hs ho => ⟨rfl, hc.rely hr hs ho, hf⟩
    · rcases hstatus with h' | h' <;> rw [h'] at h <;> cases h
    · rw [hand.valid.plain s hs] at hbad
      cases hbad
  have hstands : Stands t.id sh := ⟨_, hmem, rfl⟩
  refine Program.wp_mono (Program.wp_frame Stands.rely hcode hstands) ?_ fun _ _ _ h => h.2
  rintro sh' l' outcome - - ⟨hstands', rfl, hc, hf⟩
  exact hP _ _ _ hc rfl (hid ▸ hstands') hf.inbox

/-- The wallet id of a valid row, as the server prints it. -/
theorem WagerTransactionRow.Valid.wallet_canonical {row : WagerTransactionRow} (h : row.Valid) :
    isUuid row.walletId = true ∧ uuidText row.walletId = row.walletId := by
  have hcolumns := h.columns
  simp only [wagerColumnRules, List.forall_mem_cons] at hcolumns
  obtain ⟨-, -, -, -, -, -, -, -, huuid, -⟩ := hcolumns
  exact ⟨huuid, congrArg WagerTransactionRow.walletId h.stored⟩

/-- `lockWallet` of a pending row's wallet: the wallet is there. -/
theorem wp_lockPendingWallet {P : Shared → Local → α → Prop} {f : Option Wallet → Code α}
    (hand : InHand t sh l) (hmem : toWagerTransactionRow t ∈ sh.db.wagers)
    (hstatus : t.status = .pendingReference) (hlock : t.id ∈ l.wagers)
    (h : ∀ sh', Rely l sh sh' → toWagerTransactionRow t ∈ sh'.db.wagers → ∀ w : Wallet,
      AtWallet t w sh' { l with wallets := w.id :: l.wallets } →
      (f (some w)).wp discipline P F sh' { l with wallets := w.id :: l.wallets }) :
    (call (.lockWallet t.walletId) >>= f).wp discipline P F sh l := by
  obtain ⟨huuid, hcanonical⟩ := hand.valid.wallet_canonical
  refine wp_lockWallet huuid fun sh1 hr1 hs1 ho1 => ?_
  have hmem1 := (hr1.lockedWagers _ hlock).mpr hmem
  have hand1 := hand.rely hr1
  rw [hand1.view_wallets, show uuidText t.walletId = t.walletId from hcanonical]
  refine ⟨hs1.wallets, fun hnone => ?missing, fun w hw hwallet hid => ?found⟩
  case missing =>
    obtain ⟨w, hw, hid, -⟩ := pending_wallet hs1 hmem1 hstatus
    exact absurd hid (hnone w hw)
  case found =>
    have hand2 : InHand t sh1 { l with wallets := w.id :: l.wallets } :=
      hand1.extend rfl (fun _ h => h) fun _ h => h
    exact h sh1 hr1 hmem1 w (hand2.atWallet hs1 hmem1 hstatus hw hwallet hid List.mem_cons_self)

/-- `settle`. -/
theorem wp_settle (hand : InHand t sh l) (hmem : toWagerTransactionRow t ∈ sh.db.wagers)
    (hstatus : t.status = .pendingReference) (hlock : t.id ∈ l.wagers) (hinbox : inboxOf l.log = [])
    (hnow : now.isReading = true) (hF : Overflows F)
    (hP : ∀ sh' l' outcome, Resolves sh' l' outcome → P sh' l' outcome) :
    (settle t now).wp discipline P F sh l := by
  refine wp_nextId fun sh1 hr1 hs1 ho1 eventId _ _ => ?_
  have hand1 : InHand t sh1 { l with ids := eventId :: l.ids } :=
    (hand.rely hr1).extend rfl (fun _ h => h) fun _ h => List.mem_cons_of_mem _ h
  refine wp_lockPendingWallet hand1 ((hr1.lockedWagers _ hlock).mpr hmem) hstatus hlock
    fun sh2 hr2 hmem2 w hat => ?_
  refine wp_findReference hat.hand hmem2 fun sh3 hr3 hs3 ho3 reference href => ?_
  have hat3 := hat.rely hr3
  have hmem3 := (hr3.lockedWagers _ hlock).mpr hmem2
  cases hfilter : reference.filter referenceIsSettled with
  | none =>
    have hcode : ∃ code : FailureCode, code.atWallet = true ∧ code =
        (if reference.isNone then .referenceNotFound else .referenceNotProcessed) := by
      cases reference <;> exact ⟨_, rfl, rfl⟩
    obtain ⟨code, hcode, heq⟩ := hcode
    simp only [FailureCode.atWallet, Bool.and_eq_true, Bool.not_eq_true', decide_eq_true_eq] at hcode
    have hdisclosed : code.disclosesNoBalance = (some w.balance).isNone := hcode.1
    have hvalid := hat3.hand.waiting.rejected hcode.2 hdisclosed hat3.hand.unresolved
      (fun m hm => by cases hm; exact hat.hold.storable.nonneg)
      (fun m hm => by cases hm; exact .inl (hat.hold.storable.currency.trans hat.currency))
      (Instant.isReading_isTimestamp hnow)
    simp only [← heq, WagerTransaction.reject_eq hat3.hand.notTerminal hcode.2 hdisclosed now,
      domain_ok, Program.pure_ctor_bind_eq]
    refine wp_recordRejected hat3.hand hmem3 rfl rfl rfl (.inl rfl) hat3.hand.unresolved rfl hvalid
      (fun m hm => ?_) List.mem_cons_self hnow fun sh' l' d hc htx hstands hin =>
        hP _ _ _ ⟨hin.trans hinbox, ?_⟩
    · cases hm
      exact ⟨_, hat3.hold.mem, hat.id, hat.hold.storable.currency.symm⟩
    · have hdone : Resolution sh' l' (.settled d.tx.id t.walletId t.providerId t.correlationId
          d.tx.status (some code)) :=
        .settled hc hstands (.inr (by rw [htx]; rfl))
      rw [htx] at hdone
      exact hdone
  | some r =>
    obtain ⟨rfl, hsettled⟩ := Option.filter_eq_some_iff.mp hfilter
    have hrefers : Refers t r sh3 := .settled (href r rfl) hsettled
    have hcode : (applyResolvedReversal t r w now (pendingContext t eventId now)).wp discipline
        (fun sh' l' result => Decided t
          { { l with ids := eventId :: l.ids } with wallets := w.id :: l.wallets } result sh' l')
        F sh3 _ :=
      wp_applyResolvedReversal hat3 hrefers
        ⟨List.mem_cons_self, Instant.isReading_isTimestamp hnow, hnow⟩
        (pendingContext_refusals eventId now hand.valid hF) fun _ _ _ h => h
    have hstands : Stands t.id sh3 := ⟨_, hmem3, rfl⟩
    refine Program.wp_bind (Program.wp_mono (Program.wp_frame Stands.rely hcode hstands) ?_
      fun _ _ _ h => h.2)
    rintro sh4 l4 result - - ⟨hstands4, hd⟩
    refine wp_pure fun sh5 hr5 hs5 ho5 => hP _ _ _ ⟨hd.follows.inbox.trans hinbox, ?_⟩
    obtain ⟨d, t', hc, htx, same, hdecided, rfl⟩ := hd.decision
    have hstatus' : d.tx.status = .processed ∨ d.tx.status = .rejected := by
      rw [htx]
      rcases hdecided with h | h | ⟨h, -⟩
      · exact .inl h
      · exact .inr h
      · rw [hstatus] at h
        cases h
    have hid : t.id = d.tx.id := by rw [htx]; exact same.id
    have hdone : Resolution sh5 l4 (.settled d.tx.id t.walletId t.providerId t.correlationId
        d.tx.status t'.failureCode) :=
      .settled (hc.rely hr5 hs5 ho5) (Stands.rely hr5 (show Stands d.tx.id sh4 from hid ▸ hstands4))
        hstatus'
    rw [htx] at hdone
    exact hdone

/-- The first transaction of a run, started with nothing. -/
theorem wp_resolveDue (hlog : l.log = []) (hF : Overflows F)
    (hP : ∀ sh' l' outcome, Resolves sh' l' outcome → P sh' l' outcome) :
    resolveDue.wp discipline P F sh l := by
  refine wp_now fun sh1 hr1 hs1 ho1 now hnow => ?_
  refine wp_lockDuePendingReference fun sh2 hr2 hs2 ho2 => ?_
  rw [view_wagers_idle (by rw [hlog]; rfl)]
  refine ⟨hs2.wagers, ?idle, fun t hstorable hmem hdue => ?due⟩
  case idle =>
    exact wp_pure fun sh' _ _ _ => hP _ _ _ ⟨by rw [hlog]; rfl, .idle hlog⟩
  case due =>
    have hstatus : t.status = .pendingReference := by
      simp only [isDue, Bool.and_eq_true, decide_eq_true_eq] at hdue
      exact hdue.1
    refine wp_attempt fun sh3 hr3 hs3 ho3 => ?_
    have hmem3 := (hr3.lockedWagers _ List.mem_cons_self).mpr hmem
    have hand : InHand t sh3 _ := inHand_locked hs3 hmem3 hstorable hstatus
      (show ({ { { l with readings := now :: l.readings } with wagers := t.id :: l.wagers } with
        attempted := some t.id } : Local).log = [] from hlog) List.mem_cons_self
    refine wp_findReference hand hmem3 fun sh4 hr4 hs4 ho4 reference href => ?_
    have hand4 := hand.rely hr4
    have hmem4 := (hr4.lockedWagers _ List.mem_cons_self).mpr hmem3
    have hinbox : inboxOf l.log = [] := by rw [hlog]; rfl
    split
    case isTrue hwait =>
      simp only [isExhausted, Bool.and_eq_true, Bool.not_eq_true', Bool.or_eq_false_iff] at hwait
      exact wp_rescheduleReference hand4 hmem4 hstatus List.mem_cons_self hinbox
        (Int.lt_of_not_ge (of_decide_eq_false hwait.2.1)) hnow hP
    case isFalse =>
      exact wp_settle hand4 hmem4 hstatus List.mem_cons_self hinbox hnow hF hP

/-- The second transaction of a run, after a failure that a retry would repeat. -/
theorem wp_recordFailure {id : Text} {error : Failure} (hlog : l.log = [])
    (hP : ∀ sh' l' outcome, inboxOf l'.log = [] → GivenUp id sh' l' outcome → P sh' l' outcome)
    (hF : ∀ sh' l', F sh' l' error) : (recordFailure id error).wp discipline P F sh l := by
  refine wp_now fun sh1 hr1 hs1 ho1 now hnow => ?_
  refine wp_lockWager fun sh2 hr2 hs2 ho2 => ?_
  rw [view_wagers_idle (by rw [hlog]; rfl)]
  refine ⟨hs2.wagers, wp_raise fun sh' _ _ _ => hF _ _, fun t hstorable hmem hid => ?found⟩
  case found =>
    have hvalid := hs2.wagers _ hmem
    cases hterm : t.status.isTerminal with
    | true =>
      refine wp_lockWallet hvalid.wallet_canonical.1 fun sh3 hr3 hs3 ho3 => ?_
      rw [view_wallets_idle (by rw [hlog]; rfl)]
      refine ⟨hs3.wallets, fun _ => wp_raise fun sh' _ _ _ => hF _ _, fun w _ _ _ => ?_⟩
      simp only [show t.isTerminal = true from hterm, if_true]
      exact wp_raise fun sh' _ _ _ => hF _ _
    | false =>
      have hstatus : t.status = .pendingReference := by
        have hsettled := (hs2.books.wagers _ hmem).settled
        unfold Books.Settled at hsettled
        simp only [toWagerTransactionRow] at hsettled
        cases hst : t.status with
        | pending => rw [hst] at hsettled; exact hsettled.elim
        | pendingReference => rfl
        | _ => rw [hst] at hterm; cases hterm
      have hand := inHand_locked hs2 hmem hstorable hstatus
        (show ({ { l with readings := now :: l.readings } with wagers := t.id :: l.wagers } :
          Local).log = [] from hlog) List.mem_cons_self
      refine wp_lockPendingWallet hand hmem hstatus List.mem_cons_self
        fun sh3 hr3 hmem3 w hat => ?_
      have hcurrency : w.balance.currency = t.money.currency :=
        hat.hold.storable.currency.trans hat.currency
      simp only [show t.isTerminal = false from hterm, Bool.false_eq_true, if_false,
        WagerTransaction.fail_eq hstatus, domain_ok, Program.pure_ctor_bind_eq]
      refine wp_nextId fun sh4 hr4 hs4 ho4 eventId _ _ => ?_
      have hat4 := (hat.rely hr4).identified eventId
      have hmem4 := (hr4.lockedWagers _ List.mem_cons_self).mpr hmem3
      have hvalid4 := hat4.hand.waiting.failed hat4.hand.unresolved hat.hold.storable.nonneg
        hcurrency (Instant.isReading_isTimestamp hnow)
      change (recordRejected _ now (pendingContext t eventId now)).wp discipline P F sh4 _
      refine wp_recordRejected hat4.hand hmem4 rfl rfl rfl (.inr rfl) hat4.hand.unresolved rfl hvalid4
        (fun m hm => ?_) List.mem_cons_self hnow fun sh' l' d hc htx hstands hin =>
          hP _ _ _ (hin.trans (by rw [hlog]; rfl)) ?_
      · cases hm
        exact ⟨_, hat4.hold.mem, hat.id, hat.hold.storable.currency.symm⟩
      · have hdone : GivenUp id sh' l' (.settled d.tx.id t.walletId t.providerId t.correlationId
            d.tx.status (some .infrastructureFailure)) :=
          .mk hc hstands (by rw [htx]; exact hid) (by rw [htx]; rfl)
        rw [htx] at hdone
        exact hdone

end Wagering
