import Wagering.Guarantees.CommitOrder
import Wagering.Guarantees.ResultBalances

/-!
# What a verdict does not depend on

The transactions of other providers have no part in a verdict: they meet a
request only in the balance of its wallet.  Nor does it matter that a reversal
has waited: once its reference is settled it is decided as it would be if it were
submitted only now.
-/

namespace Wagering

open Interleave

/-- `t` asks for what `p` has asked for. -/
structure SameRequest (t p : WagerTransactionRow) : Prop where
  providerId : t.providerId = p.providerId
  playerId : t.playerId = p.playerId
  walletId : t.walletId = p.walletId
  roundId : t.roundId = p.roundId
  kind : t.kind = p.kind
  amount : t.amount = p.amount
  currency : t.currency = p.currency
  reference : t.referenceExternalTransactionId = p.referenceExternalTransactionId

instance (t p : WagerTransactionRow) : Decidable (SameRequest t p) :=
  decidable_of_iff (t.providerId = p.providerId ∧ t.playerId = p.playerId ∧
      t.walletId = p.walletId ∧ t.roundId = p.roundId ∧ t.kind = p.kind ∧ t.amount = p.amount ∧
      t.currency = p.currency ∧
      t.referenceExternalTransactionId = p.referenceExternalTransactionId)
    ⟨fun ⟨h1, h2, h3, h4, h5, h6, h7, h8⟩ => ⟨h1, h2, h3, h4, h5, h6, h7, h8⟩,
      fun ⟨h1, h2, h3, h4, h5, h6, h7, h8⟩ => ⟨h1, h2, h3, h4, h5, h6, h7, h8⟩⟩

section Statements

variable [Platform] [Driver]

/-- In any two states that agree on the provider's own transactions and on what its
player learns of the wallet, a request gets the same verdict. -/
def JudgesByOwn (w : Service) : Prop :=
  ∀ w' command t, Reachable w' → command.Requests t → w.shared.db.New t → w'.shared.db.New t →
    SameTransactions t.providerId w.shared.db w'.shared.db →
    SameTo command.playerId (w.shared.db.walletById (uuidText command.walletId))
      (w'.shared.db.walletById (uuidText command.walletId)) →
    w.shared.db.verdict command t = w'.shared.db.verdict command t

/-- A reversal that waits for a reference that is settled by now is not put off
again, whatever the worker's clock reads, and gets the verdict on a request for the
same that arrives only now. -/
def WaitsForNothing (w : Service) : Prop :=
  ∀ p ∈ w.shared.db.wagers, p.status = .pendingReference → ∀ r,
    w.shared.db.snapshot.settled p = some r → ∀ command t, command.Requests t →
    w.shared.db.New t → SameRequest t p → command.playerId = p.playerId → ∀ now,
      w.shared.db.snapshot.judgeLate now p = some (w.shared.db.verdict command t)

end Statements

section Proofs

variable [Platform] {sh sh' : Shared} {command : SubmitWagerCommand}
  {t p r : WagerTransactionRow}

/-! ## Other providers -/

theorem SubmitWagerCommand.Requests.providerId (h : command.Requests t) :
    Text.stored t.providerId = t.providerId := by
  obtain ⟨asked, -, rfl⟩ := h
  exact Text.stored_stored asked.providerId

/-- Where two states agree on a provider, its references are the same. -/
theorem Sound.settled_same (hs : Sound sh) (hs' : Sound sh')
    (hstored : Text.stored t.providerId = t.providerId)
    (hagree : SameTransactions t.providerId sh.db sh'.db) :
    sh.db.snapshot.settled t = sh'.db.snapshot.settled t := by
  have hreference : sh.db.snapshot.reference t = sh'.db.snapshot.reference t := by
    refine Option.ext fun r => ?_
    refine (hs.mem_wagerByExternal _ _ r).trans (Iff.trans ?_ (hs'.mem_wagerByExternal _ _ r).symm)
    refine and_congr_left fun hkey => hagree r ?_
    exact (Prod.mk.inj hkey).1.trans hstored
  unfold Snapshot.settled
  rw [hreference]

/-- So are the slots of its transactions. -/
theorem Sound.hasActiveReversal_own (hs : Sound sh) (hs' : Sound sh') {providerId : Text}
    (hagree : SameTransactions providerId sh.db sh'.db) (hr : r ∈ sh.db.wagers)
    (hr' : r ∈ sh'.db.wagers) (hprovider : r.providerId = providerId) :
    hasActiveReversal sh.db.wagers r.id = hasActiveReversal sh'.db.wagers r.id := by
  refine hs.hasActiveReversal_congr hs' (C := fun u => u.providerId = providerId)
    (fun u v hu hu' hown => ?_) (fun u v hown reverses => ?_) hr hr' hprovider
  · constructor
    · intro hv
      obtain ⟨hmem, hkind, hid⟩ := Books.mem_reversalsOf.mp hv
      have reverses := (hs'.books.reverses hv hu').2
      exact Books.mem_reversalsOf.mpr
        ⟨(hagree v (reverses.providerId.symm.trans hown)).mpr hmem, hkind, hid⟩
    · intro hv
      obtain ⟨hmem, hkind, hid⟩ := Books.mem_reversalsOf.mp hv
      have reverses := (hs.books.reverses hv hu).2
      exact Books.mem_reversalsOf.mpr
        ⟨(hagree v (reverses.providerId.symm.trans hown)).mp hmem, hkind, hid⟩
  · exact reverses.providerId.symm.trans hown

variable [Driver] {w : Service}

/-- Verdicts do not depend on what other providers have submitted. -/
theorem Reachable.judgesByOwn (h : Reachable w) : JudgesByOwn w := by
  intro w' command t h' hrequests hnew hnew' hagree hwallet
  have hs := h.sound.inv
  have hs' := h'.sound.inv
  have hsettled := hs.settled_same hs' hrequests.providerId hagree
  refine hnew.verdict_congr hnew' hwallet (fun _ => hsettled) fun w₀ _ r hr hfits => ?_
  obtain ⟨hmem, hkey⟩ := (hs.mem_wagerByExternal _ _ r).mp (Option.filter_eq_some_iff.mp hr).1
  have hprovider : r.providerId = t.providerId :=
    (Prod.mk.inj hkey).1.trans hrequests.providerId
  exact hs.hasActiveReversal_own hs' hagree hmem ((hagree r hprovider).mp hmem) hprovider

omit [Platform] [Driver] in
theorem sample_judgesByOwn : @JudgesByOwn samplePlatform sampleDriver sampleService :=
  @Reachable.judgesByOwn samplePlatform sampleDriver sampleService sample_reachable

/-! ## Waiting -/

omit [Platform] [Driver] in
/-- A reversal is judged by what it asks for. -/
theorem SameRequest.judgeReversal (h : SameRequest t p) (r : WagerTransactionRow)
    (w : WalletRow) (reversed : Bool) :
    t.judgeReversal r w reversed = p.judgeReversal r w reversed := by
  have hmismatch : t.mismatch r = p.mismatch r := by
    unfold WagerTransactionRow.mismatch
    rw [h.providerId, h.playerId, h.walletId, h.roundId, h.currency]
  unfold WagerTransactionRow.judgeReversal WagerTransactionRow.judgeMovement
  rw [hmismatch, h.kind, h.amount]

omit [Platform] [Driver] in
theorem SameRequest.settled (h : SameRequest t p) (snap : Snapshot) :
    snap.settled t = snap.settled p := by
  unfold Snapshot.settled Snapshot.reference
  rw [h.providerId, h.reference]

omit [Platform] [Driver] in
/-- A new transaction does not refer to itself, if what it refers to is there. -/
theorem Database.New.decidable_settled {db : Database} (h : db.New t)
    (hfound : db.snapshot.settled t = some r) :
    (db.reserving t).snapshot.decidable t = some r := by
  rw [h.decidable, if_neg, hfound]
  intro hself
  obtain ⟨hlookup, -⟩ := Option.filter_eq_some_iff.mp hfound
  refine h.external r (Keyed.mem_of_lookup hlookup) ?_
  exact (@Keyed.key_of_lookup _ _
    (fun row : WagerTransactionRow => (row.providerId, row.externalTransactionId)) _ _ _ _
    hlookup).trans hself

omit [Driver] in
/-- The wallet of a reversal that waits is there, and in order. -/
theorem Sound.waiting_wallet (hs : Sound sh) (hnames : sh.db.NamesOwn) (hp : p ∈ sh.db.wagers)
    (hstatus : p.status = .pendingReference) :
    ∃ w, sh.db.walletById p.walletId = some w ∧ w.playerId = p.playerId ∧
      w.currency = p.currency := by
  obtain ⟨w, hw, hid, hcurrency⟩ := (hs.books.wagers p hp).wallet (.inr hstatus)
  obtain ⟨v, hv, hvid, hplayer⟩ :=
    hnames p hp (hs.waiting_shows hp (by rw [hstatus]; rfl))
  obtain rfl : v = w := hs.books.walletIds.eq_of_key hv hw (hvid.trans hid.symm)
  exact ⟨v, (Keyed.Distinct.lookup_eq_some hs.books.walletIds).mpr ⟨hv, hid⟩, hplayer, hcurrency⟩

/-- A reversal that waited is decided as if it had not. -/
theorem Reachable.waitsForNothing (h : Reachable w) : WaitsForNothing w := by
  intro p hp hstatus r hr command t hrequests hnew hsame hplayer now
  have hs := h.sound.inv
  obtain ⟨wallet, hwallet, howner, hcurrency⟩ := hs.waiting_wallet h.namesOwn hp hstatus
  have hcanonical : uuidText p.walletId = p.walletId :=
    congrArg WagerTransactionRow.walletId (hs.wagers p hp).stored
  have hlate : w.shared.db.snapshot.wallet p.walletId = some wallet := by
    change w.shared.db.walletById (uuidText p.walletId) = some wallet
    rw [hcanonical]
    exact hwallet
  have hnow : (w.shared.db.reserving t).snapshot.wallet command.walletId = some wallet := by
    change w.shared.db.walletById (uuidText command.walletId) = some wallet
    rw [← hrequests.walletId, hsame.walletId]
    exact hwallet
  have hkind : t.kind.isReversal = true := by
    rw [hsame.kind]
    exact (hs.books.wagers p hp).waits hstatus
  have hdecidable := hnew.decidable_settled ((hsame.settled _).trans hr)
  have hverdict : w.shared.db.verdict command t =
      p.judgeReversal r wallet (hasActiveReversal w.shared.db.wagers r.id) := by
    unfold Database.verdict
    rw [Snapshot.judge_reversal hnow (howner.trans hplayer.symm)
      (hcurrency.trans hsame.currency.symm) hkind, hdecidable]
    refine (hsame.judgeReversal r wallet _).trans ?_
    exact congrArg _ (hasActiveReversal_concat hnew.pending _ _)
  have hdue : w.shared.db.snapshot.judgeDue p =
      p.judgeReversal r wallet (hasActiveReversal w.shared.db.wagers r.id) := by
    unfold Snapshot.judgeDue
    rw [hlate, hr]
    rfl
  unfold Snapshot.judgeLate
  rw [hr, hverdict, ← hdue]
  rfl

end Proofs

section Sample

local instance awaitedPlatform : Platform := samplePlatform

local instance awaitedDriver : Driver := sampleDriver

/-- The refund that waits, asked for once more. -/
def refundAgain : SubmitWagerCommand :=
  sampleSubmit .refund (utf16 "refund-2") (some (utf16 "bet-1"))

/-- What it asks for. -/
def askedAgain : WagerTransaction where
  toCreateWagerTransactionProps :=
    refundAgain.props (sampleId 20) sampleMoney 30000
  status := .pending
  referenceTransactionId := none
  failureCode := none
  resultBalance := none
  attempts := 0
  nextAttemptAt := none
  expiresAt := none
  processedAt := none

/-- The row of it. -/
def rowAgain : WagerTransactionRow := (toWagerTransactionRow askedAgain).stored

theorem refundAgain_requests : refundAgain.Requests rowAgain :=
  ⟨askedAgain, ⟨sampleId 20, sampleMoney, 30000, rfl, rfl⟩, rfl⟩

/-- The bet has come, and the refund waits; the row of the second refund is new. -/
theorem awaited_ready :
    (∃ p ∈ awaitedService.shared.db.wagers, p.status = .pendingReference ∧
      (awaitedService.shared.db.snapshot.settled p).isSome = true ∧ SameRequest rowAgain p ∧
      refundAgain.playerId = p.playerId) ∧
    (∀ r ∈ awaitedService.shared.db.wagers, r.id ≠ rowAgain.id) ∧
    (∀ r ∈ awaitedService.shared.db.wagers,
      (r.providerId, r.externalTransactionId) ≠
        (rowAgain.providerId, rowAgain.externalTransactionId)) ∧
    (awaitedService.shared.db.verdict refundAgain rowAgain).status = .processed := by
  unfold awaitedService
  decide +kernel

/-- The refund that waits is processed, as the new one would be. -/
theorem awaited_waitsForNothing : ∃ p ∈ awaitedService.shared.db.wagers,
    p.status = .pendingReference ∧ ∃ v, v.status = .processed ∧
      awaitedService.shared.db.verdict refundAgain rowAgain = v ∧
      awaitedService.shared.db.snapshot.judgeLate 30000 p = some v := by
  obtain ⟨⟨p, hp, hstatus, hsettled, hsame, hplayer⟩, hid, hexternal, hprocessed⟩ := awaited_ready
  obtain ⟨r, hr⟩ := Option.isSome_iff_exists.mp hsettled
  have hnew : awaitedService.shared.db.New rowAgain := ⟨rfl, hid, hexternal⟩
  exact ⟨p, hp, hstatus, _, hprocessed, rfl,
    awaited_reachable.waitsForNothing p hp hstatus r hr refundAgain rowAgain
      refundAgain_requests hnew hsame hplayer 30000⟩

end Sample

end Wagering
