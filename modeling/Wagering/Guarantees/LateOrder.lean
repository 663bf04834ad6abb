import Wagering.Guarantees.CommitOrder
import Wagering.Guarantees.LateJudgements

/-!
# The worker in the order of commits

What the worker does with a reversal that waits is, like a submission, decided by
the very tables that its commit finds.  Only the reference can outpace it: one
that appears, or is settled, while the worker is at it.
-/

namespace Wagering

open Interleave

section Statements

/-- The tables have come to know the reference, or how it is settled. -/
inductive OutpacedLate (p : WagerTransactionRow) (before after : Database) : Prop
  | settled (open_ : before.snapshot.settled p = none)
    (settled : (after.snapshot.settled p).isSome = true) : OutpacedLate p before after
  | appeared (missing : before.snapshot.reference p = none)
    (found : (after.snapshot.reference p).isSome = true) : OutpacedLate p before after

variable [Platform] [Driver]

/-- The reversal was handled as the tables `sh` have it, unless these have outpaced
the worker. -/
inductive HandledInOrder (w : Service) (i : Nat) (sh : Shared) (l : Local)
    (outcome : PendingReferenceOutcome) (p : WagerTransactionRow) (now : Instant) : Prop
  | current (handles : Handles sh l outcome p (sh.db.snapshot.judgeLate now p)) :
    HandledInOrder w i sh l outcome p now
  | outpaced {m : Service} (during : During w m i (.committed sh l (.resolved outcome)))
    (outpaced : OutpacedLate p m.shared.db sh.db)
    (handles : Handles sh l outcome p (m.shared.db.snapshot.judgeLate now p)) :
    HandledInOrder w i sh l outcome p now

/-- Every commit of the worker that neither finds nothing to do nor gives a reversal
up handles one by the tables that it finds. -/
def ResolvesInCommitOrder (w : Service) : Prop :=
  ∀ i sh l outcome, (i, .committed sh l (.resolved outcome)) ∈ w.history →
    (outcome = .idle ∧ l.log = []) ∨ (∃ id, GivenUp id sh l outcome) ∨
    ∃ p ∈ sh.db.wagers, p.status = .pendingReference ∧ ∃ now, l.readings = [now] ∧
      HandledInOrder w i sh l outcome p now

end Statements

section Proofs

variable {db : Database} {p r : WagerTransactionRow} {wallet : WalletRow} {now : Instant}

/-! ## What the judgement depends on -/

/-- The verdict on a reversal that waits shows the balance of its wallet. -/
theorem judgeDue_shows (hwallet : db.walletById (uuidText p.walletId) = some wallet) :
    (db.snapshot.judgeDue p).resultBalance.isSome = true := by
  unfold Snapshot.judgeDue
  rw [show db.snapshot.wallet p.walletId = some wallet from hwallet]
  simp only
  split
  · rfl
  · exact judgeReversal_shows

/-- The judgement on a reversal depends on its wallet, on the reference and on its
slot. -/
theorem judgeLate_congr {db db' : Database}
    (hsettled : db.snapshot.settled p = db'.snapshot.settled p)
    (hfound : (db.snapshot.reference p).isNone = (db'.snapshot.reference p).isNone)
    (hwallet : (db.snapshot.judgeLate now p).isSome = true →
      db.walletById (uuidText p.walletId) = db'.walletById (uuidText p.walletId))
    (hslot : ∀ r ∈ db.snapshot.settled p, p.mismatch r = none →
      (db.snapshot.judgeLate now p).isSome = true →
      hasActiveReversal db.wagers r.id = hasActiveReversal db'.wagers r.id) :
    db.snapshot.judgeLate now p = db'.snapshot.judgeLate now p := by
  unfold Snapshot.judgeLate at hwallet hslot ⊢
  rw [← hsettled]
  split
  · rfl
  · rename_i hdue
    rw [if_neg hdue] at hwallet hslot
    refine congrArg some ?_
    unfold Snapshot.judgeDue
    rw [show db.snapshot.wallet p.walletId = db'.snapshot.wallet p.walletId from hwallet rfl,
      ← hsettled, hfound]
    cases db'.snapshot.wallet p.walletId with
    | none => rfl
    | some wallet =>
      cases hr : db.snapshot.settled p with
      | none => rfl
      | some r => exact judgeReversal_congr rfl fun hfits => hslot r hr hfits rfl

/-! ## Over every run -/

variable [Platform]

/-- A reference that is there stays there. -/
theorem Evolves.reference {sh sh' : Shared} (h : Evolves sh sh') (hs : Sound sh) (hs' : Sound sh')
    (hfound : sh.db.snapshot.reference p = some r) :
    (sh'.db.snapshot.reference p).isSome = true := by
  obtain ⟨hmem, hkey⟩ := (hs.mem_wagerByExternal _ _ r).mp hfound
  obtain ⟨r', hr', same, -⟩ := h.wagers r hmem
  apply Option.isSome_iff_exists.mpr
  refine ⟨r', (hs'.mem_wagerByExternal _ _ r').mpr ⟨hr', ?_⟩⟩
  rw [← same.providerId, ← same.externalTransactionId]
  exact hkey

variable [Driver] {m u w : Service} {i : Nat}

/-- What was judged in one state is judged so when it is committed. -/
theorem HandledIn.current (h : HandledIn m u i p now) (hu : Reachable u) :
    m.shared.db.snapshot.judgeLate now p = u.shared.db.snapshot.judgeLate now p ∨
      OutpacedLate p m.shared.db u.shared.db := by
  by_cases hover : OutpacedLate p m.shared.db u.shared.db
  · exact .inr hover
  have hevolves := h.reachable.evolves h.later
  have hs := h.reachable.sound.inv
  have hs' := hu.sound.inv
  obtain ⟨wallet, hmem, hid, -⟩ := (hs.books.wagers p h.mem).wallet (.inr h.status)
  have hcanonical : uuidText p.walletId = p.walletId :=
    congrArg WagerTransactionRow.walletId (hs.wagers p h.mem).stored
  have hthen : m.shared.db.walletById (uuidText p.walletId) = some wallet := by
    rw [hcanonical]
    exact (Keyed.Distinct.lookup_eq_some hs.books.walletIds).mpr ⟨hmem, hid⟩
  -- whoever judges the reversal has its wallet in hand
  have hnow : (m.shared.db.snapshot.judgeLate now p).isSome = true →
      u.shared.db.walletById (uuidText p.walletId) = some wallet := by
    intro hjudged
    obtain ⟨v, hv⟩ := Option.isSome_iff_exists.mp hjudged
    refine (h.wallet v hv ?_).trans hthen
    unfold Snapshot.judgeLate at hv
    split at hv
    · cases hv
    · obtain rfl := Option.some.inj hv
      exact judgeDue_shows hthen
  refine .inl (judgeLate_congr
    (hevolves.settled_same hs hs' fun hopen hsettled => hover (.settled hopen hsettled))
    ?found (fun hjudged => ?wallet) fun r hr hfits hjudged => ?slot)
  case found =>
    cases hfound : m.shared.db.snapshot.reference p with
    | some r =>
      obtain ⟨r', hr'⟩ := Option.isSome_iff_exists.mp (hevolves.reference hs hs' hfound)
      rw [hr']
      rfl
    | none =>
      cases hfound' : u.shared.db.snapshot.reference p with
      | none => rfl
      | some r => exact absurd (.appeared hfound (by rw [hfound']; rfl)) hover
  case wallet => exact hthen.trans (hnow hjudged).symm
  case slot =>
    exact hevolves.slot_same hs hs' hmem (Keyed.mem_of_lookup (hnow hjudged)) hr hfits hid.symm

/-- Over every run of the service the worker decides in the order of the commits. -/
theorem Reachable.resolvesInCommitOrder (h : Reachable w) : ResolvesInCommitOrder w := by
  intro i sh l outcome hmem
  obtain ⟨u, hu, huw, rfl, hpast, hidle | ⟨m, p, now, hreading, hin, hhandles⟩ |
    ⟨before, loc, error, id, -, -, -, hgives⟩⟩ := h.resolved_commit hmem
  · exact .inl hidle
  · refine .inr (.inr ⟨p, hin.kept, hin.status, now, hreading, ?_⟩)
    rcases hin.current hu with heq | hover
    · exact .current (heq ▸ hhandles)
    · exact .outpaced (.of_steps hin.reachable hin.begun hin.later huw hpast) hover hhandles
  · exact .inr (.inl ⟨id, hgives⟩)

end Proofs

/-- The worker reschedules, settles and gives up. -/
theorem busy_resolvesInCommitOrder :
    @ResolvesInCommitOrder samplePlatform sampleDriver busyService ∧
      workerCommits busyService = busyOutcomes :=
  ⟨@Reachable.resolvesInCommitOrder samplePlatform sampleDriver busyService busy_reachable,
    busy_ends.1⟩

end Wagering
