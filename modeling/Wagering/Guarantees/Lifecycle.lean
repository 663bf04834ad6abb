import Wagering.Correctness.History

/-!
# The life of a transaction

A committed transaction is waiting or settled, never PENDING.  It settles once,
and a settled row stays as it is.  While it waits, its attempts count the
reschedules that were committed for it, and nothing else.
-/

namespace Wagering

open Interleave

/-- From one committed state to a later one, a row became this one. -/
structure Ages (t t' : WagerTransactionRow) : Prop where
  same : SameIdentity t t'
  status : t'.status = t.status ∨
    t.status = .pendingReference ∧
      (t'.status = .processed ∨ t'.status = .rejected ∨ t'.status = .failed)
  final : t.status.isTerminal = true → t' = t

/-- The attempts of a transaction; 0 as long as there is no row. -/
def Database.attemptsOf (db : Database) (id : Text) : Int :=
  ((db.wagerById id).map WagerTransactionRow.attempts).getD 0

variable [Platform]

/-- The ending is the commit of a reschedule of the transaction. -/
def reschedules (id : Text) : Ending store Answer → Bool
  | .committed _ _ (.resolved (.rescheduled id' _ _ _ _)) => id' = id
  | _ => false

/-- How often the transaction has been rescheduled. -/
def rescheduled (id : Text) (history : List (Nat × Ending store Answer)) : Nat :=
  history.countP fun h => reschedules id h.2

/-- Only commits reschedule. -/
theorem rescheduled_commits (id : Text) (history : List (Nat × Ending store Answer)) :
    rescheduled id (World.commitsOf history) = rescheduled id history := by
  unfold rescheduled World.commitsOf
  rw [List.countP_filter]
  refine List.countP_congr fun h _ => ?_
  rcases h with ⟨i, ending⟩
  cases ending with
  | committed sh l a => simp [World.isCommit]
  | failed sh l e => simp [reschedules]

variable {sh : Shared} {l : Local} {id : Text}

/-! ## Counting attempts -/

theorem attemptsOf_of_mem (hs : Sound sh) {t : WagerTransactionRow} (ht : t ∈ sh.db.wagers) :
    sh.db.attemptsOf t.id = t.attempts := by
  have hlookup : sh.db.wagerById t.id = some t := hs.books.wagerIds.lookup ht
  rw [Database.attemptsOf, hlookup]
  rfl

omit [Platform] in
theorem attemptsOf_of_fresh {db : Database} (h : ∀ r ∈ db.wagers, r.id ≠ id) :
    db.attemptsOf id = 0 := by
  have hlookup : db.wagerById id = none := Keyed.lookup_eq_none.mpr h
  rw [Database.attemptsOf, hlookup]
  rfl

omit [Platform] in
theorem attemptsOf_congr {db db' : Database} (h : db'.wagers = db.wagers) :
    db'.attemptsOf id = db.attemptsOf id := by
  unfold Database.attemptsOf Database.wagerById
  rw [h]

section Put

variable {db db' : Database} {tx : WagerTransactionRow}

omit [Platform] in
theorem attemptsOf_put_self (hids : Keyed.Distinct WagerTransactionRow.id db.wagers)
    (h : db'.wagers = Keyed.put WagerTransactionRow.id tx db.wagers) :
    db'.attemptsOf tx.id = tx.attempts := by
  unfold Database.attemptsOf Database.wagerById
  rw [h, Keyed.lookup_put_self hids]
  rfl

omit [Platform] in
theorem attemptsOf_put_other (hids : Keyed.Distinct WagerTransactionRow.id db.wagers)
    (h : db'.wagers = Keyed.put WagerTransactionRow.id tx db.wagers) (hne : id ≠ tx.id) :
    db'.attemptsOf id = db.attemptsOf id := by
  unfold Database.attemptsOf Database.wagerById
  rw [h, Keyed.lookup_put_other hids hne]

end Put

/-- The attempts of the row that a decision leaves. -/
theorem attemptsOf_decided {b : Books} {d : Decision} (hd : b.Decides d) (hs : Sound sh)
    (hb : b.wagers = sh.db.wagers) :
    d.tx.attempts = sh.db.attemptsOf d.tx.id ∨
      d.tx.attempts = sh.db.attemptsOf d.tx.id + 1 ∧ d.tx.status = .pendingReference ∧
        ∃ p ∈ sh.db.wagers, p.id = d.tx.id ∧ p.status = .pendingReference := by
  rcases hd.counted with ⟨fresh, hzero⟩ | ⟨p, hp, hid, hwaits, hcounts⟩
  · rw [hb] at fresh
    exact .inl (hzero.trans (attemptsOf_of_fresh fresh).symm)
  · rw [hb] at hp
    have hattempts : sh.db.attemptsOf d.tx.id = p.attempts := hid ▸ attemptsOf_of_mem hs hp
    rw [hattempts]
    split at hcounts
    case isTrue hstatus =>
      exact .inr ⟨congrArg WagerTransactionRow.attempts hcounts, hstatus, p, hp, hid, hwaits⟩
    case isFalse => exact .inl hcounts

theorem Concluded.attemptsOf_other {d : Decision} (h : Concluded d sh l) (hs : Sound sh)
    (hne : id ≠ d.tx.id) : (l.view sh.db).attemptsOf id = sh.db.attemptsOf id :=
  attemptsOf_put_other hs.books.wagerIds (congrArg Books.wagers (h.books hs)) hne

theorem Concluded.attemptsOf_self {d : Decision} (h : Concluded d sh l) (hs : Sound sh) :
    (l.view sh.db).attemptsOf d.tx.id = d.tx.attempts :=
  attemptsOf_put_self hs.books.wagerIds (congrArg Books.wagers (h.books hs))

/-- A decision that settles its transaction, or that creates it, counts no attempt. -/
theorem Concluded.attemptsOf_kept {d : Decision} (h : Concluded d sh l) (hs : Sound sh)
    (hnew : d.tx.status ≠ .pendingReference ∨ ∀ p ∈ sh.db.wagers, p.id ≠ d.tx.id) (id : Text) :
    (l.view sh.db).attemptsOf id = sh.db.attemptsOf id := by
  by_cases hid : id = d.tx.id
  · subst hid
    rw [h.attemptsOf_self hs]
    rcases attemptsOf_decided h.decides hs rfl with hkept | ⟨-, hstatus, p, hp, hpid, -⟩
    · exact hkept
    · rcases hnew with hnot | hfresh
      · exact absurd hstatus hnot
      · exact absurd hpid (hfresh p hp)
  · exact h.attemptsOf_other hs hid

/-- A reschedule counts one. -/
theorem Concluded.attemptsOf_retried {d : Decision} (h : Concluded d sh l) (hs : Sound sh)
    (hstatus : d.tx.status = .pendingReference) (hstands : Stands d.tx.id sh) :
    (l.view sh.db).attemptsOf d.tx.id = sh.db.attemptsOf d.tx.id + 1 := by
  rw [h.attemptsOf_self hs]
  rcases h.decides.counted with ⟨fresh, -⟩ | ⟨p, hp, hid, -, hcounts⟩
  · obtain ⟨p, hp, hid⟩ := hstands
    exact absurd hid (fresh p hp)
  · rw [if_pos hstatus] at hcounts
    rw [← hid, attemptsOf_of_mem hs hp]
    exact congrArg WagerTransactionRow.attempts hcounts

/-! ## What a commit does to the attempts -/

theorem Submission.attemptsOf {command : SubmitWagerCommand} {result : SubmitWagerResult}
    (h : Submission command sh l result) (hs : Sound sh) (ho : Own sh l) (id : Text) :
    (l.view sh.db).attemptsOf id = sh.db.attemptsOf id := by
  cases h with
  | replayed lost => exact attemptsOf_congr (view_wagers_idle lost.idle)
  | @decided d _ concluded key external hash kept inserted =>
    refine concluded.attemptsOf_kept hs (.inr fun p hp hid => ?_) id
    rcases concluded.decides.prior with ⟨fresh, -⟩ | ⟨q, hq, -, same, -⟩
    · exact fresh p hp hid
    · -- the reservation took the key of the row, so no committed row can have it
      exact ho.free _ inserted (wagerIdempotency_mem_iff.mpr
        ⟨q, hq, same.providerId, same.idempotencyKey⟩)

/-- A wallet creation inserts an OPENING that has never been tried. -/
theorem WalletCreated.attemptsOf {command : CreateWalletCommand} {view : WalletView}
    (h : WalletCreated command sh l view) (hs : Sound sh) (hready : Ready sh l) (id : Text) :
    (l.view sh.db).attemptsOf id = sh.db.attemptsOf id := by
  obtain ⟨⟨opened, decision⟩, hallows, hbooks, -, -⟩ := hready.change
  obtain ⟨hsame, -⟩ := sh.db.books.withWallet_eq opened
  cases decision with
  | none => exact attemptsOf_congr ((congrArg Books.wagers hbooks).trans hsame)
  | some d =>
    have hd := hallows.decides d rfl
    have hwagers : (l.view sh.db).wagers = Keyed.put WagerTransactionRow.id d.tx sh.db.wagers := by
      refine (congrArg Books.wagers hbooks).trans ?_
      change Keyed.put _ _ (sh.db.books.withWallet opened).wagers = _
      rw [hsame]
      rfl
    by_cases hid : id = d.tx.id
    · subst hid
      rw [attemptsOf_put_self hs.books.wagerIds hwagers]
      rcases attemptsOf_decided hd hs hsame with hkept | ⟨hmore, hstatus, p, hp, hpid, hwaits⟩
      · exact hkept
      · -- the row that waits would be the OPENING, which is processed at once
        have hmem : d.tx ∈ (l.view sh.db).wagers := hwagers ▸ Keyed.mem_put.mpr (.inl rfl)
        rcases h.wagers d.tx hmem with hold | hkind
        · have heq : p = d.tx := hs.books.eq_of_id hp hold hpid
          rw [← heq, attemptsOf_of_mem hs hp] at hmore
          omega
        · rcases hd.prior with ⟨fresh, -⟩ | ⟨q, hq, hqwaits, same, -⟩
          · exact absurd hpid (fresh p (hsame.symm ▸ hp))
          · rw [hsame] at hq
            have hprocessed := (hs.books.wagers q hq).openingProcessed (same.kind.trans hkind)
            rw [hqwaits] at hprocessed
            cases hprocessed
    · exact attemptsOf_put_other hs.books.wagerIds hwagers hid

variable [Driver]

theorem Settles.attemptsOf {past : List (Ending store Answer)} {outcome : PendingReferenceOutcome}
    (h : Settles past sh l outcome) (hs : Sound sh) (id : Text) :
    (l.view sh.db).attemptsOf id = sh.db.attemptsOf id +
      if reschedules id (.committed sh l (.resolved outcome)) then 1 else 0 := by
  cases h with
  | first h =>
    cases h.2 with
    | idle log =>
      simp only [reschedules, Bool.false_eq_true, if_false, Int.add_zero]
      exact attemptsOf_congr (view_wagers_idle (by rw [log]; rfl))
    | @rescheduled d _ _ _ concluded stands status =>
      simp only [reschedules, decide_eq_true_eq]
      split
      case isTrue hid => exact hid ▸ concluded.attemptsOf_retried hs status stands
      case isFalse hid =>
        rw [Int.add_zero]
        exact concluded.attemptsOf_other hs (Ne.symm hid)
    | settled concluded stands status =>
      simp only [reschedules, Bool.false_eq_true, if_false, Int.add_zero]
      refine concluded.attemptsOf_kept hs (.inl ?_) id
      rcases status with hstatus | hstatus <;> rw [hstatus] <;> decide
  | second attempted failure lasting inbox h =>
    cases h with
    | mk concluded stands tx status =>
      simp only [reschedules, Bool.false_eq_true, if_false, Int.add_zero]
      exact concluded.attemptsOf_kept hs (.inl (by rw [status]; decide)) id

theorem Committed.attemptsOf {w : Service} {i : Nat} {a : Answer} {entry : Entry}
    {past : List (Ending store Answer)} (h : Committed w i sh l a entry past) (id : Text) :
    (l.view sh.db).attemptsOf id = sh.db.attemptsOf id +
      if reschedules id (.committed sh l a) then 1 else 0 := by
  have hcommits := h.commits
  cases entry with
  | createWallet command =>
    obtain ⟨view, rfl, created⟩ := hcommits
    simpa [reschedules] using created.attemptsOf h.sound h.ready id
  | submit command =>
    obtain ⟨result, rfl, -, submission⟩ := hcommits
    simpa [reschedules] using submission.attemptsOf h.sound h.own id
  | consume delivery command =>
    obtain ⟨outcome, rfl, consumption⟩ := hcommits
    have hidle : l.log = [] → (l.view sh.db).attemptsOf id = sh.db.attemptsOf id :=
      fun hlog => attemptsOf_congr (view_wagers_idle (by rw [hlog]; rfl))
    cases consumption with
    | processed inbox submission => simpa [reschedules] using submission.attemptsOf h.sound h.own id
    | duplicate log => simpa [reschedules] using hidle log
    | permanent log => simpa [reschedules] using hidle log
  | resolvePending =>
    obtain ⟨outcome, rfl, settles⟩ := hcommits
    exact settles.attemptsOf h.sound id

/-! ## Over every run -/

variable {w w' : Service}

/-- The attempts of every transaction are its reschedules. -/
theorem Reachable.attemptsOf (h : Reachable w) (id : Text) :
    w.shared.db.attemptsOf id = rescheduled id w.history := by
  induction h with
  | refl => rfl
  | @tail mid w' hmid last ih =>
    have hreach : Reachable w' := Relation.ReflTransGen.tail hmid last
    obtain ⟨action, hstep⟩ := last
    obtain ⟨-, hshared⟩ := World.step_cases hstep
    rcases hshared with ⟨hcommits, hquiet⟩ | ⟨i, l, a, hcommit, hhistory⟩
    · rw [← rescheduled_commits id w'.history, hcommits, rescheduled_commits, ← ih]
      rcases hquiet with heq | ⟨others, l, op, input, r, hop⟩ | ⟨a, -, ha⟩
      · rw [heq]
      · rw [(exec_effect hop).1]
      · obtain ⟨outbox, publishing, heq, -, -⟩ := ambient_same ha
        rw [heq]
        rfl
    · have hmem : (i, Ending.committed mid.shared l a) ∈ w'.history := by
        rw [hhistory]
        exact List.mem_append_right _ (List.mem_singleton.mpr rfl)
      obtain ⟨entry, past, hcommitted⟩ := hreach.commit_recorded hmem
      have hstep : (l.view mid.shared.db).attemptsOf id = _ := hcommitted.attemptsOf id
      rw [hcommit, hhistory, rescheduled, List.countP_append, List.countP_singleton]
      rw [ih, rescheduled] at hstep
      push_cast
      exact hstep

omit [Driver] in
/-- A committed row is waiting or settled. -/
theorem Sound.status_cases (hs : Sound sh) {t : WagerTransactionRow} (ht : t ∈ sh.db.wagers) :
    t.status = .pendingReference ∨
      t.status = .processed ∨ t.status = .rejected ∨ t.status = .failed := by
  have hsettled := (hs.books.wagers t ht).settled
  unfold Books.Settled at hsettled
  cases hstatus : t.status with
  | pending => rw [hstatus] at hsettled; exact hsettled.elim
  | pendingReference => exact .inl rfl
  | processed => exact .inr (.inl rfl)
  | rejected => exact .inr (.inr (.inl rfl))
  | failed => exact .inr (.inr (.inr rfl))

omit [Driver] in
theorem Evolves.ages {sh sh' : Shared} (h : Evolves sh sh') (hs : Sound sh) (hs' : Sound sh')
    {t : WagerTransactionRow} (ht : t ∈ sh.db.wagers) : ∃ t' ∈ sh'.db.wagers, Ages t t' := by
  by_cases hfinal : t.status.isTerminal = true
  · exact ⟨t, h.terminal t ht hfinal, .refl t, .inl rfl, fun _ => rfl⟩
  · obtain ⟨t', ht', same, -⟩ := h.wagers t ht
    refine ⟨t', ht', same, ?_, fun hterm => absurd hterm hfinal⟩
    rcases hs.status_cases ht with hwaits | hsettled
    · rcases hs'.status_cases ht' with hwaits' | hsettled'
      · exact .inl (hwaits'.trans hwaits.symm)
      · exact .inr ⟨hwaits, hsettled'⟩
    · rcases hsettled with h | h | h <;> rw [h] at hfinal <;> exact absurd rfl hfinal

/-- What holds of every transaction over the runs that go on from `w`. -/
structure Lives (w : Service) : Prop where
  decided : ∀ t ∈ w.shared.db.wagers, t.status ≠ .pending
  attempts : ∀ t ∈ w.shared.db.wagers, t.attempts = rescheduled t.id w.history
  kept : ∀ w', World.Steps units w w' → ∀ t ∈ w.shared.db.wagers,
    ∃ t' ∈ w'.shared.db.wagers, t'.id = t.id
  ages : ∀ w', World.Steps units w w' → ∀ t ∈ w.shared.db.wagers, ∀ t' ∈ w'.shared.db.wagers,
    t'.id = t.id → Ages t t'
  once : ∀ w' w'', World.Steps units w w' → World.Steps units w' w'' →
    ∀ t ∈ w.shared.db.wagers, ∀ t' ∈ w'.shared.db.wagers, ∀ t'' ∈ w''.shared.db.wagers,
      t'.id = t.id → t''.id = t.id → t'.status ≠ t.status → t'' = t'

/-- Every transaction lives by its life cycle over every run of the service. -/
theorem Reachable.lifecycle (h : Reachable w) : Lives w := by
  have hages : ∀ {u v : Service}, Reachable u → World.Steps units u v →
      ∀ t ∈ u.shared.db.wagers, ∀ t' ∈ v.shared.db.wagers, t'.id = t.id → Ages t t' := by
    intro u v hu huv t ht t' ht' hid
    have hv : Reachable v := Relation.ReflTransGen.trans hu huv
    obtain ⟨s, hs, ages⟩ := Evolves.ages (hu.evolves huv) hu.sound.inv hv.sound.inv ht
    have heq : s = t' := hv.sound.inv.books.eq_of_id hs ht' (ages.same.id.symm.trans hid.symm)
    exact heq ▸ ages
  refine
    { decided := fun t ht hpending => ?decided
      attempts := fun t ht => ?attempts
      kept := fun w' hsteps t ht => ?kept
      ages := fun w' hsteps => hages h hsteps
      once := fun w' w'' hsteps hsteps' t ht t' ht' t'' ht'' hid hid'' hne => ?once }
  case decided =>
    rcases h.sound.inv.status_cases ht with h | h | h | h <;> rw [h] at hpending <;> cases hpending
  case attempts => rw [← h.attemptsOf, attemptsOf_of_mem h.sound.inv ht]
  case kept =>
    obtain ⟨t', ht', same, -⟩ := (h.evolves hsteps).wagers t ht
    exact ⟨t', ht', same.id.symm⟩
  case once =>
    have hmid : Reachable w' := Relation.ReflTransGen.trans h hsteps
    refine (hages hmid hsteps' t' ht' t'' ht'' (hid''.trans hid.symm)).final ?_
    rcases (hages h hsteps t ht t' ht' hid).status with hsame | ⟨-, h | h | h⟩
    · exact absurd hsame hne
    all_goals rw [h]; rfl

omit [Platform] [Driver] in
theorem sample_lifecycle : @Lives samplePlatform sampleDriver sampleService :=
  @Reachable.lifecycle samplePlatform sampleDriver sampleService sample_reachable

end Wagering
