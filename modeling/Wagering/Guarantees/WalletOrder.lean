import Wagering.Guarantees.Outbox
import Wagering.Publishing.Service

/-!
# The order of one wallet's events

A claim goes by `(occurred_at, id)`, and `occurred_at` is the clock as the unit
read it before it waited for the wallet.  Units that get the wallet in another
order than they read their clocks are published in the order of the clocks, not
in that of the versions.
-/

namespace Wagering

open Interleave

/-! ## Publish calls, in order -/

/-- A step of the machine adds at most one publish call, of a publisher that has
the message in hand. -/
theorem Outbox.Does.calls {s s' : Outbox} (h : s.Does s') :
    s'.publishing.calls = s.publishing.calls ∨
      ∃ publisherId claim succeeded, s.publishing.stage publisherId = .claimed claim ∧
        s'.publishing.calls = s.publishing.calls ++ [(claim.eventId, succeeded)] := by
  cases h with
  | insert => exact .inl rfl
  | claim => exact .inl rfl
  | publish failure stage => exact .inr ⟨_, _, _, stage, rfl⟩
  | complete => exact .inl rfl
  | drop => exact .inl rfl
  | idle => exact .inl rfl

/-- A list that grew by one element, split at one of its elements. -/
theorem split_concat {α : Type} {xs earlier later : List α} {x y : α}
    (h : xs ++ [x] = earlier ++ y :: later) :
    (xs = earlier ∧ x = y) ∨ ∃ later', xs = earlier ++ y :: later' := by
  rcases List.eq_nil_or_concat later with rfl | ⟨later', z, rfl⟩
  · obtain ⟨rfl, hxy⟩ := List.append_inj' h rfl
    cases hxy
    exact .inl ⟨rfl, rfl⟩
  · rw [List.concat_eq_append, ← List.cons_append, ← List.append_assoc] at h
    exact .inr ⟨later', (List.append_inj' h rfl).1⟩

/-- The calls for the younger row of a group come after the older one has ended. -/
theorem Outbox.Steps.calledAfter {s s' : Outbox} (h : Outbox.Steps s s') (hsound : s.Sound)
    {m₁ m₂ : OutboxMessageRow} (hm₁ : m₁ ∈ s.rows) (hm₂ : m₂ ∈ s.rows)
    (hgroup : m₁.aggregateId = m₂.aggregateId) (hlt : m₁.lt m₂ = true)
    (hunclaimed : m₂.id ∉ s.publishing.claims) {earlier later : List (Text × Bool)}
    {succeeded : Bool}
    (hcalls : s'.publishing.calls = earlier ++ (m₂.eventId, succeeded) :: later) :
    (m₁.eventId, true) ∈ earlier ∨
      600 ≤ earlier.countP fun call => call = (m₁.eventId, false) := by
  induction h generalizing later with
  | refl =>
    obtain ⟨n, hn, hevent, hclaimed⟩ := hsound.calls (m₂.eventId, succeeded) (by
      rw [hcalls]
      exact List.mem_append_right _ List.mem_cons_self)
    rw [hsound.eventIds.eq_of_key hn hm₂ hevent] at hclaimed
    exact absurd hclaimed hunclaimed
  | @tail mid s' before last ih =>
    have hmid := hsound.steps before
    rcases last.does.calls with hsame | ⟨publisherId, claim, answer, hstage, hadd⟩
    · exact ih (hsame ▸ hcalls)
    · rw [hadd] at hcalls
      rcases split_concat hcalls with ⟨rfl, heq⟩ | ⟨later', hold⟩
      · obtain ⟨hclaim, -⟩ := Prod.mk.inj heq
        have hinHand := hmid.stages publisherId
        rw [hstage] at hinHand
        obtain ⟨n, hn, hnid, hnevent, -⟩ := OutboxClaim.InHand.row hinHand
        obtain ⟨m₂', hm₂', hkeeps₂⟩ := Outbox.Steps.keeps before hsound hm₂
        have hn₂ : n = m₂' :=
          hmid.eventIds.eq_of_key hn hm₂'
            ((hnevent.trans hclaim).trans hkeeps₂.same.eventId.symm)
        have hclaimed : m₂'.id ∈ mid.publishing.claims := by
          rw [← hn₂, hnid]
          exact hinHand.claimed
        obtain ⟨m₁', hm₁', hkeeps₁⟩ := Outbox.Steps.keeps before hsound hm₁
        have hsettled : m₁'.unsettled = false := by
          by_contra hpending
          refine Outbox.Steps.waits before hsound .refl hm₁ hm₂'
            (hgroup.trans hkeeps₂.same.aggregateId.symm) ?_ ?_ m₁' hm₁' hkeeps₁.same.id
            (by simpa using hpending) hclaimed
          · rwa [(OutboxMessageRow.SameEvent.refl m₁).lt_iff hkeeps₂.same]
          · rwa [hkeeps₂.same.id]
        have haccounted := hmid.rows m₁' hm₁'
        have hevent : m₁'.eventId = m₁.eventId := hkeeps₁.same.eventId
        by_cases hpublished : m₁'.publishedAt = none
        · right
          rw [← hevent]
          refine haccounted.abandoned fun habandoned => ?_
          rw [OutboxMessageRow.unsettled_iff.mpr ⟨hpublished, habandoned⟩] at hsettled
          cases hsettled
        · left
          rw [← hevent]
          exact haccounted.published hpublished
      · exact ih hold

/-! ## What is promised -/

/-- The balance change that a row announces, if it announces one. -/
def OutboxMessageRow.change? (m : OutboxMessageRow) : Option WalletBalanceChangedData :=
  match m.payload.data with
  | .balanceChanged data => some data
  | _ => none

/-- The send goes through, if the action is one. -/
def PublisherAction.succeeds : PublisherAction → Bool
  | .publish _ (some _) => false
  | _ => true

/-- Without a failed send the number of failures stays. -/
theorem publish_failures {rows rows' : List OutboxMessageRow} {p p' : Publishing}
    {action : PublisherAction} (hsucceeds : action.succeeds = true)
    (h : p.step rows action = some (rows', p')) (eventId : Text) :
    p'.failures eventId = p.failures eventId := by
  cases action with
  | claim publisherId locked claimedAt leaseMs =>
    simp only [Publishing.step] at h
    split at h <;> cases h <;> rfl
  | publish publisherId failure =>
    cases failure with
    | some reason => cases hsucceeds
    | none =>
      simp only [Publishing.step] at h
      split at h
      · cases h
        simp [Publishing.failures]
      · cases h
  | complete publisherId now jitter =>
    simp only [Publishing.step] at h
    split at h <;> cases h
    rfl
  | drop publisherId =>
    cases h
    rfl

/-- Whenever `n` was sent, `m` had been sent before. -/
def SentBefore (m n : OutboxMessageRow) (calls : List (Text × Bool)) : Prop :=
  ∀ earlier later, calls = earlier ++ (n.eventId, true) :: later → (m.eventId, true) ∈ earlier

section Statements

variable [Platform] [Driver] {w : Service}

/-- Whatever publishers do from here on, if no send fails: the balance changes of
one wallet that nobody has claimed yet are first sent in the order of their versions. -/
def SendsByVersion (w : Service) : Prop :=
  ∀ schedule : List PublisherAction, (∀ action ∈ schedule, action.succeeds = true) →
    ∀ w', World.run units w (schedule.map .ambient) = some w' →
      ∀ m ∈ w.shared.db.outbox, ∀ n ∈ w.shared.db.outbox,
        m.id ∉ w.shared.publishing.claims → n.id ∉ w.shared.publishing.claims →
        ∀ c d, m.change? = some c → n.change? = some d → c.walletId = d.walletId →
          c.walletVersion < d.walletVersion → SentBefore m n w'.shared.publishing.calls

/-- The balance changes that the transaction announces stand, by the clock it
read and the identifier it generated, above those that their wallet has. -/
def Timely (sh : Shared) (l : Local) : Prop :=
  ∀ n ∈ newMessages l.log, ∀ m ∈ sh.db.outbox, ∀ c d, m.change? = some c → n.change? = some d →
    c.walletId = d.walletId → m.lt n = true

/-- Every transaction that committed was timely. -/
def TimelyRun (w : Service) : Prop :=
  ∀ i sh l a, (i, .committed sh l a) ∈ w.history → Timely sh l

/-! ## Timely runs -/

omit [Platform] [Driver] in
theorem change?_iff {m : OutboxMessageRow} {c : WalletBalanceChangedData} :
    m.change? = some c ↔ m.payload.data.changeOf c.walletId = some c := by
  unfold OutboxMessageRow.change? EventData.changeOf
  cases m.payload.data with
  | balanceChanged data =>
    simp only [Option.some.injEq]
    constructor
    · rintro rfl
      rw [if_pos rfl]
    · intro h
      split at h
      · exact Option.some.inj h
      · cases h
  | processed data => simp
  | rejected data => simp
  | pendingReference data => simp

omit [Platform] [Driver] in
theorem walletId_of_changeOf {data : EventData} {id : Text} {c : WalletBalanceChangedData}
    (h : data.changeOf id = some c) : c.walletId = id := by
  unfold EventData.changeOf at h
  split at h
  · split at h
    · cases h
      assumption
    · cases h
  · cases h

/-- `(occurred_at, id) < (occurred_at, id)`, for the rows of two events. -/
def IntegrationEvent.precedes (event later : IntegrationEvent) : Bool :=
  !(later.occurredAt < event.occurredAt ||
    (later.occurredAt = event.occurredAt && Text.le later.eventId event.eventId))

omit [Platform] [Driver] in
theorem OutboxMessageRow.Copies.lt_eq {m n : OutboxMessageRow} (h : m.Copies) (h' : n.Copies) :
    m.lt n = m.payload.precedes n.payload := by
  simp only [OutboxMessageRow.lt, OutboxMessageRow.le, IntegrationEvent.precedes, h.id,
    h.occurredAt, h'.id, h'.occurredAt]

/-- The balance changes of every wallet stand in the order of their stamps. -/
def Stamped (events : List IntegrationEvent) : Prop :=
  ∀ id, events.Pairwise fun event later =>
    (event.data.changeOf id).isSome = true → (later.data.changeOf id).isSome = true →
      event.precedes later = true

omit [Driver] in
/-- What a commit appends to the outbox announces at most one change of a wallet. -/
theorem Ready.announces {sh : Shared} {l : Local} (hready : Ready sh l) :
    ∃ events, (l.view sh.db).books.events = sh.db.books.events ++ events ∧
      ∀ id, (events.filterMap fun ev => ev.data.changeOf id).length ≤ 1 := by
  obtain ⟨c, hallows, hbooks, -, -⟩ := hready.change
  obtain ⟨-, -, hevents⟩ := sh.db.books.withWallet_eq c.opened
  rw [hbooks, Books.amend]
  cases hdecision : c.decision with
  | none => exact ⟨[], by rw [hevents, List.append_nil], fun id => Nat.zero_le _⟩
  | some d =>
    refine ⟨d.events, congrArg (· ++ d.events) hevents, fun id => ?_⟩
    have hd := hallows.decides d hdecision
    have hchanges : d.events.filterMap (fun ev => ev.data.changeOf id) =
        Books.Decision.changes d id := by
      simp [Books.Decision.changes, List.filterMap_map]
    rw [hchanges]
    cases hmovement : d.movement with
    | none =>
      rw [hd.changes_none hmovement]
      exact Nat.zero_le _
    | some move =>
      rw [hd.changes_some hmovement]
      split
      · exact Nat.le_refl _
      · exact Nat.zero_le _

omit [Platform] [Driver] in
/-- Changes that are at most one are in any order. -/
theorem pairwise_of_length_le_one {events : List IntegrationEvent} {id : Text}
    {R : IntegrationEvent → IntegrationEvent → Prop}
    (h : (events.filterMap fun ev => ev.data.changeOf id).length ≤ 1) :
    events.Pairwise fun event later =>
      (event.data.changeOf id).isSome = true → (later.data.changeOf id).isSome = true →
        R event later := by
  have hnone : (events.filterMap fun ev => ev.data.changeOf id).Pairwise fun _ _ => False := by
    generalize events.filterMap (fun ev => ev.data.changeOf id) = changes at h ⊢
    cases changes with
    | nil => exact .nil
    | cons c rest =>
      obtain rfl : rest = [] := List.length_eq_zero_iff.mp (by
        rw [List.length_cons] at h
        omega)
      exact List.pairwise_singleton _ _
  rw [List.pairwise_filterMap] at hnone
  refine hnone.imp fun {event later} hno hevent hlater => ?_
  obtain ⟨c, hc⟩ := Option.isSome_iff_exists.mp hevent
  obtain ⟨d, hd⟩ := Option.isSome_iff_exists.mp hlater
  exact (hno c hc d hd).elim

omit [Driver] in
/-- A timely commit appends its change above the others. -/
theorem Stamped.commit {sh : Shared} {l : Local} (h : Stamped sh.db.books.events)
    (hready : Ready sh l) (hcopies : ∀ m ∈ sh.db.outbox, m.Copies) (hfresh : Enqueues l)
    (htimely : Timely sh l) : Stamped (l.view sh.db).books.events := by
  obtain ⟨events, hevents, hone⟩ := hready.announces
  have hpayloads : (newMessages l.log).map OutboxMessageRow.payload = events := by
    have hrows : (l.view sh.db).books.events = sh.db.books.events ++
        (newMessages l.log).map OutboxMessageRow.payload := by
      simp only [Database.books, Local.view, outbox_after, List.map_append]
    exact List.append_cancel_left (hrows.symm.trans hevents)
  intro id
  rw [hevents, List.pairwise_append]
  refine ⟨h id, pairwise_of_length_le_one (hone id), fun event hevent later hlater he hl => ?_⟩
  obtain ⟨m, hm, rfl⟩ := List.mem_map.mp hevent
  rw [← hpayloads] at hlater
  obtain ⟨n, hn, rfl⟩ := List.mem_map.mp hlater
  obtain ⟨c, hc⟩ := Option.isSome_iff_exists.mp he
  obtain ⟨d, hd⟩ := Option.isSome_iff_exists.mp hl
  have hcid := walletId_of_changeOf hc
  have hdid := walletId_of_changeOf hd
  have hn' : n.Copies := by
    obtain ⟨now, event, rfl⟩ := hfresh n hn
    exact toOutboxRow_copies now event
  rw [← (hcopies m hm).lt_eq hn']
  exact htimely n hn m hm c d (change?_iff.mpr (hcid.symm ▸ hc)) (change?_iff.mpr (hdid.symm ▸ hd))
    (hcid.trans hdid.symm)

/-- A run whose commits are all timely stamps the changes of every wallet in order. -/
theorem Reachable.stamped (h : Reachable w) (hrun : TimelyRun w) :
    Stamped w.shared.db.books.events := by
  induction h with
  | refl => exact fun id => .nil
  | @tail mid w' before last ih =>
    have hnext : Reachable w' := .tail before last
    obtain ⟨action, hstep⟩ := last
    obtain ⟨hextends, hshared⟩ := World.step_cases hstep
    have hmid := ih fun i sh l a hmem => hrun i sh l a (hextends.history.subset hmem)
    rcases hshared with
      ⟨-, heq | ⟨others, l, op, input, r, hop⟩ | ⟨a, -, ha⟩⟩ | ⟨i, l, a, heq, hhistory⟩
    · rwa [heq]
    · rwa [(exec_effect hop).1]
    · obtain ⟨outbox, publishing, hsame, hbooks, -⟩ := ambient_same ha
      rwa [hbooks]
    · have hmem : (i, Ending.committed mid.shared l a) ∈ w'.history := by
        rw [hhistory]
        exact List.mem_append_right _ (List.mem_singleton.mpr rfl)
      obtain ⟨entry, past, hcommitted⟩ := hnext.commit_recorded hmem
      have := hmid.commit hcommitted.ready (Reachable.outbox before).2
        ((hnext.enqueues i).2 _ hmem) (hrun i _ _ _ hmem)
      rw [heq]
      exact this

omit [Driver] in
/-- The changes of a wallet stand in the order of their versions. -/
theorem Books.Consistent.versions {b : Books} (hc : b.Consistent) (id : Text) :
    b.events.Pairwise fun event later => ∀ c d, event.data.changeOf id = some c →
      later.data.changeOf id = some d → c.walletVersion < d.walletVersion := by
  have hsorted : (b.changesOf id).Pairwise fun c d => c.walletVersion < d.walletVersion := by
    by_cases hwallet : ∃ v ∈ b.wallets, v.id = id
    · obtain ⟨v, hv, rfl⟩ := hwallet
      rw [(hc.wallets v hv).changes, List.pairwise_iff_getElem]
      intro i j hi hj hij
      simp only [List.getElem_mapIdx, WalletLedgerEntryRow.changedData]
      omega
    · rw [hc.changes_absent fun v hv heq => hwallet ⟨v, hv, heq⟩]
      exact .nil
  rw [Books.changesOf, List.pairwise_filterMap] at hsorted
  exact hsorted.imp fun h c d hcev hdev => h c hcev d hdev

/-- After a timely run the rows of a wallet's changes stand in the order of their versions. -/
theorem Reachable.change_lt (h : Reachable w) (hrun : TimelyRun w) {m n : OutboxMessageRow}
    (hm : m ∈ w.shared.db.outbox) (hn : n ∈ w.shared.db.outbox)
    {c d : WalletBalanceChangedData} (hc : m.change? = some c) (hd : n.change? = some d)
    (hwallet : c.walletId = d.walletId) (hversion : c.walletVersion < d.walletVersion) :
    m.lt n = true := by
  have hcopies := h.outbox.2
  rw [(hcopies m hm).lt_eq (hcopies n hn)]
  rw [change?_iff] at hc hd
  rw [← hwallet] at hd
  have hstamped := List.pairwise_iff_getElem.mp (h.stamped hrun c.walletId)
  have hversions := List.pairwise_iff_getElem.mp (h.sound.inv.books.versions c.walletId)
  obtain ⟨i, hi, hmi⟩ := List.getElem_of_mem (List.mem_map_of_mem (f := OutboxMessageRow.payload) hm)
  obtain ⟨j, hj, hnj⟩ := List.getElem_of_mem (List.mem_map_of_mem (f := OutboxMessageRow.payload) hn)
  rcases Nat.lt_trichotomy i j with hij | hij | hij
  · have := hstamped i j hi hj hij
    simp only [Database.books, hmi, hnj] at this
    exact this (by rw [hc]; rfl) (by rw [hd]; rfl)
  · subst hij
    rw [hmi] at hnj
    rw [hnj, hd] at hc
    cases hc
    omega
  · have := hversions j i hj hi hij d c
    simp only [Database.books, hmi, hnj] at this
    have := this hd hc
    omega

/-! ## Publishers that do not fail -/

/-- A schedule of publishers is a run of the machine, and one without failed
sends leaves the number of failures. -/
theorem run_publishers {schedule : List PublisherAction}
    (hschedule : ∀ action ∈ schedule, action.succeeds = true) {w w' : Service}
    (h : World.run units w (schedule.map .ambient) = some w') :
    Outbox.Steps (outboxOf w) (outboxOf w') ∧
      ∀ eventId, w'.shared.publishing.failures eventId = w.shared.publishing.failures eventId := by
  induction schedule generalizing w with
  | nil =>
    cases h
    exact ⟨.refl, fun _ => rfl⟩
  | cons action rest ih =>
    rw [List.map_cons, World.run, Option.bind_eq_some_iff] at h
    obtain ⟨mid, hstep, hrest⟩ := h
    obtain ⟨hsteps, hfailures⟩ :=
      ih (fun action haction => hschedule action (List.mem_cons_of_mem _ haction)) hrest
    simp only [World.step, Option.map_eq_some_iff] at hstep
    obtain ⟨shared, ⟨next, hpublish, rfl⟩, rfl⟩ := hstep
    refine ⟨.head ⟨.publisher action, ?_⟩ hsteps, fun eventId => (hfailures eventId).trans ?_⟩
    · simp only [Outbox.step, outboxOf, hpublish, Option.map_some]
    · exact publish_failures (hschedule action List.mem_cons_self) hpublish eventId

/-- After a timely run publishers keep the order of the versions. -/
theorem Reachable.sendsByVersion (h : Reachable w) (hrun : TimelyRun w) : SendsByVersion w := by
  intro schedule hschedule w' hrun' m hm n hn hunclaimed hunclaimed' c d hc hd hwallet hversion
    earlier later hcalls
  obtain ⟨hsteps, hfailures⟩ := run_publishers hschedule hrun'
  have hsound := h.outbox.1.sound
  have hlt := h.change_lt hrun hm hn hc hd hwallet hversion
  have hgroup : m.aggregateId = n.aggregateId := by
    have hevents := h.sound.inv.books.events
    have haggregate : ∀ o ∈ w.shared.db.outbox, ∀ e, o.change? = some e →
        o.aggregateId = e.walletId := by
      intro o ho e he
      rw [(h.outbox.2 o ho).aggregateId, (hevents _ (List.mem_map_of_mem ho)).1]
      unfold OutboxMessageRow.change? at he
      split at he
      · rename_i data hdata
        cases he
        rw [hdata]
        rfl
      · cases he
    rw [haggregate m hm c hc, haggregate n hn d hd, hwallet]
  rcases hsteps.calledAfter hsound hm hn hgroup hlt hunclaimed' hcalls with hsent | hfailed
  · exact hsent
  · -- no call for `m` has failed: none was made before, and none fails now
    have hle : earlier.countP (fun call => call = (m.eventId, false)) ≤
        w'.shared.publishing.failures m.eventId := by
      rw [Publishing.failures, hcalls]
      exact (List.sublist_append_left _ _).countP_le
    have hnone : w.shared.publishing.failures m.eventId = 0 := by
      rw [Publishing.failures, List.countP_eq_zero]
      intro call hcall heq
      obtain ⟨o, ho, hevent, hclaimed⟩ := hsound.calls call hcall
      rw [decide_eq_true_eq] at heq
      rw [heq] at hevent
      rw [hsound.eventIds.eq_of_key ho hm hevent] at hclaimed
      exact hunclaimed hclaimed
    rw [hfailures, hnone] at hle
    omega

/-! ## Clocks that cross -/

/-- `Timely`, evaluated. -/
def isTimely (sh : Shared) (l : Local) : Bool :=
  (newMessages l.log).all fun n => sh.db.outbox.all fun m =>
    match m.change?, n.change? with
    | some c, some d => c.walletId ≠ d.walletId || m.lt n
    | _, _ => true

omit [Platform] [Driver] in
theorem timely_of_isTimely {sh : Shared} {l : Local} (h : isTimely sh l = true) :
    Timely sh l := by
  intro n hn m hm c d hc hd hwallet
  have := List.all_eq_true.mp (List.all_eq_true.mp h n hn) m hm
  rw [hc, hd] at this
  simpa [hwallet] using this

omit [Driver] in
theorem timelyRun_of_all {w : Service}
    (h : (w.history.all fun x => match x.2 with
      | .committed sh l _ => isTimely sh l
      | .failed _ _ _ => true) = true) : TimelyRun w := by
  intro i sh l a hmem
  exact timely_of_isTimely (List.all_eq_true.mp h _ hmem)

end Statements

section Sample

local instance orderPlatform : Platform := samplePlatform

local instance orderDriver : Driver := sampleDriver

def laterBet : SubmitWagerCommand := sampleSubmit .bet (utf16 "bet-2") none

/-- The second bet reads the clock first, and the first bet gets the wallet first. -/
def crossedActions : List (Action store Entry) :=
  serve 0 (.createWallet sampleWallet)
    [.instant 1000, .identity (sampleId 1), .identity (sampleId 2), .identity (sampleId 3), .step,
      .step, .step, .step, .identity (sampleId 4), .identity (sampleId 5), .step] ++
  (.begin (.submit laterBet) :: .begin (.submit sampleBet) :: calls 1 [.instant 2000]) ++
  (calls 2 [.instant 3000, .identity (sampleId 6), .step, .identity (sampleId 7), .step,
    .identity (sampleId 8), .step, .step, .step, .identity (sampleId 9), .step] ++ [.finish 2]) ++
  (calls 1 [.identity (sampleId 10), .step, .identity (sampleId 11), .step,
    .identity (sampleId 12), .step, .step, .step, .identity (sampleId 13), .step] ++ [.finish 1])

/-- One publisher that claims, sends and marks six messages. -/
def drain : List PublisherAction :=
  (List.replicate 6
    [.claim (utf16 "p") [] 5000 30000, .publish (utf16 "p") none,
      .complete (utf16 "p") 5000 0]).flatten

theorem crossed_runs : (World.run units Service.start crossedActions).isSome = true := by
  decide +kernel

/-- The service after both bets. -/
@[irreducible] def crossedService : Service :=
  (World.run units Service.start crossedActions).get crossed_runs

theorem crossed_reachable : Reachable crossedService := by
  unfold crossedService
  exact World.Steps.of_run (Option.some_get crossed_runs).symm

theorem crossed_outbox :
    crossedService.shared.publishing.claims = [] ∧
    crossedService.shared.db.outbox.map (fun m =>
      (m.id, m.eventId, m.change?.map fun c => (c.walletId, c.walletVersion))) =
    [(sampleId 4, sampleId 4, none), (sampleId 5, sampleId 5, some (sampleId 1, 1)),
      (sampleId 7, sampleId 7, none), (sampleId 9, sampleId 9, some (sampleId 1, 2)),
      (sampleId 11, sampleId 11, none), (sampleId 13, sampleId 13, some (sampleId 1, 3))] := by
  decide +kernel

theorem crossed_drained :
    (World.run units crossedService (drain.map .ambient)).map
      (fun w => w.shared.publishing.calls) =
    some [(sampleId 4, true), (sampleId 5, true), (sampleId 11, true), (sampleId 13, true),
      (sampleId 7, true), (sampleId 9, true)] := by
  decide +kernel

/-- A row of the outbox that announces this version. -/
theorem crossed_change {id : Text} {version : Int}
    (h : (id, id, some (sampleId 1, version)) ∈ crossedService.shared.db.outbox.map fun m =>
      (m.id, m.eventId, m.change?.map fun c => (c.walletId, c.walletVersion))) :
    ∃ m ∈ crossedService.shared.db.outbox, m.eventId = id ∧
      ∃ c, m.change? = some c ∧ c.walletId = sampleId 1 ∧ c.walletVersion = version := by
  obtain ⟨m, hm, heq⟩ := List.mem_map.mp h
  simp only [Prod.mk.injEq, Option.map_eq_some_iff] at heq
  obtain ⟨-, hevent, c, hc, hwallet, hversion⟩ := heq
  exact ⟨m, hm, hevent, c, hc, hwallet, hversion⟩

/-- The change to version 3 is sent before the change to version 2. -/
theorem crossed_overtakes : Reachable crossedService ∧ ¬ SendsByVersion crossedService := by
  refine ⟨crossed_reachable, fun hsends => ?_⟩
  obtain ⟨hclaims, houtbox⟩ := crossed_outbox
  obtain ⟨w', hrun, hcalls⟩ := Option.map_eq_some_iff.mp crossed_drained
  obtain ⟨m, hm, hmid, c, hc, hcwallet, hcversion⟩ :=
    @crossed_change (sampleId 9) 2 (by rw [houtbox]; simp)
  obtain ⟨n, hn, hnid, d, hd, hdwallet, hdversion⟩ :=
    @crossed_change (sampleId 13) 3 (by rw [houtbox]; simp)
  have hbefore := hsends drain (by decide) w' hrun m hm n hn (by rw [hclaims]; simp)
    (by rw [hclaims]; simp) c d hc hd (hcwallet.trans hdwallet.symm) (by omega)
    [(sampleId 4, true), (sampleId 5, true), (sampleId 11, true)]
    [(sampleId 7, true), (sampleId 9, true)] (by rw [hcalls, hnid]; rfl)
  rw [hmid] at hbefore
  revert hbefore
  decide +kernel

theorem sample_timely : TimelyRun sampleService :=
  timelyRun_of_all (by decide +kernel)

theorem sample_sendsByVersion : SendsByVersion sampleService :=
  sample_reachable.sendsByVersion sample_timely

end Sample

end Wagering
