import Wagering.Publishing.Invariant

/-!
# What publishers promise

Whatever the order of late writes, clocks, lost leases and crashes, a row ends
at most once and only for the reason its columns give, no row is lost, and a
group is handed out in the order of its events.
-/

namespace Wagering

open Outbox Text

/-! ## The order of a group -/

namespace OutboxMessageRow

variable {m n o : OutboxMessageRow}

theorem le_total (m n : OutboxMessageRow) : m.le n = true ∨ n.le m = true := by
  simp only [le, Bool.or_eq_true, Bool.and_eq_true, decide_eq_true_eq]
  rcases Int.lt_trichotomy m.occurredAt n.occurredAt with h | h | h
  · exact .inl (.inl h)
  · exact (Text.le_total m.id n.id).imp (fun hle => .inr ⟨h, hle⟩) fun hle => .inr ⟨h.symm, hle⟩
  · exact .inr (.inl h)

theorem le_trans (h : m.le n = true) (h' : n.le o = true) : m.le o = true := by
  simp only [le, Bool.or_eq_true, Bool.and_eq_true, decide_eq_true_eq] at h h' ⊢
  rcases h with h | ⟨h, hid⟩ <;> rcases h' with h' | ⟨h', hid'⟩
  · exact .inl (Int.lt_trans h h')
  · exact .inl (h' ▸ h)
  · exact .inl (h ▸ h')
  · exact .inr ⟨h.trans h', Text.le_trans hid hid'⟩

theorem id_eq_of_le (h : m.le n = true) (h' : n.le m = true) : m.id = n.id := by
  simp only [le, Bool.or_eq_true, Bool.and_eq_true, decide_eq_true_eq] at h h'
  rcases h with h | ⟨h, hid⟩ <;> rcases h' with h' | ⟨h', hid'⟩
  · exact absurd (Int.lt_trans h h') (Int.lt_irrefl _)
  · exact absurd (h' ▸ h) (Int.lt_irrefl _)
  · exact absurd (h ▸ h') (Int.lt_irrefl _)
  · exact Text.le_antisymm hid hid'

/-- Two rows with different identifiers stand one before the other. -/
theorem lt_or_lt (h : m.id ≠ n.id) : m.lt n = true ∨ n.lt m = true := by
  simp only [lt, Bool.not_eq_true']
  by_contra hboth
  simp only [not_or, Bool.not_eq_false] at hboth
  exact h (id_eq_of_le hboth.2 hboth.1)

end OutboxMessageRow

/-- No older message of the group is pending. -/
theorem firstOfGroup_iff {rows : List OutboxMessageRow} {m : OutboxMessageRow} :
    firstOfGroup rows m = true ↔
      ∀ older ∈ rows, older.aggregateId = m.aggregateId → older.unsettled = true →
        older.lt m = false := by
  simp only [firstOfGroup, Bool.not_eq_true', List.any_eq_false, Bool.and_eq_true,
    decide_eq_true_eq, not_and, Bool.not_eq_true]
  exact ⟨fun h older hmem hgroup hpending => h older hmem ⟨hgroup, hpending⟩,
    fun h older hmem hboth => h older hmem hboth.1 hboth.2⟩

theorem claimable_firstOfGroup {rows : List OutboxMessageRow} {now : Instant}
    {m : OutboxMessageRow} (h : claimable rows now m = true) : firstOfGroup rows m = true := by
  simp only [claimable, Bool.and_eq_true] at h
  exact h.2

/-! ## One row -/

/-- What the columns of a row tell, and what becomes of it. -/
structure OutboxMessageRow.Settles (s : Outbox) (m : OutboxMessageRow) : Prop where
  published : m.publishedAt.isSome = true → (m.eventId, true) ∈ s.publishing.calls
  once : ¬ (m.publishedAt.isSome = true ∧ m.abandonedAt.isSome = true)
  final : m.unsettled = false → ∀ s', Outbox.Steps s s' →
    m ∈ s'.rows ∧ s'.publishing.claims.count m.id = s.publishing.claims.count m.id
  abandoned : m.abandonedAt.isSome = true → 600 ≤ s.publishing.failures m.eventId
  attempts : m.attempts ≤ s.publishing.failures m.eventId
  lease : m.claimedBy = none ↔ m.claimedUntil = none
  kept : ∀ s', Outbox.Steps s s' → ∃ m' ∈ s'.rows, m.SameEvent m'
  selectable : m.unsettled = true → firstOfGroup s.rows m = true →
    ∃ late, ∀ now, late ≤ now → claimable s.rows now m = true ∧
      ∀ locked, m.id ∉ locked →
        (∀ n ∈ s.rows, claimable s.rows now n = true → n.id ∉ locked → m.le n = true) →
        selectClaimable s.rows locked now = some m

/-- From some instant on a pending row that is the first of its group can be claimed. -/
theorem claimable_late {rows : List OutboxMessageRow} {m : OutboxMessageRow}
    (hpending : m.unsettled = true) (hfirst : firstOfGroup rows m = true) :
    ∃ late, ∀ now, late ≤ now → claimable rows now m = true := by
  cases huntil : m.claimedUntil with
  | none =>
    refine ⟨m.nextAttemptAt, fun now hnow => ?_⟩
    simp only [claimable, hpending, hfirst, huntil, Option.all_none, Bool.and_true, Bool.true_and,
      decide_eq_true_eq]
    exact hnow
  | some until_ =>
    refine ⟨max m.nextAttemptAt until_, fun now hnow => ?_⟩
    simp only [claimable, hpending, hfirst, huntil, Option.all_some, Bool.and_true, Bool.true_and,
      Bool.and_eq_true, decide_eq_true_eq]
    exact ⟨Int.le_trans (Int.le_max_left _ _) hnow, Int.le_trans (Int.le_max_right _ _) hnow⟩

/-- The claim takes the first of the rows it may take. -/
theorem selectClaimable_of_first {rows : List OutboxMessageRow} {locked : List Text}
    {now : Instant} {m : OutboxMessageRow} (hids : Keyed.Distinct OutboxMessageRow.id rows)
    (hm : m ∈ rows) (hclaimable : claimable rows now m = true) (hfree : m.id ∉ locked)
    (hfirst : ∀ n ∈ rows, claimable rows now n = true → n.id ∉ locked → m.le n = true) :
    selectClaimable rows locked now = some m := by
  have hmem : m ∈ rows.filter fun n => claimable rows now n && n.id ∉ locked := by
    rw [List.mem_filter]
    exact ⟨hm, by simp [hclaimable, hfree]⟩
  cases hselect : selectClaimable rows locked now with
  | none =>
    rw [selectClaimable, Keyed.least_eq_none] at hselect
    rw [hselect] at hmem
    cases hmem
  | some n =>
    have hn := Keyed.least_mem hselect
    rw [List.mem_filter, Bool.and_eq_true, decide_eq_true_eq] at hn
    have hle : n.le m = true :=
      Keyed.least_le OutboxMessageRow.le_total
        (fun _ _ _ h h' => OutboxMessageRow.le_trans h h') hselect m hmem
    have hge := hfirst n hn.1 hn.2.1 hn.2.2
    rw [hids.eq_of_key hn.1 hm (OutboxMessageRow.id_eq_of_le hle hge)]

theorem Outbox.Sound.settledOnce {s : Outbox} (h : s.Sound) {m : OutboxMessageRow}
    (hm : m ∈ s.rows) : m.Settles s := by
  have haccounted := h.rows m hm
  constructor
  case published => exact fun hp => haccounted.published (Option.isSome_iff_ne_none.mp hp)
  case once =>
    rintro ⟨hpublished, habandoned⟩
    rcases haccounted.once with hnone | hnone
    · rw [hnone] at hpublished
      cases hpublished
    · rw [hnone] at habandoned
      cases habandoned
  case final =>
    intro hsettled s' hsteps
    obtain ⟨m', hm', hkeeps⟩ := hsteps.keeps h hm
    obtain ⟨rfl, hcount⟩ := hkeeps.settled hsettled
    exact ⟨hm', hcount⟩
  case abandoned => exact fun ha => haccounted.abandoned (Option.isSome_iff_ne_none.mp ha)
  case attempts => exact haccounted.attempts.2
  case lease => exact haccounted.pair
  case kept =>
    intro s' hsteps
    obtain ⟨m', hm', hkeeps⟩ := hsteps.keeps h hm
    exact ⟨m', hm', hkeeps.same⟩
  case selectable =>
    intro hpending hfirst
    obtain ⟨late, hlate⟩ := claimable_late hpending hfirst
    refine ⟨late, fun now hnow => ⟨hlate now hnow, fun locked hfree hall => ?_⟩⟩
    exact selectClaimable_of_first h.ids hm (hlate now hnow) hfree hall

/-- In every reachable state, every row. -/
theorem Outbox.Reachable.settles {s : Outbox} (h : s.Reachable) :
    ∀ m ∈ s.rows, m.Settles s :=
  fun _ hm => h.sound.settledOnce hm

/-! ## Two rows of one group -/

/-- What the claim promises about a group: once the older row is committed, the
younger one is handed out only after the older one has ended. -/
structure Outbox.GroupOrder (s : Outbox) : Prop where
  after : ∀ s', Outbox.Steps s s' → ∀ m₁ ∈ s.rows, ∀ m₂ ∈ s'.rows,
    m₁.aggregateId = m₂.aggregateId → m₁.lt m₂ = true → m₂.id ∉ s.publishing.claims →
    (m₂.id ∈ s'.publishing.claims ∨ ∃ answer, (m₂.eventId, answer) ∈ s'.publishing.calls) →
    ∃ m₁' ∈ s'.rows, m₁.SameEvent m₁' ∧ m₁'.unsettled = false
  alone : ∀ s', Outbox.Steps s s' → ∀ m₁ ∈ s.rows, ∀ m₂ ∈ s.rows, m₁.id ≠ m₂.id →
    m₁.aggregateId = m₂.aggregateId → m₁.id ∉ s.publishing.claims →
    m₂.id ∉ s.publishing.claims → ∀ m₁' ∈ s'.rows, ∀ m₂' ∈ s'.rows, m₁'.id = m₁.id →
    m₂'.id = m₂.id → ¬ (m₁'.claimedBy.isSome = true ∧ m₂'.claimedBy.isSome = true)

/-- A step that hands out a row does so when no older row of its group is pending. -/
theorem Outbox.Does.claimed {s s' : Outbox} (h : s.Does s') {id : Text}
    (hbefore : id ∉ s.publishing.claims) (hafter : id ∈ s'.publishing.claims) :
    ∃ m ∈ s.rows, m.id = id ∧ firstOfGroup s.rows m = true := by
  cases h with
  | insert => exact absurd hafter hbefore
  | @claim m publisherId claimedAt until_ mem idle free =>
    rcases List.mem_append.mp hafter with hid | hid
    · exact absurd hid hbefore
    · exact ⟨m, mem, (List.mem_singleton.mp hid).symm, claimable_firstOfGroup free⟩
  | publish => exact absurd hafter hbefore
  | complete => exact absurd hafter hbefore
  | drop => exact absurd hafter hbefore
  | idle => exact absurd hafter hbefore

/-- While the older row is pending the younger one is not handed out. -/
theorem Outbox.Steps.waits {s s' t : Outbox} (h : Outbox.Steps s s') (hsound : s.Sound)
    (hlater : Outbox.Steps s' t) {m₁ m₂ : OutboxMessageRow} (hm₁ : m₁ ∈ s.rows)
    (hm₂ : m₂ ∈ t.rows) (hgroup : m₁.aggregateId = m₂.aggregateId) (hlt : m₁.lt m₂ = true)
    (hunclaimed : m₂.id ∉ s.publishing.claims) :
    ∀ m₁' ∈ s'.rows, m₁'.id = m₁.id → m₁'.unsettled = true →
      m₂.id ∉ s'.publishing.claims := by
  induction h with
  | refl => exact fun _ _ _ _ => hunclaimed
  | @tail mid s' before last ih =>
    have hlater' : Outbox.Steps mid t := .head last hlater
    have hmid := hsound.steps before
    intro m₁' hm₁' hid hpending hclaimed
    obtain ⟨n, hn, hkeeps⟩ := Outbox.Steps.keeps before hsound hm₁
    have hnid : n.id = m₁.id := hkeeps.same.id
    obtain ⟨-, hstays⟩ :=
      Outbox.Steps.sameEvent (.single last) hmid hn hm₁' (hid.trans hnid.symm)
    have hn' : n.unsettled = true := by
      by_contra hsettled
      rw [hstays (by simpa using hsettled)] at hpending
      exact hsettled hpending
    -- the row is handed out by this very step, which finds the older one pending
    obtain ⟨o, ho, hoid, hfirst⟩ := last.does.claimed (ih hlater' n hn hnid hn') hclaimed
    obtain ⟨hsame, -⟩ := Outbox.Steps.sameEvent hlater' hmid ho hm₂ hoid.symm
    have hblocked := firstOfGroup_iff.mp hfirst n hn
      (hkeeps.same.aggregateId.trans (hgroup.trans hsame.aggregateId)) hn'
    rw [hkeeps.same.lt_iff (.refl o), ← (OutboxMessageRow.SameEvent.refl m₁).lt_iff hsame, hlt]
      at hblocked
    cases hblocked

theorem Outbox.Sound.inGroupOrder {s : Outbox} (h : s.Sound) : s.GroupOrder where
  after := by
    intro s' hsteps m₁ hm₁ m₂ hm₂ hgroup hlt hunclaimed hhanded
    have hsound := h.steps hsteps
    have hclaimed : m₂.id ∈ s'.publishing.claims := by
      rcases hhanded with hclaimed | ⟨answer, hcall⟩
      · exact hclaimed
      · obtain ⟨n, hn, hevent, hclaimed⟩ := hsound.calls _ hcall
        rwa [hsound.eventIds.eq_of_key hn hm₂ hevent] at hclaimed
    obtain ⟨m₁', hm₁', hkeeps⟩ := hsteps.keeps h hm₁
    refine ⟨m₁', hm₁', hkeeps.same, ?_⟩
    by_contra hpending
    exact hsteps.waits h .refl hm₁ hm₂ hgroup hlt hunclaimed m₁' hm₁' hkeeps.same.id
      (by simpa using hpending) hclaimed
  alone := by
    intro s' hsteps m₁ hm₁ m₂ hm₂ hne hgroup hunclaimed₁ hunclaimed₂ m₁' hm₁' m₂' hm₂' hid₁ hid₂
    rintro ⟨hclaimed₁, hclaimed₂⟩
    have hsound := h.steps hsteps
    have hclaimed : ∀ m' ∈ s'.rows, m'.claimedBy.isSome = true →
        m'.unsettled = true ∧ m'.id ∈ s'.publishing.claims := by
      intro m' hm' hsome
      have haccounted := hsound.rows m' hm'
      refine ⟨?_, haccounted.claimed (Option.isSome_iff_ne_none.mp hsome)⟩
      by_contra hsettled
      rw [haccounted.released (by simpa using hsettled)] at hsome
      cases hsome
    obtain ⟨hpending₁, hhanded₁⟩ := hclaimed m₁' hm₁' hclaimed₁
    obtain ⟨hpending₂, hhanded₂⟩ := hclaimed m₂' hm₂' hclaimed₂
    obtain ⟨hsame₁, -⟩ := hsteps.sameEvent h hm₁ hm₁' hid₁
    obtain ⟨hsame₂, -⟩ := hsteps.sameEvent h hm₂ hm₂' hid₂
    rcases OutboxMessageRow.lt_or_lt hne with hlt | hlt
    · refine hsteps.waits h .refl hm₁ hm₂' (hgroup.trans hsame₂.aggregateId.symm) ?_ ?_ m₁' hm₁'
        hid₁ hpending₁ hhanded₂
      · rwa [(OutboxMessageRow.SameEvent.refl m₁).lt_iff hsame₂]
      · rwa [hid₂]
    · refine hsteps.waits h .refl hm₂ hm₁' (hgroup.symm.trans hsame₁.aggregateId.symm) ?_ ?_ m₂'
        hm₂' hid₂ hpending₂ hhanded₁
      · rwa [(OutboxMessageRow.SameEvent.refl m₂).lt_iff hsame₁]
      · rwa [hid₁]

/-- In every reachable state, every two rows of one group. -/
theorem Outbox.Reachable.groupOrder {s : Outbox} (h : s.Reachable) : s.GroupOrder :=
  h.sound.inGroupOrder

/-! ## A lease that is lost -/

/-- Two changes of one wallet's balance. -/
def sampleBalanceChange (eventId : Text) (occurredAt : Instant) (walletVersion : Int) :
    OutboxMessageRow :=
  toOutboxRow occurredAt
    { eventId
      aggregateId := utf16 "wallet"
      correlationId := utf16 "c1"
      causationId := none
      occurredAt
      data := .balanceChanged
        { walletId := utf16 "wallet", transactionId := eventId, direction := .debit,
          money := ⟨utf16 "10.00", utf16 "BRL"⟩, balanceBefore := ⟨utf16 "20.00", utf16 "BRL"⟩,
          balanceAfter := ⟨utf16 "10.00", utf16 "BRL"⟩, walletVersion } }

def firstMessage : OutboxMessageRow := sampleBalanceChange (utf16 "e1") 10 2

def secondMessage : OutboxMessageRow := sampleBalanceChange (utf16 "e2") 20 3

/-- The lease of publisher `a` runs out while it sends, `b` sends the same
message, and both report: `a` that it failed, then `b` that it went through. -/
def lostLease : List OutboxAction :=
  [.insert [firstMessage, secondMessage],
    .publisher (.claim (utf16 "a") [] 100 5),
    .publisher (.claim (utf16 "b") [] 200 5),
    .publisher (.publish (utf16 "b") none),
    .publisher (.publish (utf16 "a") (some (utf16 "timeout"))),
    .publisher (.complete (utf16 "a") 201 0),
    .publisher (.complete (utf16 "b") 202 0)]

theorem lostLease_runs : (Outbox.empty.run lostLease).isSome = true := by
  decide +kernel

/-- The outbox after it. -/
def lostLeaseOutbox : Outbox := (Outbox.empty.run lostLease).get lostLease_runs

theorem lostLease_reachable : lostLeaseOutbox.Reachable :=
  Outbox.Steps.of_run (Option.some_get lostLease_runs).symm

theorem lostLease_settles :
    lostLeaseOutbox.rows.map OutboxMessageRow.publishedAt = [some 202, none] ∧
      ∀ m ∈ lostLeaseOutbox.rows, m.Settles lostLeaseOutbox :=
  ⟨by decide +kernel, lostLease_reachable.settles⟩

theorem lostLease_groupOrder :
    lostLeaseOutbox.publishing.claims = [utf16 "e1", utf16 "e1"] ∧ lostLeaseOutbox.GroupOrder :=
  ⟨by decide +kernel, lostLease_reachable.groupOrder⟩

end Wagering
