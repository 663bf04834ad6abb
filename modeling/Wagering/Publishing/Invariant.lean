import Wagering.Publishing.Machine

/-!
# What holds of the outbox

Ownership is the column `claimed_by`: a publisher that still finds its name
there is the one that claimed the row last, so its claim carries the row's own
count of attempts, and nobody has settled the row in between.
-/

namespace Wagering

open Outbox

/-- The publish calls for an event that failed. -/
def Publishing.failures (p : Publishing) (eventId : Text) : Nat :=
  p.calls.countP fun call => call = (eventId, false)

/-- What holds of every row. -/
structure OutboxMessageRow.Accounted (p : Publishing) (m : OutboxMessageRow) : Prop where
  pair : m.claimedBy = none ↔ m.claimedUntil = none
  released : m.unsettled = false → m.claimedBy = none
  once : m.publishedAt = none ∨ m.abandonedAt = none
  published : m.publishedAt ≠ none → (m.eventId, true) ∈ p.calls
  abandoned : m.abandonedAt ≠ none → 600 ≤ p.failures m.eventId
  attempts : 0 ≤ m.attempts ∧ m.attempts ≤ p.failures m.eventId
  claimed : m.claimedBy ≠ none → m.id ∈ p.claims

/-- What holds of a claim in hand, after `failed` more failed calls than the row counts. -/
structure OutboxClaim.InHand (s : Outbox) (publisherId : Text) (claim : OutboxClaim)
    (failed : Nat) : Prop where
  failures : claim.attempts + failed ≤ s.publishing.failures claim.eventId
  row : ∃ m ∈ s.rows, m.id = claim.id ∧ m.eventId = claim.eventId ∧
    (m.claimedBy = some publisherId → m.attempts = claim.attempts)
  claimed : claim.id ∈ s.publishing.claims

/-- What holds of a publisher. -/
def Stage.Sound (s : Outbox) (publisherId : Text) : Stage → Prop
  | .idle => True
  | .claimed claim => claim.InHand s publisherId 0
  | .sent claim => claim.InHand s publisherId 0 ∧ (claim.eventId, true) ∈ s.publishing.calls
  | .refused claim _ => claim.InHand s publisherId 1

/-- What holds of the outbox in every reachable state. -/
structure Outbox.Sound (s : Outbox) : Prop where
  ids : Keyed.Distinct OutboxMessageRow.id s.rows
  eventIds : Keyed.Distinct OutboxMessageRow.eventId s.rows
  rows : ∀ m ∈ s.rows, m.Accounted s.publishing
  stages : ∀ publisherId, (s.publishing.stage publisherId).Sound s publisherId
  claims : ∀ id ∈ s.publishing.claims, ∃ m ∈ s.rows, m.id = id
  calls : ∀ call ∈ s.publishing.calls, ∃ m ∈ s.rows, m.eventId = call.1 ∧
    m.id ∈ s.publishing.claims

theorem OutboxMessageRow.unsettled_iff {m : OutboxMessageRow} :
    m.unsettled = true ↔ m.publishedAt = none ∧ m.abandonedAt = none := by
  simp [OutboxMessageRow.unsettled]

theorem Outbox.Sound.empty : Outbox.empty.Sound where
  ids := .nil
  eventIds := .nil
  rows := fun m hm => by cases hm
  stages := fun publisherId => trivial
  claims := fun id hid => by cases hid
  calls := fun call hcall => by cases hcall

/-! ## Publishers that only record more -/

/-- The records of `p` are among those of `p'`. -/
structure Publishing.Extends (p p' : Publishing) : Prop where
  calls : p.calls <+: p'.calls
  claims : p.claims <+: p'.claims

theorem Publishing.Extends.refl (p : Publishing) : p.Extends p :=
  ⟨List.prefix_refl _, List.prefix_refl _⟩

theorem Publishing.Extends.failures {p p' : Publishing} (h : p.Extends p') (eventId : Text) :
    p.failures eventId ≤ p'.failures eventId :=
  h.calls.sublist.countP_le

theorem OutboxMessageRow.Accounted.extends {p p' : Publishing} {m : OutboxMessageRow}
    (h : m.Accounted p) (hextends : p.Extends p') : m.Accounted p' where
  pair := h.pair
  released := h.released
  once := h.once
  published := fun hp => hextends.calls.subset (h.published hp)
  abandoned := fun ha => Nat.le_trans (h.abandoned ha) (hextends.failures _)
  attempts := by
    have := hextends.failures m.eventId
    have := h.attempts
    omega
  claimed := fun hc => hextends.claims.subset (h.claimed hc)

/-- The rows of `s'` are those of `s` after some of them were leased to or
released by others than `publisherId`, and new ones. -/
def Outbox.Leaves (s s' : Outbox) (publisherId : Text) : Prop :=
  ∀ m ∈ s.rows, ∃ m' ∈ s'.rows, m.SameEvent m' ∧
    (m'.claimedBy = some publisherId → m' = m)

theorem OutboxClaim.InHand.leaves {s s' : Outbox} {publisherId : Text} {claim : OutboxClaim}
    {failed : Nat} (h : claim.InHand s publisherId failed) (hleaves : s.Leaves s' publisherId)
    (hextends : s.publishing.Extends s'.publishing) : claim.InHand s' publisherId failed where
  failures := by
    have := hextends.failures claim.eventId
    have := h.failures
    omega
  row := by
    obtain ⟨m, hm, hid, hevent, hattempts⟩ := h.row
    obtain ⟨m', hm', hsame, hclaimed⟩ := hleaves m hm
    refine ⟨m', hm', hsame.id.trans hid, hsame.eventId.trans hevent, fun hc => ?_⟩
    obtain rfl := hclaimed hc
    exact hattempts hc
  claimed := hextends.claims.subset h.claimed

theorem Stage.Sound.leaves {s s' : Outbox} {publisherId : Text} {stage : Stage}
    (h : stage.Sound s publisherId) (hleaves : s.Leaves s' publisherId)
    (hextends : s.publishing.Extends s'.publishing) : stage.Sound s' publisherId := by
  cases stage with
  | idle => trivial
  | claimed claim => exact OutboxClaim.InHand.leaves h hleaves hextends
  | sent claim => exact ⟨h.1.leaves hleaves hextends, hextends.calls.subset h.2⟩
  | refused claim reason => exact OutboxClaim.InHand.leaves h hleaves hextends

theorem Outbox.Leaves.of_subset {s s' : Outbox} {publisherId : Text}
    (h : ∀ m ∈ s.rows, m ∈ s'.rows) : s.Leaves s' publisherId :=
  fun m hm => ⟨m, h m hm, .refl m, fun _ => rfl⟩

/-- The identifiers of the rows stay. -/
theorem Outbox.Sound.records {s s' : Outbox} (h : s.Sound)
    (hrows : ∀ m ∈ s.rows, ∃ m' ∈ s'.rows, m.SameEvent m')
    (hclaims : s'.publishing.claims = s.publishing.claims)
    (hcalls : s'.publishing.calls = s.publishing.calls) :
    (∀ id ∈ s'.publishing.claims, ∃ m ∈ s'.rows, m.id = id) ∧
      ∀ call ∈ s'.publishing.calls, ∃ m ∈ s'.rows, m.eventId = call.1 ∧
        m.id ∈ s'.publishing.claims := by
  rw [hclaims, hcalls]
  constructor
  · intro id hid
    obtain ⟨m, hm, rfl⟩ := h.claims id hid
    obtain ⟨m', hm', hsame⟩ := hrows m hm
    exact ⟨m', hm', hsame.id⟩
  · intro call hcall
    obtain ⟨m, hm, hevent, hclaimed⟩ := h.calls call hcall
    obtain ⟨m', hm', hsame⟩ := hrows m hm
    exact ⟨m', hm', hsame.eventId.trans hevent, by rw [hsame.id]; exact hclaimed⟩

/-! ## What one step preserves -/

theorem Outbox.Sound.insert {s : Outbox} (h : s.Sound) {rows : List OutboxMessageRow}
    (isNew : ∀ m ∈ rows, m.isNew = true)
    (ids : Keyed.Distinct OutboxMessageRow.id (s.rows ++ rows))
    (eventIds : Keyed.Distinct OutboxMessageRow.eventId (s.rows ++ rows)) :
    Outbox.Sound { s with rows := s.rows ++ rows } where
  ids := ids
  eventIds := eventIds
  rows := fun m hm => by
    rcases List.mem_append.mp hm with hm | hm
    · exact h.rows m hm
    · have hnew := isNew m hm
      simp only [OutboxMessageRow.isNew, Bool.and_eq_true, decide_eq_true_eq,
        Option.isNone_iff_eq_none, OutboxMessageRow.unsettled_iff] at hnew
      obtain ⟨⟨⟨hattempts, hby⟩, huntil⟩, hpublished, habandoned⟩ := hnew
      exact
        { pair := by simp [hby, huntil]
          released := fun _ => hby
          once := .inl hpublished
          published := fun hp => absurd hpublished hp
          abandoned := fun ha => absurd habandoned ha
          attempts := by omega
          claimed := fun hc => absurd hby hc }
  stages := fun publisherId => (h.stages publisherId).leaves
    (.of_subset fun m hm => List.mem_append_left _ hm) (.refl _)
  claims := (@records s { s with rows := s.rows ++ rows } h
    (fun m hm => ⟨m, List.mem_append_left _ hm, .refl m⟩) rfl rfl).1
  calls := (@records s { s with rows := s.rows ++ rows } h
    (fun m hm => ⟨m, List.mem_append_left _ hm, .refl m⟩) rfl rfl).2

@[simp] theorem setStage_stage (p : Publishing) (id id' : Text) (stage : Stage) :
    (p.setStage id stage).stage id' = if id' = id then stage else p.stage id' := rfl

@[simp] theorem afterClaim_stage (p : Publishing) (id id' : Text) (m : OutboxMessageRow) :
    (p.afterClaim id m).stage id' = if id' = id then .claimed m.claim else p.stage id' := rfl

@[simp] theorem afterPublish_stage (p : Publishing) (id id' : Text) (claim : OutboxClaim)
    (failure : Option Text) :
    (p.afterPublish id claim failure).stage id' =
      if id' = id then .afterPublish claim failure else p.stage id' := rfl

theorem setStage_extends (p : Publishing) (id : Text) (stage : Stage) :
    p.Extends (p.setStage id stage) :=
  ⟨List.prefix_refl _, List.prefix_refl _⟩

theorem claimable_unsettled {rows : List OutboxMessageRow} {now : Instant} {m : OutboxMessageRow}
    (h : claimable rows now m = true) : m.unsettled = true ∧ firstOfGroup rows m = true := by
  simp only [claimable, Bool.and_eq_true] at h
  exact ⟨h.1.1.1, h.2⟩

theorem Outbox.Sound.claim {s : Outbox} (h : s.Sound) {m : OutboxMessageRow} {publisherId : Text}
    {claimedAt : Instant} (until_ : Instant) (mem : m ∈ s.rows)
    (free : claimable s.rows claimedAt m = true) :
    Outbox.Sound ⟨Keyed.adjust OutboxMessageRow.id m.id (.lease publisherId until_) s.rows,
      s.publishing.afterClaim publisherId m⟩ := by
  have hextends : s.publishing.Extends (s.publishing.afterClaim publisherId m) :=
    ⟨List.prefix_refl _, List.prefix_append _ _⟩
  have hsame : ∀ n ∈ s.rows, ∃ n' ∈
      Keyed.adjust OutboxMessageRow.id m.id (.lease publisherId until_) s.rows,
      n.SameEvent n' ∧ (n.id ≠ m.id → n' = n) := by
    intro n hn
    by_cases hid : n.id = m.id
    · exact ⟨_, Keyed.mem_adjust.mpr (.inl ⟨n, hn, hid, rfl⟩), lease_same _ _ n,
        fun hne => absurd hid hne⟩
    · exact ⟨n, Keyed.mem_adjust.mpr (.inr ⟨hn, hid⟩), .refl n, fun _ => rfl⟩
  have hleased : m.lease publisherId until_ ∈
      Keyed.adjust OutboxMessageRow.id m.id (.lease publisherId until_) s.rows :=
    Keyed.mem_adjust.mpr (.inl ⟨m, mem, rfl, rfl⟩)
  have hm := h.rows m mem
  constructor
  case ids => exact h.ids.adjust fun _ => rfl
  case eventIds =>
    have hmap : (Keyed.adjust OutboxMessageRow.id m.id (.lease publisherId until_) s.rows).map
        OutboxMessageRow.eventId = s.rows.map OutboxMessageRow.eventId := by
      simp only [Keyed.adjust, List.map_map]
      refine List.map_congr_left fun n _ => ?_
      simp only [Function.comp_apply]
      split <;> rfl
    rw [Keyed.Distinct, hmap]
    exact h.eventIds
  case rows =>
    intro n hn
    rcases Keyed.mem_adjust.mp hn with ⟨o, ho, hid, rfl⟩ | ⟨hn, hid⟩
    · obtain rfl := h.ids.eq_of_key ho mem hid
      have hunsettled := OutboxMessageRow.unsettled_iff.mp (claimable_unsettled free).1
      exact
        { pair := by simp [OutboxMessageRow.lease]
          released := fun hsettled => by
            rw [show (o.lease publisherId until_).unsettled = o.unsettled from rfl,
              (claimable_unsettled free).1] at hsettled
            cases hsettled
          once := .inl hunsettled.1
          published := fun hp => absurd hunsettled.1 hp
          abandoned := fun ha => absurd hunsettled.2 ha
          attempts := hm.attempts
          claimed := fun _ => List.mem_append_right _ (List.mem_singleton.mpr rfl) }
    · exact (h.rows n hn).extends hextends
  case stages =>
    intro id
    by_cases hid : id = publisherId
    · subst hid
      simp only [afterClaim_stage, if_true]
      exact
        { failures := by
            rw [Int.natCast_zero, Int.add_zero]
            exact hm.attempts.2
          row := ⟨_, hleased, rfl, rfl, fun _ => rfl⟩
          claimed := List.mem_append_right _ (List.mem_singleton.mpr rfl) }
    · simp only [afterClaim_stage, hid, if_false]
      refine (h.stages id).leaves (fun n hn => ?_) hextends
      by_cases hn' : n.id = m.id
      · obtain rfl := h.ids.eq_of_key hn mem hn'
        refine ⟨_, hleased, lease_same _ _ _, fun hclaimed => ?_⟩
        exact absurd (Option.some.inj hclaimed).symm hid
      · obtain ⟨n', hmem, hsame', heq⟩ := hsame n hn
        exact ⟨n', hmem, hsame', fun _ => heq hn'⟩
  case claims =>
    intro id hid
    rcases List.mem_append.mp hid with hid | hid
    · obtain ⟨n, hn, rfl⟩ := h.claims id hid
      obtain ⟨n', hmem, hsame', -⟩ := hsame n hn
      exact ⟨n', hmem, hsame'.id⟩
    · exact ⟨_, hleased, (List.mem_singleton.mp hid).symm⟩
  case calls =>
    intro call hcall
    obtain ⟨n, hn, hevent, hclaimed⟩ := h.calls call hcall
    obtain ⟨n', hmem, hsame', -⟩ := hsame n hn
    exact ⟨n', hmem, hsame'.eventId.trans hevent,
      List.mem_append_left _ (by rw [hsame'.id]; exact hclaimed)⟩

theorem failures_afterPublish (p : Publishing) (publisherId : Text) (claim : OutboxClaim)
    (reason eventId : Text) :
    (p.afterPublish publisherId claim (some reason)).failures eventId =
      p.failures eventId + if claim.eventId = eventId then 1 else 0 := by
  simp [Publishing.failures, Publishing.afterPublish, List.countP_append, List.countP_singleton]

theorem Outbox.Sound.publish {s : Outbox} (h : s.Sound) {publisherId : Text} {claim : OutboxClaim}
    (failure : Option Text) (stage : s.publishing.stage publisherId = .claimed claim) :
    Outbox.Sound ⟨s.rows, s.publishing.afterPublish publisherId claim failure⟩ := by
  have hinHand : claim.InHand s publisherId 0 := by
    have := h.stages publisherId
    rwa [stage] at this
  have hextends : s.publishing.Extends (s.publishing.afterPublish publisherId claim failure) :=
    ⟨List.prefix_append _ _, List.prefix_refl _⟩
  constructor
  case ids => exact h.ids
  case eventIds => exact h.eventIds
  case rows => exact fun m hm => (h.rows m hm).extends hextends
  case stages =>
    intro id
    by_cases hid : id = publisherId
    · subst hid
      have hkept : claim.InHand ⟨s.rows, s.publishing.afterPublish id claim failure⟩ id 0 :=
        hinHand.leaves (.of_subset fun m hm => hm) hextends
      simp only [afterPublish_stage, if_true]
      cases failure with
      | none => exact ⟨hkept, List.mem_append_right _ (List.mem_singleton.mpr rfl)⟩
      | some reason =>
        refine { hkept with failures := ?_ }
        have hcount := failures_afterPublish s.publishing id claim reason claim.eventId
        have hbefore := hinHand.failures
        rw [if_pos rfl] at hcount
        rw [hcount]
        omega
    · simp only [afterPublish_stage, hid, if_false]
      exact (h.stages id).leaves (.of_subset fun m hm => hm) hextends
  case claims => exact h.claims
  case calls =>
    intro call hcall
    rcases List.mem_append.mp hcall with hcall | hcall
    · exact h.calls call hcall
    · rw [List.mem_singleton.mp hcall]
      obtain ⟨m, hm, hid, hevent, -⟩ := hinHand.row
      exact ⟨m, hm, hevent, by rw [hid]; exact hinHand.claimed⟩

/-- A publisher that returns to the start of `run`. -/
theorem Outbox.Sound.drop {s : Outbox} (h : s.Sound) (publisherId : Text) :
    Outbox.Sound ⟨s.rows, s.publishing.setStage publisherId .idle⟩ where
  ids := h.ids
  eventIds := h.eventIds
  rows := fun m hm => (h.rows m hm).extends (setStage_extends _ _ _)
  stages := fun id => by
    by_cases hid : id = publisherId
    · simp only [setStage_stage, hid, if_true]
      trivial
    · simp only [setStage_stage, hid, if_false]
      exact (h.stages id).leaves (.of_subset fun m hm => hm) (setStage_extends _ _ _)
  claims := h.claims
  calls := h.calls

theorem OutboxClaim.InHand.attempts {s : Outbox} (h : s.Sound) {publisherId : Text}
    {claim : OutboxClaim} {failed : Nat} (hinHand : claim.InHand s publisherId failed)
    {m : OutboxMessageRow} (hm : m ∈ s.rows) (hid : m.id = claim.id)
    (hclaimed : m.claimedBy = some publisherId) :
    m.eventId = claim.eventId ∧ m.attempts = claim.attempts := by
  obtain ⟨n, hn, hnid, hevent, hattempts⟩ := hinHand.row
  obtain rfl := h.ids.eq_of_key hm hn (hid.trans hnid.symm)
  exact ⟨hevent, hattempts hclaimed⟩

/-- The completion write accounts for the row of the claim. -/
theorem Completes.accounted {s : Outbox} (h : s.Sound) {publisherId : Text} {claim : OutboxClaim}
    {set : OutboxMessageRow → OutboxMessageRow}
    (hcompletes : Completes s.publishing publisherId claim set) {m : OutboxMessageRow}
    (hm : m ∈ s.rows) (hid : m.id = claim.id) (hclaimed : m.claimedBy = some publisherId) :
    (set m).Accounted s.publishing := by
  have haccounted := h.rows m hm
  have hstage := h.stages publisherId
  have hunsettled : m.publishedAt = none ∧ m.abandonedAt = none := by
    refine OutboxMessageRow.unsettled_iff.mp ?_
    by_contra hsettled
    rw [haccounted.released (by simpa using hsettled)] at hclaimed
    cases hclaimed
  cases hcompletes with
  | published now stage =>
    rw [stage] at hstage
    obtain ⟨hevent, -⟩ := hstage.1.attempts h hm hid hclaimed
    exact
      { pair := by simp [markPublished]
        released := fun _ => rfl
        once := .inr hunsettled.2
        published := fun _ => by
          rw [show (markPublished now m).eventId = claim.eventId from hevent]
          exact hstage.2
        abandoned := fun ha => absurd hunsettled.2 ha
        attempts := haccounted.attempts
        claimed := fun hc => absurd rfl hc }
  | @abandoned reason now stage exhausted =>
    rw [stage] at hstage
    obtain ⟨hevent, -⟩ := OutboxClaim.InHand.attempts h hstage hm hid hclaimed
    have hfailures := hstage.failures
    exact
      { pair := by simp [abandon]
        released := fun _ => rfl
        once := .inl hunsettled.1
        published := fun hp => absurd hunsettled.1 hp
        abandoned := fun _ => by
          rw [show (abandon now reason m).eventId = claim.eventId from hevent]
          simp only [maxPublishAttempts] at exhausted
          omega
        attempts := haccounted.attempts
        claimed := fun hc => absurd rfl hc }
  | @rescheduled reason now jitter stage early =>
    rw [stage] at hstage
    obtain ⟨hevent, hattempts⟩ := OutboxClaim.InHand.attempts h hstage hm hid hclaimed
    have hfailures := hstage.failures
    have hnonneg := haccounted.attempts.1
    exact
      { pair := by simp [reschedule]
        released := fun _ => rfl
        once := .inl hunsettled.1
        published := fun hp => absurd hunsettled.1 hp
        abandoned := fun ha => absurd hunsettled.2 ha
        attempts := by
          rw [show (reschedule (now + outboxBackoffMs (claim.attempts + 1) jitter) reason m).eventId =
            claim.eventId from hevent]
          simp only [reschedule]
          omega
        claimed := fun hc => absurd rfl hc }

theorem Outbox.Sound.complete {s : Outbox} (h : s.Sound) {publisherId : Text}
    {claim : OutboxClaim} {set : OutboxMessageRow → OutboxMessageRow}
    (completes : Completes s.publishing publisherId claim set) :
    Outbox.Sound ⟨updateClaimed s.rows claim.id publisherId set,
      s.publishing.setStage publisherId .idle⟩ := by
  have hsame : ∀ m ∈ s.rows, ∃ m' ∈ updateClaimed s.rows claim.id publisherId set,
      m.SameEvent m' ∧ (m'.claimedBy ≠ none → m' = m) := by
    intro m hm
    by_cases hupdated : m.id = claim.id ∧ m.claimedBy = some publisherId
    · exact ⟨set m, mem_updateClaimed.mpr (.inl ⟨m, hm, hupdated.1, hupdated.2, rfl⟩),
        completes.same m, fun hc => absurd (completes.frees m).1 hc⟩
    · exact ⟨m, mem_updateClaimed.mpr (.inr ⟨hm, hupdated⟩), .refl m, fun _ => rfl⟩
  have hrecords := @records s ⟨updateClaimed s.rows claim.id publisherId set,
    s.publishing.setStage publisherId .idle⟩ h
    (fun m hm => by
      obtain ⟨m', hm', hs, -⟩ := hsame m hm
      exact ⟨m', hm', hs⟩) rfl rfl
  constructor
  case ids =>
    rw [Keyed.Distinct, map_updateClaimed fun m => (completes.same m).id]
    exact h.ids
  case eventIds =>
    rw [Keyed.Distinct, map_updateClaimed fun m => (completes.same m).eventId]
    exact h.eventIds
  case rows =>
    intro m hm
    rcases mem_updateClaimed.mp hm with ⟨n, hn, hid, hclaimed, rfl⟩ | ⟨hm, -⟩
    · exact (completes.accounted h hn hid hclaimed).extends (setStage_extends _ _ _)
    · exact (h.rows m hm).extends (setStage_extends _ _ _)
  case stages =>
    intro id
    by_cases hid : id = publisherId
    · simp only [setStage_stage, hid, if_true]
      trivial
    · simp only [setStage_stage, hid, if_false]
      refine (h.stages id).leaves (fun m hm => ?_) (setStage_extends _ _ _)
      obtain ⟨m', hm', hs, heq⟩ := hsame m hm
      exact ⟨m', hm', hs, fun hc => heq (by rw [hc]; simp)⟩
  case claims => exact hrecords.1
  case calls => exact hrecords.2

/-- Every step keeps what holds of the outbox. -/
theorem Outbox.Sound.does {s s' : Outbox} (h : s.Sound) (hdoes : s.Does s') : s'.Sound := by
  cases hdoes with
  | insert rows isNew ids eventIds => exact h.insert isNew ids eventIds
  | claim until_ mem idle free => exact h.claim until_ mem free
  | publish failure stage => exact h.publish failure stage
  | complete completes => exact h.complete completes
  | drop publisherId => exact h.drop publisherId
  | idle => exact h

theorem Outbox.Sound.steps {s s' : Outbox} (h : s.Sound) (hsteps : Outbox.Steps s s') :
    s'.Sound := by
  induction hsteps with
  | refl => exact h
  | tail _ last ih => exact ih.does last.does

theorem Outbox.Reachable.sound {s : Outbox} (h : s.Reachable) : s.Sound :=
  Outbox.Sound.empty.steps h

/-! ## What happens to a row -/

/-- What a step leaves of a row: the event it is about, all of it once it is
settled, and the fact that it was claimed. -/
structure Outbox.Keeps (s s' : Outbox) (m m' : OutboxMessageRow) : Prop where
  same : m.SameEvent m'
  settled : m.unsettled = false →
    m' = m ∧ s'.publishing.claims.count m.id = s.publishing.claims.count m.id

theorem Outbox.Does.extends {s s' : Outbox} (h : s.Does s') :
    s.publishing.Extends s'.publishing := by
  cases h with
  | insert => exact .refl _
  | claim => exact ⟨List.prefix_refl _, List.prefix_append _ _⟩
  | publish => exact ⟨List.prefix_append _ _, List.prefix_refl _⟩
  | complete => exact setStage_extends _ _ _
  | drop => exact setStage_extends _ _ _
  | idle => exact .refl _

theorem Outbox.Does.keeps {s s' : Outbox} (hsound : s.Sound) (h : s.Does s')
    {m : OutboxMessageRow} (hm : m ∈ s.rows) : ∃ m' ∈ s'.rows, s.Keeps s' m m' := by
  cases h with
  | insert rows => exact ⟨m, List.mem_append_left _ hm, .refl m, fun _ => ⟨rfl, rfl⟩⟩
  | @claim n publisherId claimedAt until_ mem idle free =>
    by_cases hid : m.id = n.id
    · obtain rfl := hsound.ids.eq_of_key hm mem hid
      refine ⟨_, Keyed.mem_adjust.mpr (.inl ⟨m, hm, rfl, rfl⟩), lease_same _ _ m,
        fun hsettled => ?_⟩
      rw [(claimable_unsettled free).1] at hsettled
      cases hsettled
    · refine ⟨m, Keyed.mem_adjust.mpr (.inr ⟨hm, hid⟩), .refl m, fun _ => ⟨rfl, ?_⟩⟩
      simp only [Publishing.afterClaim, List.count_append, List.count_singleton]
      simp [Ne.symm hid]
  | publish => exact ⟨m, hm, .refl m, fun _ => ⟨rfl, rfl⟩⟩
  | @complete publisherId claim set completes =>
    by_cases hupdated : m.id = claim.id ∧ m.claimedBy = some publisherId
    · refine ⟨set m, mem_updateClaimed.mpr (.inl ⟨m, hm, hupdated.1, hupdated.2, rfl⟩),
        completes.same m, fun hsettled => ?_⟩
      rw [(hsound.rows m hm).released hsettled] at hupdated
      cases hupdated.2
    · exact ⟨m, mem_updateClaimed.mpr (.inr ⟨hm, hupdated⟩), .refl m, fun _ => ⟨rfl, rfl⟩⟩
  | drop => exact ⟨m, hm, .refl m, fun _ => ⟨rfl, rfl⟩⟩
  | idle => exact ⟨m, hm, .refl m, fun _ => ⟨rfl, rfl⟩⟩

theorem Outbox.Keeps.trans {r s t : Outbox} {l m n : OutboxMessageRow} (h : r.Keeps s l m)
    (h' : s.Keeps t m n) : r.Keeps t l n where
  same := h.same.trans h'.same
  settled := fun hsettled => by
    obtain ⟨rfl, hcount⟩ := h.settled hsettled
    obtain ⟨rfl, hcount'⟩ := h'.settled hsettled
    exact ⟨rfl, hcount'.trans hcount⟩

/-- Rows are never lost, and a settled row stays as it is. -/
theorem Outbox.Steps.keeps {s s' : Outbox} (h : Outbox.Steps s s') (hsound : s.Sound)
    {m : OutboxMessageRow} (hm : m ∈ s.rows) : ∃ m' ∈ s'.rows, s.Keeps s' m m' := by
  induction h with
  | refl => exact ⟨m, hm, .refl m, fun _ => ⟨rfl, rfl⟩⟩
  | tail before last ih =>
    obtain ⟨m', hm', hkeeps⟩ := ih
    obtain ⟨m'', hm'', hkeeps'⟩ := Outbox.Does.keeps (hsound.steps before) last.does hm'
    exact ⟨m'', hm'', hkeeps.trans hkeeps'⟩

/-- A row that is the same event as one of the rows, by its identifier. -/
theorem Outbox.Steps.sameEvent {s s' : Outbox} (h : Outbox.Steps s s') (hsound : s.Sound)
    {m m' : OutboxMessageRow} (hm : m ∈ s.rows) (hm' : m' ∈ s'.rows) (hid : m'.id = m.id) :
    m.SameEvent m' ∧ (m.unsettled = false → m' = m) := by
  obtain ⟨n, hn, hkeeps⟩ := h.keeps hsound hm
  obtain rfl := (hsound.steps h).ids.eq_of_key hn hm' (hkeeps.same.id.trans hid.symm)
  exact ⟨hkeeps.same, fun hsettled => (hkeeps.settled hsettled).1⟩

end Wagering
