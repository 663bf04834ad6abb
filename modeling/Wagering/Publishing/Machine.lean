import Mathlib.Logic.Relation
import Wagering.Persistence.OutboxClaim

/-!
# The outbox as a machine

Rows are inserted, and publishers claim, send and settle them, in any order.
One lemma for each thing a publisher does says what it changes; everything that
holds of the outbox follows from these.
-/

namespace Wagering

/-- The rows of the outbox and the publishers. -/
structure Outbox : Type where
  rows : List OutboxMessageRow
  publishing : Publishing

def Outbox.empty : Outbox := ⟨[], .start⟩

/-- A row as `OutboxRepository.enqueue` inserts it. -/
def OutboxMessageRow.isNew (m : OutboxMessageRow) : Bool :=
  m.attempts = 0 && m.claimedBy.isNone && m.claimedUntil.isNone && m.unsettled

/-- A commit that inserts rows, or one step of a publisher. -/
inductive OutboxAction : Type
  | insert (rows : List OutboxMessageRow)
  | publisher (action : PublisherAction)

/-- One step.  `outbox_message_pk` and `outbox_event_id_uq` keep the identifiers apart. -/
def Outbox.step (s : Outbox) : OutboxAction → Option Outbox
  | .insert rows =>
    if rows.all OutboxMessageRow.isNew &&
        decide (Keyed.Distinct OutboxMessageRow.id (s.rows ++ rows)) &&
        decide (Keyed.Distinct OutboxMessageRow.eventId (s.rows ++ rows)) then
      some { s with rows := s.rows ++ rows }
    else none
  | .publisher action =>
    (s.publishing.step s.rows action).map fun next => ⟨next.1, next.2⟩

/-- A whole schedule. -/
def Outbox.run (s : Outbox) : List OutboxAction → Option Outbox
  | [] => some s
  | a :: rest => (s.step a).bind fun s' => s'.run rest

/-- Some action leads from `s` to `s'`. -/
def Outbox.Next (s s' : Outbox) : Prop := ∃ a, s.step a = some s'

/-- Any schedule at all. -/
abbrev Outbox.Steps : Outbox → Outbox → Prop := Relation.ReflTransGen Outbox.Next

/-- What some schedule leads to from the empty outbox. -/
def Outbox.Reachable (s : Outbox) : Prop := Outbox.Steps .empty s

theorem Outbox.Steps.of_run {actions : List OutboxAction} {s s' : Outbox}
    (h : s.run actions = some s') : Outbox.Steps s s' := by
  induction actions generalizing s with
  | nil =>
    cases h
    exact .refl
  | cons a rest ih =>
    rw [Outbox.run, Option.bind_eq_some_iff] at h
    obtain ⟨mid, first, later⟩ := h
    exact .head ⟨a, first⟩ (ih later)

/-! ## What a step does -/

/-- The claim that a row is handed out as. -/
def OutboxMessageRow.claim (m : OutboxMessageRow) : OutboxClaim where
  id := m.id
  eventId := m.eventId
  eventType := m.eventType
  aggregateId := m.aggregateId
  payload := m.payload
  attempts := m.attempts

/-- The row under a lease. -/
def OutboxMessageRow.lease (publisherId : Text) (until_ : Instant) (m : OutboxMessageRow) :
    OutboxMessageRow :=
  { m with claimedBy := some publisherId, claimedUntil := some until_ }

/-- The publishers after one of them has claimed a row. -/
def Publishing.afterClaim (p : Publishing) (publisherId : Text) (m : OutboxMessageRow) :
    Publishing :=
  { p.setStage publisherId (.claimed m.claim) with claims := p.claims ++ [m.id] }

/-- Where a publisher stands after its publish call. -/
def Stage.afterPublish (claim : OutboxClaim) : Option Text → Stage
  | none => .sent claim
  | some reason => .refused claim reason

/-- The publishers after one of them has made its publish call. -/
def Publishing.afterPublish (p : Publishing) (publisherId : Text) (claim : OutboxClaim)
    (failure : Option Text) : Publishing :=
  { p.setStage publisherId (.afterPublish claim failure) with
    calls := p.calls ++ [(claim.eventId, failure.isNone)] }

/-- How a completion write settles or releases a row. -/
inductive Completes (p : Publishing) (publisherId : Text) :
    OutboxClaim → (OutboxMessageRow → OutboxMessageRow) → Prop
  | published {claim : OutboxClaim} (now : Instant) (stage : p.stage publisherId = .sent claim) :
    Completes p publisherId claim (markPublished now)
  | abandoned {claim : OutboxClaim} {reason : Text} (now : Instant)
    (stage : p.stage publisherId = .refused claim reason)
    (exhausted : maxPublishAttempts ≤ claim.attempts + 1) :
    Completes p publisherId claim (abandon now reason)
  | rescheduled {claim : OutboxClaim} {reason : Text} (now : Instant) (jitter : Nat)
    (stage : p.stage publisherId = .refused claim reason)
    (early : claim.attempts + 1 < maxPublishAttempts) :
    Completes p publisherId claim
      (reschedule (now + outboxBackoffMs (claim.attempts + 1) jitter) reason)

/-- Everything that a step can do. -/
inductive Outbox.Does (s : Outbox) : Outbox → Prop
  | insert (rows : List OutboxMessageRow) (isNew : ∀ m ∈ rows, m.isNew = true)
    (ids : Keyed.Distinct OutboxMessageRow.id (s.rows ++ rows))
    (eventIds : Keyed.Distinct OutboxMessageRow.eventId (s.rows ++ rows)) :
    Does s { s with rows := s.rows ++ rows }
  | claim {m : OutboxMessageRow} {publisherId : Text} {claimedAt : Instant} (until_ : Instant)
    (mem : m ∈ s.rows) (idle : s.publishing.stage publisherId = .idle)
    (free : claimable s.rows claimedAt m = true) :
    Does s ⟨Keyed.adjust OutboxMessageRow.id m.id (.lease publisherId until_) s.rows,
      s.publishing.afterClaim publisherId m⟩
  | publish {publisherId : Text} {claim : OutboxClaim} (failure : Option Text)
    (stage : s.publishing.stage publisherId = .claimed claim) :
    Does s ⟨s.rows, s.publishing.afterPublish publisherId claim failure⟩
  | complete {publisherId : Text} {claim : OutboxClaim}
    {set : OutboxMessageRow → OutboxMessageRow}
    (completes : Completes s.publishing publisherId claim set) :
    Does s ⟨updateClaimed s.rows claim.id publisherId set,
      s.publishing.setStage publisherId .idle⟩
  | drop (publisherId : Text) : Does s ⟨s.rows, s.publishing.setStage publisherId .idle⟩
  | idle : Does s s

theorem completes_of_completion {p : Publishing} {publisherId : Text} {now : Instant}
    {jitter : Nat} {claim : OutboxClaim} {set : OutboxMessageRow → OutboxMessageRow}
    (h : completion (p.stage publisherId) now jitter = some (claim, set)) :
    Completes p publisherId claim set := by
  unfold completion at h
  split at h
  case h_1 claim' hstage =>
    cases h
    exact .published now hstage
  case h_2 claim' reason hstage =>
    split at h
    · cases h
      exact .abandoned now hstage ‹_›
    · cases h
      exact .rescheduled now jitter hstage (Int.not_le.mp ‹_›)
  case h_3 => cases h

theorem Outbox.Next.does {s s' : Outbox} (h : Outbox.Next s s') : s.Does s' := by
  obtain ⟨action, h⟩ := h
  cases action with
  | insert rows =>
    simp only [step] at h
    split at h
    · rename_i hfresh
      cases h
      simp only [Bool.and_eq_true, List.all_eq_true, decide_eq_true_eq] at hfresh
      exact .insert rows hfresh.1.1 hfresh.1.2 hfresh.2
    · cases h
  | publisher action =>
    simp only [step, Option.map_eq_some_iff] at h
    obtain ⟨next, h, rfl⟩ := h
    cases action with
    | claim publisherId locked claimedAt leaseMs =>
      simp only [Publishing.step] at h
      split at h
      case h_1 m hidle hselect =>
        cases h
        have hm := Keyed.least_mem hselect
        rw [List.mem_filter, Bool.and_eq_true] at hm
        exact .claim (claimedAt + leaseMs) hm.1 hidle hm.2.1
      case h_2 hidle hselect =>
        cases h
        exact .idle
      case h_3 => cases h
    | publish publisherId failure =>
      simp only [Publishing.step] at h
      split at h
      case h_1 claim hstage =>
        cases h
        cases failure with
        | none => exact .publish none hstage
        | some reason => exact .publish (some reason) hstage
      case h_2 => cases h
    | complete publisherId now jitter =>
      simp only [Publishing.step] at h
      split at h
      case h_1 claim set hcompletion =>
        cases h
        exact .complete (completes_of_completion hcompletion)
      case h_2 => cases h
    | drop publisherId =>
      cases h
      exact .drop publisherId

/-! ## What no step changes -/

/-- The columns that are written once. -/
structure OutboxMessageRow.SameEvent (m m' : OutboxMessageRow) : Prop where
  id : m'.id = m.id
  eventId : m'.eventId = m.eventId
  aggregateId : m'.aggregateId = m.aggregateId
  eventType : m'.eventType = m.eventType
  payload : m'.payload = m.payload
  occurredAt : m'.occurredAt = m.occurredAt

theorem OutboxMessageRow.SameEvent.refl (m : OutboxMessageRow) : m.SameEvent m :=
  ⟨rfl, rfl, rfl, rfl, rfl, rfl⟩

theorem OutboxMessageRow.SameEvent.trans {m m' m'' : OutboxMessageRow} (h : m.SameEvent m')
    (h' : m'.SameEvent m'') : m.SameEvent m'' :=
  ⟨h'.id.trans h.id, h'.eventId.trans h.eventId, h'.aggregateId.trans h.aggregateId,
    h'.eventType.trans h.eventType, h'.payload.trans h.payload,
    h'.occurredAt.trans h.occurredAt⟩

theorem OutboxMessageRow.SameEvent.lt_iff {m m' n n' : OutboxMessageRow} (h : m.SameEvent m')
    (h' : n.SameEvent n') : m'.lt n' = m.lt n := by
  simp only [OutboxMessageRow.lt, OutboxMessageRow.le, h.id, h.occurredAt, h'.id, h'.occurredAt]

theorem lease_same (publisherId : Text) (until_ : Instant) (m : OutboxMessageRow) :
    m.SameEvent (m.lease publisherId until_) :=
  ⟨rfl, rfl, rfl, rfl, rfl, rfl⟩

theorem Completes.same {p : Publishing} {publisherId : Text} {claim : OutboxClaim}
    {set : OutboxMessageRow → OutboxMessageRow} (h : Completes p publisherId claim set)
    (m : OutboxMessageRow) : m.SameEvent (set m) := by
  cases h <;> exact ⟨rfl, rfl, rfl, rfl, rfl, rfl⟩

theorem Completes.frees {p : Publishing} {publisherId : Text} {claim : OutboxClaim}
    {set : OutboxMessageRow → OutboxMessageRow} (h : Completes p publisherId claim set)
    (m : OutboxMessageRow) : (set m).claimedBy = none ∧ (set m).claimedUntil = none := by
  cases h <;> exact ⟨rfl, rfl⟩

theorem mem_updateClaimed {rows : List OutboxMessageRow} {id publisherId : Text}
    {set : OutboxMessageRow → OutboxMessageRow} {m : OutboxMessageRow} :
    m ∈ updateClaimed rows id publisherId set ↔
      (∃ n ∈ rows, n.id = id ∧ n.claimedBy = some publisherId ∧ m = set n) ∨
        (m ∈ rows ∧ ¬ (m.id = id ∧ m.claimedBy = some publisherId)) := by
  simp only [updateClaimed, List.mem_map, Bool.and_eq_true, decide_eq_true_eq]
  constructor
  · rintro ⟨n, hn, rfl⟩
    split
    · exact .inl ⟨n, hn, (‹_ ∧ _›).1, (‹_ ∧ _›).2, rfl⟩
    · exact .inr ⟨hn, ‹_›⟩
  · rintro (⟨n, hn, hid, hclaimed, rfl⟩ | ⟨hm, hne⟩)
    · exact ⟨n, hn, if_pos ⟨hid, hclaimed⟩⟩
    · exact ⟨m, hm, if_neg hne⟩

theorem map_updateClaimed {κ : Type} {key : OutboxMessageRow → κ} {rows : List OutboxMessageRow}
    {id publisherId : Text} {set : OutboxMessageRow → OutboxMessageRow}
    (h : ∀ m, key (set m) = key m) :
    (updateClaimed rows id publisherId set).map key = rows.map key := by
  simp only [updateClaimed, List.map_map]
  refine List.map_congr_left fun m _ => ?_
  simp only [Function.comp_apply]
  split
  · exact h m
  · rfl

end Wagering
