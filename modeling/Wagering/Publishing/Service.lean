import Wagering.Correctness.History
import Wagering.Isolation.Checked
import Wagering.Publishing.Invariant

/-!
# The outbox of the service

The service's outbox table and its publishers are a run of the outbox machine
(`Reachable.outbox`): a commit is one insertion of new rows, a publisher's step
is a publisher's step, and nothing else touches them.  So everything that holds
of the machine holds of the service.
-/

namespace Wagering

open Interleave

/-- The row repeats its event in the columns that publishers go by. -/
structure OutboxMessageRow.Copies (m : OutboxMessageRow) : Prop where
  id : m.id = m.payload.eventId
  eventId : m.eventId = m.payload.eventId
  aggregateId : m.aggregateId = m.payload.aggregateId
  occurredAt : m.occurredAt = m.payload.occurredAt

theorem toOutboxRow_copies (now : Instant) (event : IntegrationEvent) :
    (toOutboxRow now event).Copies :=
  ⟨rfl, rfl, rfl, rfl⟩

theorem OutboxMessageRow.Copies.same {m m' : OutboxMessageRow} (h : m.Copies)
    (hsame : m.SameEvent m') : m'.Copies where
  id := by rw [hsame.id, hsame.payload, h.id]
  eventId := by rw [hsame.eventId, hsame.payload, h.eventId]
  aggregateId := by rw [hsame.aggregateId, hsame.payload, h.aggregateId]
  occurredAt := by rw [hsame.occurredAt, hsame.payload, h.occurredAt]

/-- The rows that a statement adds to the outbox. -/
def Write.messages : Write → List OutboxMessageRow
  | .insertOutbox rows => rows
  | _ => []

/-- The rows that a sequence of statements adds to the outbox. -/
def newMessages (log : List Write) : List OutboxMessageRow := log.flatMap Write.messages

@[simp] theorem newMessages_append (log log' : List Write) :
    newMessages (log ++ log') = newMessages log ++ newMessages log' := by
  simp [newMessages]

theorem outbox_apply (db : Database) (write : Write) :
    (write.apply db).outbox = db.outbox ++ write.messages := by
  cases write <;> simp [Write.apply, Write.messages]

theorem outbox_after (db : Database) (log : List Write) :
    (db.after log).outbox = db.outbox ++ newMessages log := by
  induction log generalizing db with
  | nil => simp [newMessages]
  | cons write log ih =>
    rw [Database.after_cons, ih, outbox_apply, List.append_assoc]
    rfl

/-- The transaction's outbox rows are as `enqueue` writes them. -/
def Enqueues (l : Local) : Prop :=
  ∀ m ∈ newMessages l.log, ∃ now event, m = toOutboxRow now event

/-- What a new row of the outbox has passed. -/
theorem Local.Checked.message {l : Local} (h : l.Checked) {m : OutboxMessageRow}
    (hm : m ∈ newMessages l.log) :
    Passes (outboxRules m) ∧ ∃ now event, m = toOutboxRow now event := by
  obtain ⟨write, hwrite, hm⟩ := List.mem_flatMap.mp hm
  have hpassed := h write hwrite
  cases write with
  | insertOutbox rows => exact hpassed m hm
  | _ => cases hm

theorem Local.Checked.enqueues {l : Local} (h : l.Checked) : Enqueues l :=
  fun _ hm => (h.message hm).2

section Committed

variable [Platform]

/-- The unique keys of the outbox are the identifiers of its rows. -/
theorem Sound.outboxIds {sh : Shared} (h : Sound sh) :
    Keyed.Distinct OutboxMessageRow.id sh.db.outbox := by
  have hkeys := h.keys
  simp only [Database.uniqueKeys, List.nodup_append] at hkeys
  have hids : sh.db.outbox.flatMap OutboxMessageRow.uniqueKeys =
      (sh.db.outbox.map OutboxMessageRow.id).map UniqueKey.outboxId := by
    rw [List.map_map, ← List.flatMap_pure_eq_map]
    rfl
  have hnodup := hkeys.2.1
  rw [hids] at hnodup
  exact hnodup.of_map _

/-- The rows that a commit appends are an insertion of the machine. -/
theorem insert_step {sh : Shared} {l : Local} (hsound : Sound (committed sh l))
    (hcopies : ∀ m ∈ sh.db.outbox, m.Copies) (hfresh : Enqueues l) (p : Publishing) :
    Outbox.step ⟨sh.db.outbox, p⟩ (.insert (newMessages l.log)) =
      some ⟨(l.view sh.db).outbox, p⟩ := by
  have hrows : (l.view sh.db).outbox = sh.db.outbox ++ newMessages l.log := outbox_after _ _
  have hids : Keyed.Distinct OutboxMessageRow.id (sh.db.outbox ++ newMessages l.log) :=
    hrows ▸ hsound.outboxIds
  have hevents : Keyed.Distinct OutboxMessageRow.eventId
      (sh.db.outbox ++ newMessages l.log) := by
    have heq : (sh.db.outbox ++ newMessages l.log).map OutboxMessageRow.eventId =
        (sh.db.outbox ++ newMessages l.log).map OutboxMessageRow.id := by
      refine List.map_congr_left fun m hm => ?_
      have : m.Copies := by
        rcases List.mem_append.mp hm with hm | hm
        · exact hcopies m hm
        · obtain ⟨now, event, rfl⟩ := hfresh m hm
          exact toOutboxRow_copies now event
      rw [this.id, this.eventId]
    rw [Keyed.Distinct, heq]
    exact hids
  have hnew : (newMessages l.log).all OutboxMessageRow.isNew = true := by
    rw [List.all_eq_true]
    intro m hm
    obtain ⟨now, event, rfl⟩ := hfresh m hm
    rfl
  simp only [Outbox.step, hnew, hids, hevents, hrows, decide_true, Bool.and_self, if_true]

end Committed

variable [Platform] [Driver] {w : Service}

/-- The outbox and the publishers of the service. -/
def outboxOf (w : Service) : Outbox := ⟨w.shared.db.outbox, w.shared.publishing⟩

/-- Every transaction, open or ended, has sent only statements that passed. -/
theorem Reachable.checked (h : Reachable w) (j : Nat) : w.Keeps Local.Checked j := by
  refine @World.Steps.keeps _ _ store Entry Answer units (fun _ => Local.Checked) Service.start w h
    (fun _ hl => hl) (fun _ _ hwrite => by cases hwrite) (fun _ _ hl hop => exec_checked hl hop) j ?_
  exact World.Keeps.unborn (Nat.zero_le _) fun _ he => by cases he

theorem Reachable.enqueues (h : Reachable w) (j : Nat) : w.Keeps Enqueues j :=
  (h.checked j).mono fun _ hl => hl.enqueues

/-- Whatever the service does, its outbox does a step of the machine, and the
rows go on repeating their events. -/
theorem Reachable.outbox (h : Reachable w) :
    (outboxOf w).Reachable ∧ ∀ m ∈ w.shared.db.outbox, m.Copies := by
  induction h with
  | refl => exact ⟨.refl, fun m hm => by cases hm⟩
  | @tail mid w' before last ih =>
    have hnext : Reachable w' := .tail before last
    obtain ⟨hreach, hcopies⟩ := ih
    obtain ⟨action, hstep⟩ := last
    obtain ⟨-, hshared⟩ := World.step_cases hstep
    rcases hshared with
      ⟨-, heq | ⟨others, l, op, input, r, hop⟩ | ⟨a, -, ha⟩⟩ | ⟨i, l, a, heq, hhistory⟩
    · have hsame : outboxOf w' = outboxOf mid := by simp only [outboxOf, heq]
      exact ⟨hsame ▸ hreach, heq ▸ hcopies⟩
    · obtain ⟨hdb, hpublishing, -, -⟩ := exec_effect hop
      have hsame : outboxOf w' = outboxOf mid := by simp only [outboxOf, hdb, hpublishing]
      exact ⟨hsame ▸ hreach, hdb ▸ hcopies⟩
    · simp only [Option.map_eq_some_iff] at ha
      obtain ⟨next, hpublish, heq⟩ := ha
      have hnext : Outbox.Next (outboxOf mid) (outboxOf w') := by
        refine ⟨.publisher a, ?_⟩
        simp only [Outbox.step, outboxOf, hpublish, Option.map_some, ← heq]
      refine ⟨hreach.tail hnext, fun m' hm' => ?_⟩
      have hids := congrArg (List.map Prod.fst) (publishing_step_rows hpublish)
      simp only [List.map_map, Function.comp_def] at hids
      have hid : m'.id ∈ mid.shared.db.outbox.map OutboxMessageRow.id := by
        rw [← hids]
        rw [← heq] at hm'
        exact List.mem_map_of_mem hm'
      obtain ⟨m, hm, hid⟩ := List.mem_map.mp hid
      exact (hcopies m hm).same
        (Outbox.Steps.sameEvent (.single hnext) hreach.sound hm hm' hid.symm).1
    · have hmem : (i, Ending.committed mid.shared l a) ∈ w'.history := by
        rw [hhistory]
        exact List.mem_append_right _ (List.mem_singleton.mpr rfl)
      have hfresh : Enqueues l := (hnext.enqueues i).2 _ hmem
      have hsound : Sound (committed mid.shared l) := by
        have := hnext.sound.inv
        rwa [heq] at this
      have hinsert := insert_step hsound hcopies hfresh mid.shared.publishing
      have hsame : outboxOf w' = ⟨(l.view mid.shared.db).outbox, mid.shared.publishing⟩ := by
        rw [outboxOf, heq]
        rfl
      refine ⟨hsame ▸ hreach.tail ⟨_, hinsert⟩, fun m hm => ?_⟩
      have hrows : w'.shared.db.outbox = mid.shared.db.outbox ++ newMessages l.log := by
        rw [heq]
        exact outbox_after _ _
      rw [hrows] at hm
      rcases List.mem_append.mp hm with hm | hm
      · exact hcopies m hm
      · obtain ⟨now, event, rfl⟩ := hfresh m hm
        exact toOutboxRow_copies now event

end Wagering
