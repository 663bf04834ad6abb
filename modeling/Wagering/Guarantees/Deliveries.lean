import Wagering.Correctness.History
import Wagering.Guarantees.Groups
import Wagering.Interface.Crew
import Wagering.Lib.Typestate

/-!
# Deliveries

A worker deletes a message only after it has seen the message settled: its body
was sent to the dead-letter queue, or the use case answered that the delivery
was processed or had been before.  The use case answers so only when the inbox
holds a finished row of the delivery, and a delivery that ends otherwise has
left nothing.
-/

namespace Wagering

open Interleave

/-- The message may be deleted after this outcome. -/
def ConsumeOutcome.isSettled : ConsumeOutcome → Bool
  | .processed _ | .duplicate => true
  | .permanent _ | .transient _ => false

/-- The inbox has a finished row for the key of the delivery, with its hash. -/
def Recorded (db : Database) (delivery : InboxDelivery) : Prop :=
  ∃ row ∈ db.inbox, row.key = delivery.key.stored ∧ row.processedAt.isSome = true ∧
    row.payloadHash = delivery.payloadHash

/-! ## What a worker has seen -/

/-- What a worker has seen in a poll: queues and their URLs, bodies that it sent,
deliveries that were settled. -/
structure Findings : Type where
  urls : List (Text × Text)
  sent : List (Text × Text)
  settled : List InboxDelivery

section Statements

variable [Platform] [Driver]

/-- The findings settle the message. -/
def Findings.Settle (t : Findings) (options : WagerConsumerOptions) (message : QueueMessage) :
    Prop :=
  (∃ url, (options.dlqQueue, url) ∈ t.urls ∧ (url, message.body.getD []) ∈ t.sent) ∨
    ∃ parsed, parseWagerMessage (message.body.getD []) = .ok parsed ∧
      parsed.delivery options message ∈ t.settled

/-- Nothing is deleted that is not settled. -/
def custody (options : WagerConsumerOptions) : Typestate workerPorts where
  State := Findings
  start := ⟨[], [], []⟩
  Allows
    | t, .deleteMessage _ message => t.Settle options message
    | _, _ => True
  next
    | t, .resolveUrl queueName, queueUrl => { t with urls := (queueName, queueUrl) :: t.urls }
    | t, .sendMessage queueUrl messageBody _ _, _ =>
      { t with sent := (queueUrl, messageBody) :: t.sent }
    | t, .consume _ _ delivery _, .ok outcome =>
      if outcome.isSettled then { t with settled := delivery :: t.settled } else t
    | t, _, _ => t

variable {options : WagerConsumerOptions}

omit [Platform] in
/-- A body that is refused is not settled by that. -/
theorem refusalOutcome_isSettled (e : Failure) : (refusalOutcome e).isSettled = false := by
  unfold refusalOutcome
  split
  · split <;> rfl
  · rfl

theorem outcomeOf_follows (t : Findings) (index : Nat) (message : QueueMessage) :
    (outcomeOf options (message.body.getD []) index message).Follows (custody options)
      (fun t outcome => outcome.isSettled = true → t.Settle options message) t := by
  unfold outcomeOf
  cases hparse : parseWagerMessage (message.body.getD []) with
  | error e =>
    intro hsettled
    rw [refusalOutcome_isSettled] at hsettled
    cases hsettled
  | ok parsed =>
    refine Program.follows_call trivial fun answer => ?_
    cases answer with
    | ok outcome =>
      intro hsettled
      refine .inr ⟨parsed, hparse, ?_⟩
      simp only [custody, hsettled, if_true]
      exact List.mem_cons_self
    | error e =>
      intro hsettled
      cases hsettled

theorem decideMessage_follows (t : Findings) (queueUrl : Text) (index : Nat)
    (message : QueueMessage) :
    (decideMessage options queueUrl index message).Follows (custody options) (fun _ _ => True)
      t := by
  unfold decideMessage
  refine Program.follows_bind (Program.follows_mono (outcomeOf_follows t index message)
    fun t outcome hsettles => ?_)
  cases outcome with
  | processed result => exact ⟨hsettles rfl, fun _ => trivial⟩
  | duplicate => exact ⟨hsettles rfl, fun _ => trivial⟩
  | permanent reason =>
    -- the send precedes the delete
    exact ⟨trivial, fun url => ⟨trivial, fun _ =>
      ⟨.inl ⟨url, List.mem_cons_self, List.mem_cons_self⟩, fun _ => trivial⟩⟩⟩
  | transient reason => exact ⟨trivial, fun _ => trivial⟩

theorem handleBatch_follows (messages : List QueueMessage) (t : Findings) (queueUrl : Text)
    (index : Nat) :
    (handleBatch options queueUrl index messages).Follows (custody options) (fun _ _ => True)
      t := by
  induction messages generalizing t index with
  | nil => trivial
  | cons message rest ih =>
    have hdecide : ∀ t, (decideMessage options queueUrl index message >>= fun _ =>
        handleBatch options queueUrl (index + 1) rest).Follows (custody options)
          (fun _ _ => True) t := fun t =>
      Program.follows_bind (Program.follows_mono (decideMessage_follows t queueUrl index message)
        fun t _ _ => ih t (index + 1))
    unfold handleBatch
    refine Program.follows_call trivial fun stopping => ?_
    cases stopping with
    | true => exact Program.follows_call trivial fun _ => ih _ _
    | false =>
      by_cases hindex : 0 < index
      · simp only [hindex, if_true]
        exact Program.follows_call trivial fun _ => hdecide _
      · simp only [hindex, if_false]
        exact hdecide _

theorem pollOnce_follows (t : Findings) :
    (pollOnce options).Follows (custody options) (fun _ _ => True) t := by
  refine Program.follows_call trivial fun queueUrl => ?_
  refine Program.follows_call trivial fun messages => ?_
  exact Program.follows_bind (Program.follows_mono (handleBatch_follows messages _ queueUrl 0)
    fun _ _ _ => trivial)

/-! ## What the service has recorded -/

omit [Platform] in
theorem classifyFailure_isSettled (e : Failure) : (classifyFailure e).isSettled = false := by
  unfold classifyFailure
  split
  · rfl
  · split
    · simp only
      split <;> rfl
    all_goals rfl

variable {w w' : Service} {delivery : InboxDelivery} {command : SubmitWagerCommand}
  {outcome : ConsumeOutcome}

/-- How the only transaction of a delivery ended. -/
theorem Reachable.consumed (h : Reachable w) {i : Nat} {s : Session store Entry Answer}
    {r : Except Failure Answer} (hs : w.sessions[i]? = some s)
    (hentry : s.entry = .consume delivery command) (hstatus : s.status = .closed r) :
    ∃ ending, w.past i = [ending] ∧ r = afterConsume ending.result := by
  have hsound := h.sound.statuses hs
  rw [hstatus, hentry] at hsound
  obtain ⟨r', hpast, hr⟩ := hsound
  obtain ⟨ending, hone, rfl⟩ := List.map_eq_singleton_iff.mp hpast
  exact ⟨ending, hone, hr⟩

/-- What a delivery that committed has done. -/
theorem Reachable.consumption (h : Reachable w) {i : Nat} {s : Session store Entry Answer}
    {sh : Shared} {l : Local} {a : Answer} (hs : w.sessions[i]? = some s)
    (hentry : s.entry = .consume delivery command) (hmem : (i, .committed sh l a) ∈ w.history) :
    Sound sh ∧ Own sh l ∧ Evolves (committed sh l) w.shared ∧
      ∃ outcome, a = .consumed outcome ∧ Consumption delivery command sh l outcome := by
  obtain ⟨entry, past, hcommitted⟩ := h.commit_recorded hmem
  obtain rfl : entry = .consume delivery command :=
    session_entry hcommitted.session ⟨s, hs, hentry⟩
  exact ⟨hcommitted.sound, hcommitted.own, hcommitted.since, hcommitted.commits⟩

omit [Driver] in
/-- A delivery that is settled is recorded when it commits. -/
theorem Consumption.recorded {sh : Shared} {l : Local}
    (h : Consumption delivery command sh l outcome) (hs : Sound sh) (ho : Own sh l)
    (hsettled : outcome.isSettled = true) : Recorded (l.view sh.db) delivery := by
  cases outcome with
  | processed result =>
    obtain ⟨row, hview, hdone, hkey, hhash⟩ := h.inbox ho
    refine ⟨row, ?_, hkey, hdone.processed, hhash⟩
    rw [hview]
    exact List.mem_append_right _ List.mem_cons_self
  | duplicate =>
    cases h with
    | duplicate log kept mem key hash =>
      refine ⟨_, ?_, key, (hs.inbox _ mem).processed, hash⟩
      rw [Local.view, log]
      exact mem
  | permanent reason => cases hsettled
  | transient reason => cases hsettled

omit [Platform] [Driver] in
theorem Recorded.evolves {sh sh' : Shared} (h : Recorded sh.db delivery)
    (hevolves : Evolves sh sh') : Recorded sh'.db delivery := by
  obtain ⟨row, hrow, hkey, hprocessed, hhash⟩ := h
  exact ⟨row, hevolves.inbox row hrow, hkey, hprocessed, hhash⟩

/-- What the use case answers to a worker is true of the inbox. -/
theorem Reachable.answered_recorded (h : Reachable w) {i : Nat}
    {s : Session store Entry Answer} (hs : w.sessions[i]? = some s)
    (hentry : s.entry = .consume delivery command)
    (hstatus : s.status = .closed (.ok (.consumed outcome)))
    (hsettled : outcome.isSettled = true) : Recorded w.shared.db delivery := by
  obtain ⟨ending, hpast, hr⟩ := h.consumed hs hentry hstatus
  cases ending with
  | committed sh l a =>
    have hin : Ending.committed sh l a ∈ w.past i := by
      rw [hpast]
      exact List.mem_cons_self
    have hmem : (i, Ending.committed sh l a) ∈ w.history := World.mem_pastOf.mp hin
    obtain ⟨hsound, hown, hsince, outcome', ha, hconsumption⟩ := h.consumption hs hentry hmem
    rw [ha] at hr
    cases hr
    exact (hconsumption.recorded hsound hown hsettled).evolves hsince
  | failed sh l e =>
    cases hr
    rw [classifyFailure_isSettled] at hsettled
    cases hsettled

/-! ## The crew -/

variable {c c' : Crew}

/-- The queue service and the inbox bear out what a worker has seen. -/
structure Findings.Hold (t : Findings) (options : WagerConsumerOptions) (c : Crew) : Prop where
  urls : ∀ name url, (name, url) ∈ t.urls → (options, .resolved name url) ∈ c.log
  sent : ∀ url body, (url, body) ∈ t.sent → (options, .sent url body) ∈ c.log
  settled : ∀ delivery ∈ t.settled, Recorded c.service.shared.db delivery

/-- The message was sent to the dead-letter queue, or its delivery is recorded. -/
def Crew.Settled (c : Crew) (options : WagerConsumerOptions) (message : QueueMessage) : Prop :=
  (∃ url, (options, .resolved options.dlqQueue url) ∈ c.log ∧
    (options, .sent url (message.body.getD [])) ∈ c.log) ∨
  ∃ parsed, parseWagerMessage (message.body.getD []) = .ok parsed ∧
    Recorded c.service.shared.db (parsed.delivery options message)

/-- The service goes on and the log grows. -/
structure Crew.Grows (c c' : Crew) : Prop where
  service : World.Steps units c.service c'.service
  log : ∀ x ∈ c.log, x ∈ c'.log

/-- What the rest of a poll may delete is settled. -/
def Worker.Kept (worker : Worker) (c : Crew) : Prop :=
  match worker.stand with
  | .polling prog => ∃ t : Findings, t.Hold worker.options c ∧
      prog.Follows (custody worker.options) (fun _ _ => True) t
  | .waiting session next => ∃ (t : Findings) (index : Nat) (message : QueueMessage)
      (delivery : InboxDelivery) (command : SubmitWagerCommand), t.Hold worker.options c ∧
      (∃ s, c.service.sessions[session]? = some s ∧ s.entry = .consume delivery command) ∧
      ∀ answer, (next answer).Follows (custody worker.options) (fun _ _ => True)
        ((custody worker.options).next t (.consume index message delivery command) answer)
  | _ => True

/-- What every state of the crew keeps. -/
structure Crew.Kept (c : Crew) : Prop where
  service : Wagering.Reachable c.service
  workers : ∀ worker ∈ c.workers, worker.Kept c
  deleted : ∀ options url message, (options, .deleted url message) ∈ c.log →
    c.Settled options message

theorem Findings.Hold.grows {t : Findings} (h : t.Hold options c) (hgrows : c.Grows c')
    (hreach : Wagering.Reachable c.service) : t.Hold options c' where
  urls name url hmem := hgrows.log _ (h.urls name url hmem)
  sent url body hmem := hgrows.log _ (h.sent url body hmem)
  settled delivery hmem := (h.settled delivery hmem).evolves (hreach.evolves hgrows.service)

theorem Crew.Settled.grows {message : QueueMessage} (h : c.Settled options message)
    (hgrows : c.Grows c') (hreach : Wagering.Reachable c.service) : c'.Settled options message := by
  rcases h with ⟨url, hurl, hsent⟩ | ⟨parsed, hparse, hrecorded⟩
  · exact .inl ⟨url, hgrows.log _ hurl, hgrows.log _ hsent⟩
  · exact .inr ⟨parsed, hparse, hrecorded.evolves (hreach.evolves hgrows.service)⟩

theorem Worker.Kept.grows {worker : Worker} (h : worker.Kept c) (hgrows : c.Grows c')
    (hreach : Wagering.Reachable c.service) : worker.Kept c' := by
  rcases worker with ⟨options, stand⟩
  cases stand with
  | idle => trivial
  | lost => trivial
  | polling prog =>
    obtain ⟨t, hhold, hprog⟩ := h
    exact ⟨t, hhold.grows hgrows hreach, hprog⟩
  | waiting session next =>
    obtain ⟨t, index, message, delivery, command, hhold, ⟨s, hs, hentry⟩, hnext⟩ := h
    obtain ⟨s', hs', hentry'⟩ := hgrows.service.extends.entries hs
    exact ⟨t, index, message, delivery, command, hhold.grows hgrows hreach,
      ⟨s', hs', hentry'.trans hentry⟩, hnext⟩

omit [Driver] in
/-- What a worker has seen settled is settled. -/
theorem Findings.Hold.settle {t : Findings} {message : QueueMessage} (h : t.Hold options c)
    (hsettle : t.Settle options message) : c.Settled options message := by
  rcases hsettle with ⟨url, hurl, hsent⟩ | ⟨parsed, hparse, hmem⟩
  · exact .inl ⟨url, h.urls _ _ hurl, h.sent _ _ hsent⟩
  · exact .inr ⟨parsed, hparse, h.settled _ hmem⟩

theorem Crew.Kept.grows (h : c.Kept) (hgrows : c.Grows c') (hworkers : ∀ worker ∈ c'.workers,
      worker ∈ c.workers ∨ worker.Kept c')
    (hlog : ∀ options url message, (options, .deleted url message) ∈ c'.log →
      (options, .deleted url message) ∈ c.log ∨ c'.Settled options message) : c'.Kept where
  service := h.service.trans hgrows.service
  workers worker hmem := (hworkers worker hmem).elim
    (fun hold => (h.workers worker hold).grows hgrows h.service) id
  deleted options url message hmem := (hlog options url message hmem).elim
    (fun hold => (h.deleted options url message hold).grows hgrows h.service) id

/-! ## What a step keeps -/

omit [Platform] [Driver] in
theorem WorkerOp.deleted_events {op : WorkerOp} {reply : Reply} {queueUrl : Text}
    {message : QueueMessage} (h : .deleted queueUrl message ∈ op.events reply) :
    op = .deleteMessage queueUrl message := by
  cases op with
  | deleteMessage url m =>
    rcases List.mem_singleton.mp h with ⟨⟩
    rfl
  | resolveUrl name =>
    cases reply <;> cases h
    case url.tail h => cases h
  | sendMessage url body group dedup =>
    cases h
    case tail h => cases h
  | receive url size wait => cases h
  | isStopping => cases h
  | consume index m delivery command => cases h
  | changeVisibility url m seconds => cases h

/-- One worker moves on, and the service with it. -/
theorem Crew.Kept.move (h : c.Kept) {service : Service} {i : Nat} {worker : Worker}
    {events : List QueueEvent} (hsteps : World.Steps units c.service service)
    (hworker : worker.Kept ({ c with service }.move i worker events))
    (hdeleted : ∀ url message, .deleted url message ∈ events → c.Settled worker.options message) :
    ({ c with service }.move i worker events).Kept := by
  have hgrows : c.Grows ({ c with service }.move i worker events) :=
    ⟨hsteps, fun x hx => List.mem_append_left _ hx⟩
  refine h.grows hgrows (fun other hmem => ?_) fun options url message hmem => ?_
  · rcases List.mem_or_eq_of_mem_set hmem with hold | rfl
    · exact .inl hold
    · exact .inr hworker
  · rcases List.mem_append.mp hmem with hold | hnew
    · exact .inl hold
    · obtain ⟨event, hevent, heq⟩ := List.mem_map.mp hnew
      obtain ⟨rfl, rfl⟩ := Prod.mk.inj heq
      exact .inr ((hdeleted url message hevent).grows hgrows h.service)

/-- What a worker has seen after an answer is borne out. -/
theorem Findings.Hold.answer {t : Findings} {op : WorkerOp} {reply : Reply} {a : op.Answer}
    {i : Nat} {stand : Stand} (h : t.Hold options c)
    (hgrows : c.Grows (c.move i ⟨options, stand⟩ (op.events reply)))
    (hreach : Wagering.Reachable c.service) (hread : op.read reply = some a) :
    ((custody options).next t op a).Hold options
      (c.move i ⟨options, stand⟩ (op.events reply)) := by
  have hold := h.grows hgrows hreach
  cases op with
  | resolveUrl queueName =>
    cases reply with
    | url queueUrl =>
      cases hread
      refine ⟨fun name url hmem => ?_, hold.sent, hold.settled⟩
      rcases List.mem_cons.mp hmem with heq | hmem
      · obtain ⟨rfl, rfl⟩ := Prod.mk.inj heq
        exact List.mem_append_right _ List.mem_cons_self
      · exact hold.urls name url hmem
    | _ => cases hread
  | sendMessage queueUrl messageBody group dedup =>
    refine ⟨hold.urls, fun url body hmem => ?_, hold.settled⟩
    rcases List.mem_cons.mp hmem with heq | hmem
    · obtain ⟨rfl, rfl⟩ := Prod.mk.inj heq
      exact List.mem_append_right _ List.mem_cons_self
    · exact hold.sent url body hmem
  | consume index message delivery command => cases reply <;> cases hread
  | receive url size wait => exact hold
  | isStopping => exact hold
  | changeVisibility url message seconds => exact hold
  | deleteMessage url message => exact hold

/-- One step keeps what every state of the crew keeps. -/
theorem Crew.Kept.step {action : CrewAction} (h : c.Kept) (hstep : c.step action = some c') :
    c'.Kept := by
  have hworker : ∀ {i : Nat} {worker : Worker}, c.workers[i]? = some worker → worker.Kept c :=
    fun hi => h.workers _ (List.mem_of_getElem? hi)
  have hgrows : ∀ (i : Nat) (worker : Worker) (events : List QueueEvent),
      c.Grows (c.move i worker events) := fun i worker events =>
    ⟨.refl, fun x hx => List.mem_append_left _ hx⟩
  have hnone : ∀ {options : WagerConsumerOptions} (url : Text) (message : QueueMessage),
      QueueEvent.deleted url message ∈ ([] : List QueueEvent) → c.Settled options message :=
    fun _ _ hmem => by cases hmem
  -- a call that is about to delete is allowed to
  have hcalled : ∀ {options : WagerConsumerOptions} {op : WorkerOp}
      {next : op.Answer → WorkerCode Nat} {reply : Reply} {t : Findings}, t.Hold options c →
      Program.Follows (custody options) (fun _ _ => True) (.call op next) t →
      ∀ url message, .deleted url message ∈ op.events reply → c.Settled options message := by
    intro options op next reply t hhold hprog url message hmem
    obtain rfl := WorkerOp.deleted_events hmem
    exact hhold.settle hprog.1
  cases action with
  | hire options =>
    cases hstep
    refine h.grows ⟨.refl, fun x hx => hx⟩ (fun worker hmem => ?_) fun _ _ _ hmem => .inl hmem
    rcases List.mem_append.mp hmem with hold | hnew
    · exact .inl hold
    · rw [List.mem_singleton.mp hnew]
      exact .inr trivial
  | poll i =>
    simp only [Crew.step] at hstep
    split at hstep
    case h_1 options hi =>
      cases hstep
      exact h.move .refl ⟨_, ⟨by simp, by simp, by simp⟩, pollOnce_follows ⟨[], [], []⟩⟩ hnone
    case h_2 => cases hstep
  | answer i reply =>
    simp only [Crew.step] at hstep
    split at hstep
    case h_1 options op next hi =>
      obtain ⟨a, hread, rfl⟩ := Option.map_eq_some_iff.mp hstep
      obtain ⟨t, hhold, hprog⟩ := hworker hi
      exact h.move .refl ⟨_, hhold.answer (hgrows _ _ _) h.service hread, hprog.2 a⟩
        (hcalled hhold hprog)
    case h_2 => cases hstep
  | reject i error took =>
    simp only [Crew.step] at hstep
    split at hstep
    case h_1 options op next hi =>
      split at hstep
      case isTrue =>
        cases hstep
        obtain ⟨t, hhold, hprog⟩ := hworker hi
        refine h.move .refl ⟨t, hhold.grows (hgrows _ _ _) h.service, trivial⟩ ?_
        cases took with
        | true => exact hcalled hhold hprog
        | false => exact hnone
      case isFalse => cases hstep
    case h_2 => cases hstep
  | deliver i =>
    simp only [Crew.step] at hstep
    split at hstep
    case h_1 options index message delivery command next hi =>
      obtain ⟨service, hservice, rfl⟩ := Option.map_eq_some_iff.mp hstep
      obtain ⟨t, hhold, hprog⟩ := hworker hi
      have hsteps : World.Steps units c.service service := .single ⟨_, hservice⟩
      refine h.move hsteps ⟨t, index, message, delivery, command,
        hhold.grows ⟨hsteps, fun x hx => List.mem_append_left _ hx⟩ h.service, ?_, hprog.2⟩ hnone
      cases hservice
      exact ⟨_, List.getElem?_concat_length, rfl⟩
    case h_2 => cases hstep
  | resume i =>
    simp only [Crew.step] at hstep
    split at hstep
    case h_1 options session next hi =>
      obtain ⟨t, index, message, delivery, command, hhold, ⟨s, hs, hentry⟩, hnext⟩ := hworker hi
      split at hstep
      case h_1 entry outcome hclosed =>
        cases hstep
        rw [hs] at hclosed
        cases hclosed
        refine h.move .refl ⟨_, ?_, hnext (.ok outcome)⟩ hnone
        have hhold := hhold.grows (hgrows i ⟨options, .polling (next (.ok outcome))⟩ []) h.service
        cases hsettled : outcome.isSettled with
        | false => simpa only [custody, hsettled, Bool.false_eq_true, if_false] using hhold
        | true =>
          simp only [custody, hsettled, if_true]
          refine ⟨hhold.urls, hhold.sent, fun delivery' hmem => ?_⟩
          rcases List.mem_cons.mp hmem with rfl | hmem
          · exact h.service.answered_recorded hs hentry rfl hsettled
          · exact hhold.settled delivery' hmem
      case h_2 entry error hclosed =>
        cases hstep
        exact h.move .refl ⟨_, hhold.grows (hgrows _ _ _) h.service, hnext (.error error)⟩ hnone
      case h_3 => cases hstep
    case h_2 => cases hstep
  | finish i =>
    simp only [Crew.step] at hstep
    split at hstep
    case h_1 =>
      cases hstep
      exact h.move .refl trivial hnone
    case h_2 =>
      cases hstep
      exact h.move .refl trivial hnone
    case h_3 => cases hstep
  | crash i took =>
    simp only [Crew.step] at hstep
    split at hstep
    case h_1 options op next hi =>
      cases hstep
      obtain ⟨t, hhold, hprog⟩ := hworker hi
      refine h.move .refl trivial ?_
      cases took with
      | true => exact hcalled hhold hprog
      | false => exact hnone
    case h_2 =>
      cases hstep
      exact h.move .refl trivial hnone
    case h_3 => cases hstep
  | serve action =>
    obtain ⟨service, hservice, rfl⟩ := Option.map_eq_some_iff.mp hstep
    exact h.grows ⟨.single ⟨_, hservice⟩, fun x hx => hx⟩ (fun worker hmem => .inl hmem)
      fun _ _ _ hmem => .inl hmem

theorem Crew.Reachable.kept (h : c.Reachable) : c.Kept := by
  induction h with
  | refl =>
    exact ⟨.refl, fun _ hmem => (List.not_mem_nil hmem).elim,
      fun _ _ _ hmem => (List.not_mem_nil hmem).elim⟩
  | tail before last ih =>
    obtain ⟨action, hstep⟩ := last
    exact ih.step hstep

/-! ## What every run promises -/

/-- Entry `n` of the history is a commit of a delivery for the key, and the
delivery was processed in it. -/
def Executes (w : Service) (n : Nat) (key : InboxKey) : Prop :=
  ∃ i sh l result s delivery command,
    w.history[n]? = some (i, .committed sh l (.consumed (.processed result))) ∧
    w.sessions[i]? = some s ∧ s.entry = .consume delivery command ∧
    delivery.key.stored = key.stored

/-- What the workers promise. -/
structure Crew.Delivers (c : Crew) : Prop where
  deleted : ∀ options url message, (options, .deleted url message) ∈ c.log →
    c.Settled options message
  once : ∀ key n m, Executes c.service n key → Executes c.service m key → n = m
  whole : ∀ i sh l result s delivery command,
    (i, .committed sh l (.consumed (.processed result))) ∈ c.service.history →
    c.service.sessions[i]? = some s → s.entry = .consume delivery command →
    (∃ row, (l.view sh.db).inbox = sh.db.inbox ++ [row] ∧ row.processedAt.isSome = true ∧
      row.key = delivery.key.stored ∧ row.payloadHash = delivery.payloadHash) ∧
    Submission command sh l result
  nothing : ∀ i s delivery command outcome ending, c.service.sessions[i]? = some s →
    s.entry = .consume delivery command → s.status = .closed (.ok (.consumed outcome)) →
    outcome.isSettled = false → (i, ending) ∈ c.service.history →
    ending.after.db = ending.before.db
  refused : ∀ options index message e, parseWagerMessage (message.body.getD []) = .error e →
    (outcomeOf options (message.body.getD []) index message).Calls (fun _ => False)

/-- A key is processed by one commit. -/
theorem Reachable.executes_unique {key : InboxKey} {n m : Nat} (h : Reachable w)
    (hn : Executes w n key) (hm : Executes w m key) : ¬ n < m := by
  intro hlt
  obtain ⟨i, sh, l, result, s, delivery, command, hget, hs, hentry, hkey⟩ := hn
  obtain ⟨j, sh', l', result', s', delivery', command', hget', hs', hentry', hkey'⟩ := hm
  obtain ⟨hsound, hown, -, outcome, houtcome, hfirst⟩ :=
    h.consumption hs hentry (List.mem_of_getElem? hget)
  obtain ⟨-, hown', -, outcome', houtcome', hsecond⟩ :=
    h.consumption hs' hentry' (List.mem_of_getElem? hget')
  cases houtcome
  cases houtcome'
  have hevolves : Evolves (committed sh l) sh' := by
    have := List.pairwise_iff_getElem.mp h.sound.ordered n m
      (List.getElem?_eq_some_iff.mp hget).1 (List.getElem?_eq_some_iff.mp hget').1 hlt
    rw [(List.getElem?_eq_some_iff.mp hget).2, (List.getElem?_eq_some_iff.mp hget').2] at this
    exact this
  -- the second commit inserted a row for a key that the first one had taken
  obtain ⟨row, hrow, hrowkey, -, -⟩ := (hfirst.recorded hsound hown rfl).evolves hevolves
  cases hsecond with
  | processed inbox submission =>
    refine inserted_fresh (by rw [inbox]; exact List.mem_cons_self) hown' row hrow ?_
    rw [hrowkey, InboxDelivery.stored_key, hkey, hkey']

/-- A delivery that is not settled leaves the tables as they were. -/
theorem Reachable.unsettled_nothing (h : Reachable w) {i : Nat} {s : Session store Entry Answer}
    {ending : Ending store Answer} (hs : w.sessions[i]? = some s)
    (hentry : s.entry = .consume delivery command)
    (hstatus : s.status = .closed (.ok (.consumed outcome))) (hsettled : outcome.isSettled = false)
    (hmem : (i, ending) ∈ w.history) : ending.after.db = ending.before.db := by
  obtain ⟨only, hpast, hr⟩ := h.consumed hs hentry hstatus
  have hin : ending ∈ w.past i := World.mem_pastOf.mpr hmem
  rw [hpast] at hin
  obtain rfl := List.mem_singleton.mp hin
  cases ending with
  | failed sh l e => rfl
  | committed sh l a =>
    obtain ⟨-, -, -, outcome', ha, hconsumption⟩ := h.consumption hs hentry hmem
    rw [ha] at hr
    cases hr
    have hlog : l.log = [] := by
      cases hconsumption with
      | processed inbox submission => cases hsettled
      | duplicate log => cases hsettled
      | permanent log => exact log
    show l.view sh.db = sh.db
    rw [Local.view, hlog]
    rfl

/-- Whatever is delivered to whatever workers, however often, and wherever they
are stopped: a message that is gone was sent on or recorded, each key is
processed once and whole, and every other delivery leaves nothing. -/
theorem Crew.Reachable.delivers (h : c.Reachable) : c.Delivers := by
  have hkept := h.kept
  refine
    { deleted := hkept.deleted
      once := fun key n m hn hm => ?once
      whole := fun i sh l result s delivery command hmem hs hentry => ?whole
      nothing := fun i s delivery command outcome ending hs hentry hstatus hsettled hmem =>
        hkept.service.unsettled_nothing hs hentry hstatus hsettled hmem
      refused := fun options index message e hparse => ?refused }
  case once =>
    rcases Nat.lt_trichotomy n m with hlt | heq | hlt
    · exact absurd hlt (hkept.service.executes_unique hn hm)
    · exact heq
    · exact absurd hlt (hkept.service.executes_unique hm hn)
  case whole =>
    obtain ⟨-, hown, -, outcome, houtcome, hconsumption⟩ :=
      hkept.service.consumption hs hentry hmem
    cases houtcome
    obtain ⟨row, hview, hdone, hkey, hhash⟩ := hconsumption.inbox hown
    refine ⟨⟨row, hview, hdone.processed, hkey, hhash⟩, ?_⟩
    cases hconsumption with
    | processed inbox submission => exact submission
  case refused =>
    rw [outcomeOf, hparse]
    trivial

end Statements

/-! ## A poll of two messages -/

section Sample

open Text

local instance crewPlatform : Platform := betPlatform

local instance crewDriver : Driver := sampleDriver

/-- The calls of session `i` of the service, one after the other. -/
def crewCalls (i : Nat) (inputs : List Input) : List CrewAction :=
  inputs.map fun input => .serve (.exec i input)

/-- A worker receives a message that nobody can read and the bet of the sample
wallet: the first one is sent on, the second one is processed, and both are deleted. -/
def crewActions : List CrewAction :=
  [.serve (.begin (.createWallet sampleWallet))] ++
  crewCalls 0
    [.instant 1000, .identity (sampleId 1), .identity (sampleId 2), .identity (sampleId 3), .step,
      .step, .step, .step, .identity (sampleId 4), .identity (sampleId 5), .step] ++
  [.serve (.finish 0), .hire sampleOptions, .poll 0, .answer 0 (.url (utf16 "input")),
    .answer 0 (.messages [sampleQueueMessage (utf16 "1") (.string (utf16 "?")),
      sampleQueueMessage (utf16 "2") firstBet]),
    .answer 0 (.stopping false), .answer 0 (.url (utf16 "dlq")), .answer 0 .done, .answer 0 .done,
    .answer 0 (.stopping false), .answer 0 .done, .deliver 0] ++
  crewCalls 1
    [.instant 2000, .step, .instant 2000, .identity (sampleId 6), .step, .identity (sampleId 7),
      .step, .identity (sampleId 8), .step, .step, .step, .identity (sampleId 9), .step,
      .instant 2001, .step] ++
  [.serve (.finish 1), .resume 0, .answer 0 .done, .finish 0]

/-- How many messages are gone. -/
def Crew.deletions (c : Crew) : Nat :=
  (c.log.filter fun x => match x.2 with
    | .deleted _ _ => true
    | _ => false).length

theorem crew_runs :
    (Crew.run Crew.start crewActions).any (fun c : Crew => c.deletions == 2) = true := by
  decide +kernel

theorem sampleCrew_exists : ∃ c, Crew.run Crew.start crewActions = some c ∧ c.deletions = 2 := by
  obtain ⟨c, hrun, hdeletions⟩ := (Option.any_eq_true _ _).mp crew_runs
  exact ⟨c, hrun, beq_iff_eq.mp hdeletions⟩

theorem sampleCrew_delivers : ∃ c, Crew.run Crew.start crewActions = some c ∧ c.deletions = 2 ∧
    c.Delivers := by
  obtain ⟨c, hrun, hdeletions⟩ := sampleCrew_exists
  have hreach : c.Reachable := Crew.Reachable.of_run .refl hrun
  exact ⟨c, hrun, hdeletions, hreach.delivers⟩

end Sample

end Wagering
