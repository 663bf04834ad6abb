import Wagering.Application.Units
import Wagering.Interface.Worker

/-!
# Workers over the service

Any number of `WagerConsumerWorker`s that poll one queue (`loop`), next to
whatever else the service is asked.  A delivery is a session of the service.
The queue may hand out any messages, as often as it likes; a call to it may fail
before or after it took effect, and so may a worker be gone at any call.  A
shutdown sends and deletes nothing, so what it does is left out.
-/

namespace Wagering

open Interleave

/-- What a call has done at the queue service. -/
inductive QueueEvent : Type
  | resolved (queueName queueUrl : Text)
  | sent (queueUrl messageBody : Text)
  | deleted (queueUrl : Text) (message : QueueMessage)
deriving DecidableEq

/-- What the queue service replies. -/
inductive Reply : Type
  | url (queueUrl : Text)
  | messages (messages : List QueueMessage)
  | stopping (stopping : Bool)
  | done

/-- The reply as the answer to a call; the use case is not answered by the queue. -/
def WorkerOp.read : (op : WorkerOp) → Reply → Option op.Answer
  | .resolveUrl _, .url queueUrl => some queueUrl
  | .receive _ _ _, .messages messages => some messages
  | .isStopping, .stopping stopping => some stopping
  | .changeVisibility _ _ _, .done => some ()
  | .sendMessage _ _ _ _, .done => some ()
  | .deleteMessage _ _, .done => some ()
  | _, _ => none

/-- What a call does at the queue service. -/
def WorkerOp.events : WorkerOp → Reply → List QueueEvent
  | .resolveUrl queueName, .url queueUrl => [.resolved queueName queueUrl]
  | .sendMessage queueUrl messageBody _ _, _ => [.sent queueUrl messageBody]
  | .deleteMessage queueUrl message, _ => [.deleted queueUrl message]
  | _, _ => []

/-- A call over the network. -/
def WorkerOp.isRemote : WorkerOp → Bool
  | .consume _ _ _ _ => false
  | .isStopping => false
  | _ => true

variable [Platform]

/-- Where a worker stands: between two polls, in a poll, in a poll that waits for
a session of the service, or gone. -/
inductive Stand : Type
  | idle
  | polling (prog : WorkerCode Nat)
  | waiting (session : Nat) (next : Except Failure ConsumeOutcome → WorkerCode Nat)
  | lost

structure Worker : Type where
  options : WagerConsumerOptions
  stand : Stand

variable [Driver]

/-- The service, the workers, and what they have done at the queue service, oldest first. -/
structure Crew : Type where
  service : Service
  workers : List Worker
  log : List (WagerConsumerOptions × QueueEvent)

/-- One step of the environment's schedule. -/
inductive CrewAction : Type
  | hire (options : WagerConsumerOptions)
  | poll (i : Nat)
  | answer (i : Nat) (reply : Reply)
  | reject (i : Nat) (error : Text) (took : Bool)
  | deliver (i : Nat)
  | resume (i : Nat)
  | finish (i : Nat)
  | crash (i : Nat) (took : Bool)
  | serve (action : Action store Entry)

namespace Crew

/-- The crew before the first worker. -/
def start : Crew := ⟨Service.start, [], []⟩

/-- Worker `i` moves on, and the queue service has done something for it. -/
def move (c : Crew) (i : Nat) (worker : Worker) (events : List QueueEvent) : Crew :=
  { c with
    workers := c.workers.set i worker
    log := c.log ++ events.map fun event => (worker.options, event) }

/-- One step.  `none`: the action does not apply here. -/
def step (c : Crew) : CrewAction → Option Crew
  | .hire options => some { c with workers := c.workers ++ [⟨options, .idle⟩] }
  | .poll i =>
    match c.workers[i]? with
    | some ⟨options, .idle⟩ => some (c.move i ⟨options, .polling (pollOnce options)⟩ [])
    | _ => none
  | .answer i reply =>
    match c.workers[i]? with
    | some ⟨options, .polling (.call op next)⟩ =>
      (WorkerOp.read op reply).map fun a =>
        c.move i ⟨options, .polling (next a)⟩ (WorkerOp.events op reply)
    | _ => none
  | .reject i error took =>
    match c.workers[i]? with
    | some ⟨options, .polling (.call op _)⟩ =>
      if WorkerOp.isRemote op then
        some (c.move i ⟨options, .polling (.raise error)⟩
          (if took then WorkerOp.events op .done else []))
      else none
    | _ => none
  | .deliver i =>
    match c.workers[i]? with
    | some ⟨options, .polling (.call (.consume _ _ delivery command) next)⟩ =>
      (c.service.step units (.begin (.consume delivery command))).map fun service =>
        { c with service }.move i ⟨options, .waiting c.service.sessions.length next⟩ []
    | _ => none
  | .resume i =>
    match c.workers[i]? with
    | some ⟨options, .waiting session next⟩ =>
      match c.service.sessions[session]? with
      | some ⟨_, .closed (.ok (.consumed outcome))⟩ =>
        some (c.move i ⟨options, .polling (next (.ok outcome))⟩ [])
      | some ⟨_, .closed (.error error)⟩ =>
        some (c.move i ⟨options, .polling (next (.error error))⟩ [])
      | _ => none
    | _ => none
  | .finish i =>
    match c.workers[i]? with
    | some ⟨options, .polling (.pure _)⟩ => some (c.move i ⟨options, .idle⟩ [])
    | some ⟨options, .polling (.raise _)⟩ => some (c.move i ⟨options, .idle⟩ [])
    | _ => none
  | .crash i took =>
    match c.workers[i]? with
    | some ⟨options, .polling (.call op _)⟩ =>
      some (c.move i ⟨options, .lost⟩ (if took then WorkerOp.events op .done else []))
    | some ⟨options, _⟩ => some (c.move i ⟨options, .lost⟩ [])
    | none => none
  | .serve action => (c.service.step units action).map fun service => { c with service }

/-- A whole schedule. -/
def run (c : Crew) : List CrewAction → Option Crew
  | [] => some c
  | a :: rest => (c.step a).bind fun c' => c'.run rest

/-- The states that some schedule leads to. -/
def Reachable (c : Crew) : Prop :=
  Relation.ReflTransGen (fun c c' : Crew => ∃ a, c.step a = some c') start c

theorem Reachable.of_run {actions : List CrewAction} {c c' : Crew} (h : c.Reachable)
    (hrun : c.run actions = some c') : c'.Reachable := by
  induction actions generalizing c with
  | nil =>
    cases hrun
    exact h
  | cons a rest ih =>
    obtain ⟨mid, first, later⟩ := Option.bind_eq_some_iff.mp hrun
    exact ih (h.tail ⟨a, first⟩) later

end Crew

end Wagering
