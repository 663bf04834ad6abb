import Wagering.Application.Units
import Wagering.Correctness.Consuming
import Wagering.Correctness.Opening
import Wagering.Correctness.Resolving
import Wagering.Lib.Sha256
import Wagering.Utf8

/-!
# The service

Every entry point keeps its contract (`units_safe`), so whatever requests come,
in whatever order their steps interleave and wherever they fail, every state
that the service reaches is sound and every transaction ended as its contract
says (`Reachable.sound`).
-/

namespace Interleave

variable {σ : Signature} {φ o : Type} {S : Store σ φ}

/-- What the transaction gave to the code around it. -/
def Ending.result : Ending S o → Except φ o
  | .committed _ _ a => .ok a
  | .failed _ _ e => .error e

end Interleave

namespace Wagering

open Interleave

variable {sh : Shared} {l : Local}

/-! ## Ready to commit -/

theorem view_inbox_same (hinbox : inboxOf l.log = []) :
    (∀ m ∈ (l.view sh.db).inbox, m ∈ sh.db.inbox ∨ m.Done) ∧
      ∀ m ∈ sh.db.inbox, m ∈ (l.view sh.db).inbox := by
  rw [view_inbox hinbox]
  exact ⟨fun _ hm => .inl hm, fun _ hm => hm⟩

section Verified

variable [Platform]

theorem Submission.ready {command : SubmitWagerCommand} {result : SubmitWagerResult}
    (h : Submission command sh l result) (hs : Sound sh)
    (hinbox : ∀ m ∈ (l.view sh.db).inbox, m ∈ sh.db.inbox ∨ m.Done)
    (hkept : ∀ m ∈ sh.db.inbox, m ∈ (l.view sh.db).inbox) : Ready sh l := by
  cases h with
  | decided concluded => exact concluded.ready hs hinbox hkept
  | replayed lost => exact ready_idle lost.idle hinbox hkept

theorem ready_of_log_nil (hlog : l.log = []) : Ready sh l := by
  obtain ⟨hinbox, hkept⟩ := @view_inbox_same sh l (by rw [hlog]; rfl)
  exact ready_idle (by rw [hlog]; rfl) hinbox hkept

theorem Consumption.ready {delivery : InboxDelivery} {command : SubmitWagerCommand}
    {outcome : ConsumeOutcome} (h : Consumption delivery command sh l outcome) (hs : Sound sh)
    (ho : Own sh l) : Ready sh l := by
  cases h with
  | processed inbox submission =>
    obtain ⟨row, hview, hdone, -⟩ := Consumption.inbox (.processed inbox submission) ho
    refine submission.ready hs ?_ ?_
    · rw [hview]
      intro m hm
      refine (List.mem_append.mp hm).imp_right fun hm => ?_
      rw [List.mem_singleton.mp hm]
      exact hdone
    · rw [hview]
      exact fun m hm => List.mem_append_left _ hm
  | duplicate log => exact ready_of_log_nil log
  | permanent log => exact ready_of_log_nil log

theorem Resolves.ready {outcome : PendingReferenceOutcome} (h : Resolves sh l outcome)
    (hs : Sound sh) : Ready sh l := by
  obtain ⟨hinbox, h⟩ := h
  obtain ⟨hin, hkept⟩ := @view_inbox_same sh l hinbox
  cases h with
  | idle log => exact ready_of_log_nil log
  | rescheduled concluded => exact concluded.ready hs hin hkept
  | settled concluded => exact concluded.ready hs hin hkept

/-- An empty database is sound. -/
theorem start_sound : Sound .start where
  books :=
    { walletIds := .nil
      wagerIds := .nil
      wallets := fun _ h => by cases h
      wagers := fun _ h => by cases h
      slots := fun h => by cases h
      entries := fun _ h => by cases h
      events := fun _ h => by cases h }
  keys := .nil
  ids := fun _ h => by cases h
  wallets := fun _ h => by cases h
  wagers := fun _ h => by cases h
  inbox := fun _ h => by cases h

/-! ## Contracts -/

variable [Driver]

/-- What a transaction of the worker that commits has done, after those in the list. -/
inductive Settles : List (Ending store Answer) → Shared → Local → PendingReferenceOutcome → Prop
  | first {sh : Shared} {l : Local} {outcome : PendingReferenceOutcome}
    (h : Resolves sh l outcome) : Settles [] sh l outcome
  | second {before sh : Shared} {loc l : Local} {error : Failure} {id : Text}
    {outcome : PendingReferenceOutcome} (attempted : loc.attempted = some id)
    (failure : ∃ r, error = .repository r)
    (lasting : Driver.isTransientFailure error = false) (inbox : inboxOf l.log = [])
    (h : GivenUp id sh l outcome) : Settles [.failed before loc error] sh l outcome

/-- What a transaction of the worker may fail with, outages apart. -/
inductive SettleFailure : List (Ending store Answer) → Shared → Failure → Prop
  | version {sh : Shared} {w : WalletRow} (mem : w ∈ sh.db.wallets) (last : 2147483647 ≤ w.version) :
    SettleFailure [] sh (.repository (.integrity (.outOfRange (utf16 "version"))))
  | rethrown {before sh : Shared} {loc : Local} {error : Failure}
    (failure : ∃ r, error = .repository r) :
    SettleFailure [.failed before loc error] sh error

omit [Platform] [Driver] in
/-- An outage is a failure of a repository call. -/
theorem isOutage_repository {e : Failure} (h : e.isOutage = true) : ∃ r, e = .repository r := by
  cases e with
  | repository r => exact ⟨r, rfl⟩
  | domain _ => cases h
  | application _ => cases h
  | stackOverflow => cases h

omit [Driver] in
/-- The worker fails only where a repository call failed. -/
theorem SettleFailure.failure {past : List (Ending store Answer)} {sh : Shared} {e : Failure}
    (h : SettleFailure past sh e) : ∃ r, e = .repository r := by
  cases h with
  | version => exact ⟨_, rfl⟩
  | rethrown failure => exact failure

/-- What each entry point owes. -/
def contract : Entry → Contract store Answer
  | .createWallet command =>
    { commits := fun _ sh l a => ∃ view, a = .wallet view ∧ WalletCreated command sh l view
      fails := fun _ _ l e => CreateFailure command l e
      done := fun past r => past.map Ending.result = [r] }
  | .submit command =>
    { commits := fun _ sh l a => ∃ result, a = .submitted result ∧ inboxOf l.log = [] ∧
        Submission command sh l result
      fails := fun _ sh l e => SubmitFailure command sh l e
      done := fun past r => past.map Ending.result = [r] }
  | .consume delivery command =>
    { commits := fun _ sh l a => ∃ outcome, a = .consumed outcome ∧
        Consumption delivery command sh l outcome
      fails := fun _ sh l e => ConsumeFailure delivery command sh l e
      done := fun past r => ∃ r', past.map Ending.result = [r'] ∧ r = afterConsume r' }
  | .resolvePending =>
    { commits := fun past sh l a => ∃ outcome, a = .resolved outcome ∧ Settles past sh l outcome
      fails := fun past sh _ e => SettleFailure past sh e
      done := fun past r => (past.map Ending.result).getLast? = some r }

/-! ## Every unit keeps its contract -/

theorem createWallet_safe (command : CreateWalletCommand) (sh : Shared) :
    (units (.createWallet command)).Safe discipline (contract (.createWallet command)) [] sh := by
  refine ⟨Program.wp_map (wp_createWallet rfl (fun sh' l' view hready hcreated => ?_)
    fun sh' l' e hfail => ⟨hfail, rfl⟩), fun _ _ _ _ _ _ => rfl⟩
  exact ⟨hready, ⟨view, rfl, hcreated⟩, rfl⟩

theorem submit_safe (command : SubmitWagerCommand) (sh : Shared) :
    (units (.submit command)).Safe discipline (contract (.submit command)) [] sh := by
  have hcode : (executeWithin command).wp discipline
      (fun sh l result => Submission command sh l result ∧ inboxOf l.log = [])
      (fun sh l e => SubmitFailure command sh l e) sh .start :=
    wp_executeWithin rfl rfl (fun _ _ _ h hinbox _ => ⟨h, hinbox⟩) fun _ _ _ h => h
  refine ⟨Program.wp_map (Program.wp_mono hcode (fun sh' l' result hs _ ⟨h, hinbox⟩ => ?_)
    fun _ _ _ h => ⟨h, rfl⟩), fun _ _ _ _ _ _ => rfl⟩
  obtain ⟨hin, hkept⟩ := view_inbox_same hinbox
  exact ⟨h.ready hs hin hkept, ⟨result, rfl, hinbox, h⟩, rfl⟩

theorem consume_safe (delivery : InboxDelivery) (command : SubmitWagerCommand) (sh : Shared) :
    (units (.consume delivery command)).Safe discipline (contract (.consume delivery command)) []
      sh := by
  have hcode : (consumeWithin delivery command).wp discipline
      (fun sh l outcome => Consumption delivery command sh l outcome)
      (fun sh l e => ConsumeFailure delivery command sh l e) sh .start :=
    wp_consumeWithin rfl rfl (fun _ _ _ h => h) fun _ _ _ h => h
  refine ⟨Program.wp_map (Program.wp_mono hcode (fun sh' l' outcome hs ho h => ?_)
    fun _ _ _ h => ⟨h, _, rfl, rfl⟩), fun _ _ _ _ _ _ => ⟨_, rfl, rfl⟩⟩
  exact ⟨h.ready hs ho, ⟨outcome, rfl, h⟩, _, rfl, rfl⟩

/-- What the worker does after its first transaction has failed. -/
theorem afterResolve_safe (before sh : Shared) (loc : Local) {error : Failure}
    (hfailure : ∃ r, error = .repository r) :
    (afterResolve loc (.error error)).Safe discipline (contract .resolvePending)
      [.failed before loc error] sh := by
  unfold afterResolve
  cases hid : loc.attempted with
  | none => exact rfl
  | some id =>
    cases htransient : Driver.isTransientFailure error with
    | true =>
      simp only [htransient, if_true]
      exact rfl
    | false =>
      simp only [htransient, Bool.false_eq_true, if_false]
      have hcode : (recordFailure id error).wp discipline
          (fun sh l outcome => inboxOf l.log = [] ∧ GivenUp id sh l outcome)
          (fun _ _ e => e = error) sh .start :=
        wp_recordFailure rfl (fun _ _ _ hinbox h => ⟨hinbox, h⟩) fun _ _ => rfl
      refine ⟨Program.wp_map (Program.wp_mono hcode (fun sh' l' outcome hs _ ⟨hinbox, h⟩ => ?_)
        fun sh' l' e he => ?_), fun _ _ _ _ _ _ => rfl⟩
      · obtain ⟨hin, hkept⟩ := view_inbox_same hinbox
        refine ⟨?_, ⟨outcome, rfl, .second hid hfailure htransient hinbox h⟩, rfl⟩
        cases h with
        | mk concluded => exact concluded.ready hs hin hkept
      · subst he
        exact ⟨.rethrown hfailure, rfl⟩

theorem resolvePending_safe (sh : Shared) :
    (units .resolvePending).Safe discipline (contract .resolvePending) [] sh := by
  have hcode : resolveDue.wp discipline Resolves
      (fun sh _ e => SettleFailure [] sh e) sh .start :=
    wp_resolveDue rfl (fun hw hlast => .version hw hlast) fun _ _ _ h => h
  refine ⟨Program.wp_map (Program.wp_mono hcode (fun sh' l' outcome hs _ h => ?_)
    fun sh' l' e h => ⟨h, afterResolve_safe sh' sh' l' (SettleFailure.failure h)⟩),
    fun sh' l e _ _ houtage => afterResolve_safe sh' sh' l (isOutage_repository houtage)⟩
  exact ⟨h.ready hs, ⟨outcome, rfl, .first h⟩, rfl⟩

theorem units_safe (entry : Entry) (sh : Shared) :
    (units entry).Safe discipline (contract entry) [] sh := by
  cases entry with
  | createWallet command => exact createWallet_safe command sh
  | submit command => exact submit_safe command sh
  | consume delivery command => exact consume_safe delivery command sh
  | resolvePending => exact resolvePending_safe sh

/-- Every state that the service reaches is sound. -/
theorem Reachable.sound {w : Service} (h : Reachable w) : w.Sound discipline contract :=
  (World.Sound.empty start_sound).steps (fun entry sh _ => units_safe entry sh) h

end Verified

/-! ## A sample run -/

/-- The runtime, on the texts of the sample run. -/
@[reducible] def samplePlatform : Platform where
  supportedCurrency := fun currency => currency = utf16 "BRL" || currency = utf16 "USD"
  normalizeNfc := fun t => t
  sha256 := fun t => .ofNat 256 (Sha256.digest (utf8 t))
  parseJson := fun _ => none
  parseDate := fun _ => none
  maxNesting := 12000

/-- The driver, for the failures of the sample run: a full disk is not transient. -/
@[reducible] def sampleDriver : Driver where
  isTransientFailure := fun
    | .repository (.connection code) => code ≠ utf16 "53100"
    | _ => false
  messageOf := fun
    | .connection code => code
    | _ => utf16 "error"

section Sample

local instance : Platform := samplePlatform

local instance : Driver := sampleDriver

/-- The identifiers of the sample run. -/
def sampleId (n : Nat) : Text :=
  utf16 "00000000-0000-7000-8000-0000000000" ++ [Text.hexDigit (n / 16), Text.hexDigit (n % 16)]

def sampleWallet : CreateWalletCommand where
  playerId := utf16 "p1"
  initialBalance := ⟨utf16 "100.00", utf16 "BRL"⟩
  correlationId := utf16 "c1"

def sampleMoney : Money := ⟨1000, utf16 "BRL", by decide, by decide⟩

def sampleSubmit (kind : WagerTransactionKind) (external : Text) (reference : Option Text) :
    SubmitWagerCommand where
  providerId := utf16 "pragmatic"
  externalTransactionId := external
  idempotencyKey := external
  playerId := utf16 "p1"
  walletId := sampleId 1
  roundId := utf16 "r1"
  gameId := utf16 "g1"
  kind := kind
  money := ⟨utf16 "10.00", utf16 "BRL"⟩
  referenceExternalTransactionId := reference
  correlationId := utf16 "c1"
  causationId := none

def sampleBet : SubmitWagerCommand := sampleSubmit .bet (utf16 "bet-1") none

def sampleRefund : SubmitWagerCommand :=
  sampleSubmit .refund (utf16 "refund-1") (some (utf16 "bet-1"))

def sampleRollback : SubmitWagerCommand :=
  sampleSubmit .rollback (utf16 "rollback-1") (some (utf16 "unknown"))

/-- The calls of session `i`, one after the other. -/
def calls (i : Nat) (inputs : List Input) : List (Action store Entry) :=
  inputs.map fun input => .exec i input

/-- Session `i` from its first call to its commit, with nobody in between. -/
def serve (i : Nat) (entry : Entry) (inputs : List Input) : List (Action store Entry) :=
  .begin entry :: calls i inputs ++ [.finish i]

/-- A wallet is opened with 100.00, a bet of 10.00 is placed and refunded, and a
rollback waits for a reference that never came. -/
def sampleActions : List (Action store Entry) :=
  serve 0 (.createWallet sampleWallet)
    [.instant 1000, .identity (sampleId 1), .identity (sampleId 2), .identity (sampleId 3), .step,
      .step, .step, .step, .identity (sampleId 4), .identity (sampleId 5), .step] ++
  serve 1 (.submit sampleBet)
    [.instant 2000, .identity (sampleId 6), .step, .identity (sampleId 7), .step,
      .identity (sampleId 8), .step, .step, .step, .identity (sampleId 9), .step] ++
  serve 2 (.submit sampleRefund)
    [.instant 3000, .identity (sampleId 10), .step, .identity (sampleId 11), .step, .step, .step,
      .identity (sampleId 12), .step, .step, .step, .identity (sampleId 13), .step] ++
  serve 3 (.submit sampleRollback)
    [.instant 4000, .identity (sampleId 14), .step, .identity (sampleId 15), .step, .step, .step,
      .step]

theorem sample_runs : (World.run units Service.start sampleActions).isSome = true := by
  decide +kernel

/-- The state that the sample run leads to. -/
@[irreducible] def sampleService : Service :=
  (World.run units Service.start sampleActions).get sample_runs

theorem sample_reachable : Reachable sampleService := by
  unfold sampleService
  exact World.Steps.of_run (Option.some_get sample_runs).symm

/-! ## A busy run -/

/-- A refund comes before its bet: the worker finds no bet yet and puts the
refund off, and then the bet comes. -/
def awaitedActions : List (Action store Entry) :=
  serve 0 (.createWallet sampleWallet)
    [.instant 1000, .identity (sampleId 1), .identity (sampleId 2), .identity (sampleId 3), .step,
      .step, .step, .step, .identity (sampleId 4), .identity (sampleId 5), .step] ++
  serve 1 (.submit sampleRefund)
    [.instant 2000, .identity (sampleId 6), .step, .identity (sampleId 7), .step, .step, .step,
      .step] ++
  serve 2 .resolvePending [.instant 9000, .step, .step, .step, .jitter 0, .step] ++
  serve 3 (.submit sampleBet)
    [.instant 11000, .identity (sampleId 8), .step, .identity (sampleId 9), .step,
      .identity (sampleId 10), .step, .step, .step, .identity (sampleId 11), .step]

theorem awaited_runs : (World.run units Service.start awaitedActions).isSome = true := by
  decide +kernel

/-- The refund waits, and its bet is settled. -/
@[irreducible] def awaitedService : Service :=
  (World.run units Service.start awaitedActions).get awaited_runs

theorem awaited_reachable : Reachable awaitedService := by
  unfold awaitedService
  exact World.Steps.of_run (Option.some_get awaited_runs).symm

/-- The key of the bet, for another round. -/
def sampleConflict : SubmitWagerCommand := { sampleBet with roundId := utf16 "r2" }

/-- A message that brings the bet once more. -/
def sampleDelivery : InboxDelivery where
  consumerName := utf16 "wager-transactions-consumer"
  providerId := utf16 "pragmatic"
  messageId := utf16 "msg-1"
  payloadHash := List.replicate 64 48
  brokerMessageId := none

/-- The worker settles the refund, the bet is submitted again, its key is used
for another one, a rollback waits, the disk is full when the worker turns to the
rollback, so that it gives it up, and a message brings the bet a third time. -/
def busyActions : List (Action store Entry) :=
  serve 4 .resolvePending
    [.instant 30000, .step, .step, .step, .identity (sampleId 12), .step, .step, .step,
      .identity (sampleId 13), .step, .step, .step, .identity (sampleId 14), .step] ++
  serve 5 (.submit sampleBet) [.instant 31000, .identity (sampleId 15), .step, .step] ++
  serve 6 (.submit sampleConflict) [.instant 32000, .identity (sampleId 16), .step, .step] ++
  serve 7 (.submit sampleRollback)
    [.instant 33000, .identity (sampleId 17), .step, .identity (sampleId 18), .step, .step, .step,
      .step] ++
  (.begin .resolvePending :: calls 8 [.instant 45000, .step, .step] ++
    [.fail 8 (.repository (.connection (utf16 "53100")))]) ++
  (calls 8 [.instant 46000, .step, .step, .identity (sampleId 19), .step, .step] ++
    [.finish 8]) ++
  serve 9 (.consume sampleDelivery sampleBet)
    [.instant 50000, .step, .instant 50000, .identity (sampleId 20), .step, .step, .instant 50000,
      .step]

theorem busy_runs : (World.run units Service.start (awaitedActions ++ busyActions)).isSome = true := by
  decide +kernel

/-- The state that the busy run leads to. -/
@[irreducible] def busyService : Service :=
  (World.run units Service.start (awaitedActions ++ busyActions)).get busy_runs

theorem busy_reachable : Reachable busyService := by
  unfold busyService
  exact World.Steps.of_run (Option.some_get busy_runs).symm

/-- What the worker answered, if the transaction was one of the worker's. -/
def Answer.outcome? : Answer → Option PendingReferenceOutcome
  | .resolved outcome => some outcome
  | _ => none

/-- What the commits of the worker came to, with their sessions. -/
def workerCommits (w : Service) : List (Nat × PendingReferenceOutcome) :=
  w.history.filterMap fun x => x.2.result.toOption.bind fun a => a.outcome?.map fun o => (x.1, o)

/-- The failures of transactions, with their sessions. -/
def failures (w : Service) : List (Nat × Failure) :=
  w.history.filterMap fun x =>
    match x.2.result with
    | .ok _ => none
    | .error e => some (x.1, e)

/-- One commit of the worker reschedules, one settles and one gives up. -/
def busyOutcomes : List (Nat × PendingReferenceOutcome) :=
  [(2, .rescheduled (sampleId 6) (sampleId 1) (utf16 "pragmatic") (utf16 "c1") 1),
   (4, .settled (sampleId 6) (sampleId 1) (utf16 "pragmatic") (utf16 "c1") .processed none),
   (8, .settled (sampleId 17) (sampleId 1) (utf16 "pragmatic") (utf16 "c1") .failed
     (some .infrastructureFailure))]

/-- The key of the bet is refused for another one, and the disk is full once. -/
def busyFailures : List (Nat × Failure) :=
  [(6, .application ⟨.idempotencyKeyConflict,
     utf16 "the idempotency key was already used with a different payload", some (sampleId 8)⟩),
   (8, .repository (.connection (utf16 "53100")))]

theorem busy_ends : workerCommits busyService = busyOutcomes ∧
    failures busyService = busyFailures := by
  unfold busyService
  decide +kernel

end Sample

end Wagering
