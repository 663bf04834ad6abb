import Wagering.Guarantees.Replays
import Wagering.Interface.Http

/-!
# What a response tells

A client sees nothing of the service but its responses.  The status of a
response to `POST /wagering/transactions` says whether the request was committed,
whether it moved money and what its transaction has become, over every run.
-/

namespace Wagering

open Interleave

section Statements

variable [Platform] [Driver]

/-- A request for a transaction and its response: it was refused before the use
case, or session `i` of the service answered it. -/
inductive Exchanged (w : Service) (roles : List AppRole) (headers : RequestHeaders)
    (body : Json) : Option Nat → HttpResponse → Prop
  | refused {error : Failure} (refused : postWagerCommand roles headers body = .error error) :
    Exchanged w roles headers body none (caught headers.correlationId (.thrown error))
  | served {i : Nat} {command : SubmitWagerCommand} {result : Except Failure Answer}
    (accepted : postWagerCommand roles headers body = .ok command)
    (session : w.sessions[i]? = some ⟨.submit command, .closed result⟩) :
    Exchanged w roles headers body (some i) (wagerResponse headers result)

/-- Session `i` has committed a transaction. -/
def Commits (w : Service) (i : Nat) : Prop :=
  ∃ sh l a, (i, .committed sh l a) ∈ w.history

/-- Session `i` has committed a change of the business tables. -/
def Changes (w : Service) (i : Nat) : Prop :=
  ∃ sh l a, (i, .committed sh l a) ∈ w.history ∧ ¬ SameBusiness sh.db (l.view sh.db)

/-- Session `i` has committed an entry of the ledger. -/
def MovesMoney (w : Service) (i : Nat) : Prop :=
  ∃ sh l a, (i, .committed sh l a) ∈ w.history ∧ (l.view sh.db).ledger ≠ sh.db.ledger

/-- What a status says of the transaction that the response names. -/
inductive Becomes (t : WagerTransactionRow) : Nat → Prop
  | replayed (processed : t.status = .processed) : Becomes t 200
  | created (processed : t.status = .processed) : Becomes t 201
  | accepted (reversal : t.kind.isReversal = true) : Becomes t 202
  | refused (rejected : t.status = .rejected) : Becomes t 422
  | failed (failed : t.status = .failed) : Becomes t 500

/-- What a response tells about the service, long after it was sent. -/
structure Tells (w : Service) (roles : List AppRole) (headers : RequestHeaders) (body : Json)
    (n : Option Nat) (response : HttpResponse) : Prop where
  committed : (∃ i ∈ n, Commits w i) ↔ ∃ result, response.body = .submitted result
  changed : (∃ i ∈ n, Changes w i) ↔
    ∃ result, response.body = .submitted result ∧ result.idempotentReplay = false
  recorded : ∀ result, response.body = .submitted result →
    ∃ t ∈ w.shared.db.wagers, t.id = result.transactionId ∧ Becomes t response.status ∧
      ((∃ i ∈ n, MovesMoney w i) ↔ response.status = 201 ∧ t.kind ≠ .loss)
  replayed : response.status = 200 → ∃ result, response.body = .submitted result ∧
    result.idempotentReplay = true
  conflict : n.isSome → ∀ code message id correlationId,
    response.body = .error code message (some id) correlationId → response.status = 409 ∧
      ∃ command, postWagerCommand roles headers body = .ok command ∧
        ∃ t ∈ w.shared.db.wagers, t.id = id ∧ t.providerId = Text.stored command.providerId
  retry : response.retryAfter.isSome → ¬ ∃ i ∈ n, Commits w i

end Statements

/-- An error that no case of `describe` took names no row, and is the server's fault. -/
theorem describeUnknown_eq (transient : Bool) :
    400 ≤ (describeUnknown transient).status ∧ (describeUnknown transient).existingId = none := by
  cases transient <;> exact ⟨by decide, rfl⟩

/-- No error of a use case is answered with success. -/
theorem describe_thrown [Driver] (error : Failure) : 400 ≤ (describe (.thrown error)).status := by
  cases error with
  | domain error => exact Nat.le_refl 400
  | application error =>
    change 400 ≤ error.code.status
    cases error.code <;> decide
  | repository error => exact (describeUnknown_eq _).1
  | stackOverflow => exact (describeUnknown_eq _).1

section Proofs

variable [Platform] [Driver] {w : Service} {i : Nat} {command : SubmitWagerCommand}
  {result : SubmitWagerResult} {sh : Shared} {l : Local} {a : Answer}

/-! ## The one transaction of a request -/

/-- A request that was answered has ended one transaction, with what it was answered. -/
theorem Reachable.ended_once (h : Reachable w) {entry : Entry} {r : Except Failure Answer}
    (hone : ∀ past, (contract entry).done past r → past.map Ending.result = [r])
    (hs : w.sessions[i]? = some ⟨entry, .closed r⟩) :
    ∃ ending, ending.result = r ∧ ∀ e, (i, e) ∈ w.history ↔ e = ending := by
  have hdone : (w.past i).map Ending.result = [r] := hone _ (h.sound.statuses hs)
  obtain ⟨ending, hpast, hresult⟩ := List.map_eq_singleton_iff.mp hdone
  refine ⟨ending, hresult, fun e => ?_⟩
  rw [← World.mem_pastOf, show World.pastOf i w.history = [ending] from hpast, List.mem_singleton]

theorem Reachable.answered_once (h : Reachable w) {r : Except Failure Answer}
    (hs : w.sessions[i]? = some ⟨.submit command, .closed r⟩) :
    ∃ ending, ending.result = r ∧ ∀ e, (i, e) ∈ w.history ↔ e = ending :=
  h.ended_once (fun past (hdone : (contract (.submit command)).done past r) => hdone) hs

/-- The commit behind an answer. -/
theorem Reachable.answer_commit (h : Reachable w)
    (hs : w.sessions[i]? = some ⟨.submit command, .closed (.ok a)⟩) :
    ∃ sh l result, a = .submitted result ∧
      (∀ e, (i, e) ∈ w.history ↔ e = .committed sh l (.submitted result)) ∧ Sound sh ∧ Own sh l ∧
      Submission command sh l result ∧ Evolves (committed sh l) w.shared := by
  obtain ⟨ending, hresult, hhistory⟩ := h.answered_once hs
  cases ending with
  | failed sh l e => cases hresult
  | committed sh l a' =>
    cases hresult
    obtain ⟨entry, past, hcommitted⟩ := h.commit_recorded ((hhistory _).mpr rfl)
    obtain rfl : entry = .submit command := session_entry hcommitted.session ⟨_, hs, rfl⟩
    obtain ⟨result, rfl, -, hsub⟩ := hcommitted.commits
    exact ⟨sh, l, result, rfl, hhistory, hcommitted.sound, hcommitted.own, hsub, hcommitted.since⟩

/-- A request that was answered with an error has committed nothing. -/
theorem Reachable.error_commits (h : Reachable w) {e : Failure}
    (hs : w.sessions[i]? = some ⟨.submit command, .closed (.error e)⟩) : ¬ Commits w i := by
  obtain ⟨ending, hresult, hhistory⟩ := h.answered_once hs
  rintro ⟨sh, l, a, hmem⟩
  rw [← (hhistory _).mp hmem] at hresult
  cases hresult

/-! ## What a submission has changed -/

omit [Driver] in
/-- A submission that decides a transaction adds a row. -/
theorem Submission.changes_iff (h : Submission command sh l result) (hs : Sound sh)
    (ho : Own sh l) :
    ¬ SameBusiness sh.db (l.view sh.db) ↔ result.idempotentReplay = false := by
  cases h with
  | replayed lost => simpa [replayOf, resultOf] using sameBusiness_idle lost.idle
  | @decided d _ concluded key external hash kept inserted t stored status answer =>
    have hfresh : result.idempotentReplay = false := by rw [answer]; rfl
    refine iff_of_true (fun hsame => ?_) hfresh
    have hmem : d.tx ∈ (l.view sh.db).books.wagers :=
      concluded.books hs ▸ Books.mem_wagers_record.mpr (.inl rfl)
    have hold : d.tx ∈ sh.db.wagers := hsame.wagers ▸ hmem
    -- the reservation took the key of the row, so no committed row has it
    exact ho.free _ inserted (wagerIdempotency_mem_iff.mpr ⟨d.tx, hold, rfl, rfl⟩)

omit [Platform] [Driver] in
/-- The decision of a transaction moves money when it is processed and no LOSS. -/
theorem Books.Outcome.movement_iff {b : Books} {t : WagerTransactionRow}
    {movement : Option (WalletLedgerEntryRow × WalletRow)} {events : List EventData}
    (h : b.Outcome t movement events) :
    movement.isSome ↔ t.status = .processed ∧ t.kind ≠ .loss := by
  cases h with
  | moved status moves =>
    refine iff_of_true rfl ⟨status, fun hkind => ?_⟩
    rcases moves.directed with hbase | ⟨hrollback, -⟩
    · rw [hkind] at hbase
      cases hbase
    · rw [hkind] at hrollback
      cases hrollback
  | unmoved status kind => exact iff_of_false nofun fun h => h.2 kind
  | refused status =>
    refine iff_of_false nofun fun h => ?_
    rw [h.1] at status
    rcases status with status | status <;> cases status
  | awaits status | retried status =>
    refine iff_of_false nofun fun h => ?_
    rw [h.1] at status
    cases status

omit [Driver] in
/-- A decision adds the entry of its movement to the ledger. -/
theorem Concluded.ledger_iff {d : Decision} (h : Concluded d sh l) (hs : Sound sh) :
    (l.view sh.db).ledger ≠ sh.db.ledger ↔ d.tx.status = .processed ∧ d.tx.kind ≠ .loss := by
  have hledger : (l.view sh.db).ledger = sh.db.ledger ++ (d.movement.map Prod.fst).toList :=
    congrArg Books.ledger (h.books hs)
  rw [hledger, ← h.decides.outcome.movement_iff]
  cases d.movement <;> simp

/-! ## The transaction of an answer -/

omit [Platform] [Driver] in
/-- What the status of an answer says of the row that it was read from. -/
theorem becomes_status {t : WagerTransactionRow} (hstatus : t.status = result.status)
    (hpending : result.status ≠ .pending)
    (hwaits : result.status = .pendingReference → t.kind.isReversal = true) :
    Becomes t (httpStatusFor result) := by
  unfold httpStatusFor
  cases hresult : result.status with
  | pending => exact absurd hresult hpending
  | pendingReference => exact .accepted (hwaits hresult)
  | processed =>
    cases result.idempotentReplay with
    | true => exact .replayed (hstatus.trans hresult)
    | false => exact .created (hstatus.trans hresult)
  | rejected => exact .refused (hstatus.trans hresult)
  | failed => exact .failed (hstatus.trans hresult)

omit [Platform] [Driver] in
/-- What a status says of a row it says of the row that this one becomes. -/
theorem Becomes.evolves {status : Nat} {t : WagerTransactionRow} {sh sh' : Shared}
    (h : Becomes t status) (hevolves : Evolves sh sh') (ht : t ∈ sh.db.wagers) :
    ∃ t' ∈ sh'.db.wagers, t'.id = t.id ∧ t'.kind = t.kind ∧ Becomes t' status := by
  have hkeeps : t.status.isTerminal = true →
      ∃ t' ∈ sh'.db.wagers, t'.id = t.id ∧ t'.kind = t.kind ∧ Becomes t' status :=
    fun hterminal => ⟨t, hevolves.terminal t ht hterminal, rfl, rfl, h⟩
  cases h with
  | replayed processed | created processed => exact hkeeps (by rw [processed]; rfl)
  | refused rejected => exact hkeeps (by rw [rejected]; rfl)
  | failed failed => exact hkeeps (by rw [failed]; rfl)
  | accepted reversal =>
    obtain ⟨t', ht', same, -⟩ := hevolves.wagers t ht
    exact ⟨t', ht', same.id.symm, same.kind.symm, .accepted (same.kind ▸ reversal)⟩

omit [Driver] in
/-- A row that is committed is what the status of its answer says. -/
theorem Sound.becomes (hs : Sound sh) {t : WagerTransaction}
    (ht : toWagerTransactionRow t ∈ sh.db.wagers) (replay : Bool) :
    Becomes (toWagerTransactionRow t) (httpStatusFor (resultOf t replay)) := by
  have hright := hs.books.wagers _ ht
  refine becomes_status rfl (fun hpending => ?_) hright.waits
  have hpending : (toWagerTransactionRow t).status = .pending := hpending
  have hcases := hs.status_cases ht
  rw [hpending] at hcases
  rcases hcases with h | h | h | h <;> cases h

/-- What an answer tells of its transaction. -/
theorem Reachable.answer_tells (h : Reachable w)
    (hs : w.sessions[i]? = some ⟨.submit command, .closed (.ok a)⟩) :
    ∃ sh l result, a = .submitted result ∧
      (∀ e, (i, e) ∈ w.history ↔ e = .committed sh l (.submitted result)) ∧
      (¬ SameBusiness sh.db (l.view sh.db) ↔ result.idempotentReplay = false) ∧
      ∃ t ∈ w.shared.db.wagers, t.id = result.transactionId ∧ Becomes t (httpStatusFor result) ∧
        ((l.view sh.db).ledger ≠ sh.db.ledger ↔ httpStatusFor result = 201 ∧ t.kind ≠ .loss) := by
  obtain ⟨sh, l, result, rfl, hhistory, hsound, hown, hsub, hsince⟩ := h.answer_commit hs
  refine ⟨sh, l, result, rfl, hhistory, hsub.changes_iff hsound hown, ?_⟩
  have hafter : Sound (committed sh l) := by
    obtain ⟨entry, past, hcommitted⟩ := h.commit_recorded ((hhistory _).mpr rfl)
    exact hcommitted.ready.sound hsound hown
  cases hsub with
  | @decided d _ concluded key external hash kept inserted t stored status answer =>
    have hmem : toWagerTransactionRow t ∈ (committed sh l).db.wagers :=
      stored ▸ (concluded.books hsound ▸ Books.mem_wagers_record.mpr (.inl rfl) :
        d.tx ∈ (l.view sh.db).books.wagers)
    have hbecomes := hafter.becomes hmem false
    obtain ⟨t', ht', hid, hkind, hbecomes'⟩ := hbecomes.evolves hsince hmem
    subst answer
    refine ⟨t', ht', hid, hbecomes', ?_⟩
    rw [concluded.ledger_iff hsound, hkind, stored]
    refine and_congr_left fun _ => ?_
    change t.status = .processed ↔ _
    unfold httpStatusFor resultOf
    cases t.status <;> simp
  | @replayed t db row lost mem same db' looked read key hash =>
    have hseen : Seen Service.start w l :=
      (Reachable.seen (Relation.ReflTransGen.refl : Reachable Service.start) h (Nat.zero_le i)).2 _
        ((hhistory _).mpr rfl)
    obtain ⟨mid, hmid, hlater, rfl⟩ := hseen db' (.inr looked)
    have hbecomes := (Reachable.sound hmid).inv.becomes read true
    obtain ⟨t', ht', hid, hkind, hbecomes'⟩ := hbecomes.evolves (Reachable.evolves hmid hlater) read
    refine ⟨t', ht', hid, hbecomes', iff_of_false (fun hne => ?_) fun hcreated => ?_⟩
    · exact hne (sameBusiness_idle lost.idle).ledger
    · obtain ⟨hcreated, -⟩ := hcreated
      unfold httpStatusFor replayOf resultOf at hcreated
      cases hstatus : t.status <;> simp [hstatus] at hcreated

/-! ## Over every run -/

/-- The row that the error of a request names is one of its provider. -/
theorem Reachable.error_names (h : Reachable w) {e : ApplicationError} {id : Text}
    (hs : w.sessions[i]? = some ⟨.submit command, .closed (.error (.application e))⟩)
    (hid : e.existingId = some id) :
    e.code.status = 409 ∧
      ∃ t ∈ w.shared.db.wagers, t.id = id ∧ t.providerId = Text.stored command.providerId := by
  obtain ⟨ending, hresult, hhistory⟩ := h.answered_once hs
  cases ending with
  | committed sh l a => cases hresult
  | failed sh l e' =>
    cases hresult
    have hmem := (hhistory _).mpr rfl
    obtain ⟨entry, past, hfailed⟩ := h.failure_recorded hmem
    obtain rfl : entry = .submit command := session_entry hfailed.session ⟨_, hs, rfl⟩
    have hsince : Evolves sh w.shared := h.sound.settled hmem
    have hfails : SubmitFailure command sh l (.application e) :=
      hfailed.fails.resolve_left fun houtage => by cases houtage
    cases hfails with
    | conflict lost mem key =>
      cases hid
      obtain ⟨t, ht, same, -⟩ := hsince.wagers _ mem
      exact ⟨rfl, t, ht, same.id.symm, same.providerId ▸ key.providerId⟩
    | reused lost unused mem external =>
      cases hid
      obtain ⟨t, ht, same, -⟩ := hsince.wagers _ mem
      exact ⟨rfl, t, ht, same.id.symm, same.providerId ▸ external.providerId⟩
    | notPositive => cases hid

/-- A response that is an error is of a request that has committed nothing. -/
theorem tells_caught {roles : List AppRole} {headers : RequestHeaders} {body : Json}
    {error : Failure} {n : Option Nat} (hnone : ¬ ∃ m ∈ n, Commits w m)
    (hnames : n.isSome → ∀ e id, error = .application e → e.existingId = some id →
      e.code.status = 409 ∧ ∃ command, postWagerCommand roles headers body = .ok command ∧
        ∃ t ∈ w.shared.db.wagers, t.id = id ∧ t.providerId = Text.stored command.providerId) :
    Tells w roles headers body n (caught headers.correlationId (.thrown error)) := by
  have hbody : ∀ result,
      (caught headers.correlationId (.thrown error)).body ≠ .submitted result := nofun
  refine
    { committed := iff_of_false hnone fun ⟨result, h⟩ => hbody result h
      changed := ?changed
      recorded := fun result h => absurd h (hbody result)
      replayed := fun hstatus => ?replayed
      conflict := fun hserved code message id correlationId h => ?conflict
      retry := fun _ => hnone }
  case changed =>
    refine iff_of_false ?_ fun ⟨result, h, _⟩ => hbody result h
    exact fun ⟨m, hm, sh, l, a, hmem, _⟩ => hnone ⟨m, hm, sh, l, a, hmem⟩
  case replayed =>
    have hle := describe_thrown error
    rw [show (describe (.thrown error)).status = 200 from hstatus] at hle
    exact absurd hle (by decide)
  case conflict =>
    have hid : (describe (.thrown error)).existingId = some id := (ResponseBody.error.inj h).2.2.1
    cases error with
    | domain e => cases hid
    | application e => exact hnames hserved e id rfl hid
    | repository e =>
      rw [show describe (.thrown (.repository e)) = describeUnknown _ from rfl,
        (describeUnknown_eq _).2] at hid
      cases hid
    | stackOverflow =>
      rw [show describe (.thrown .stackOverflow) = describeUnknown _ from rfl,
        (describeUnknown_eq _).2] at hid
      cases hid

/-- Over every run of the service each response tells the truth. -/
theorem Reachable.responses_tell (h : Reachable w) {roles : List AppRole} {headers : RequestHeaders}
    {body : Json} {n : Option Nat} {response : HttpResponse}
    (hexchanged : Exchanged w roles headers body n response) :
    Tells w roles headers body n response := by
  cases hexchanged with
  | refused => exact tells_caught (fun ⟨m, hm, _⟩ => by cases hm) fun hserved => by cases hserved
  | @served i command result accepted session =>
    cases result with
    | error e =>
      refine tells_caught (fun ⟨m, hm, hcommits⟩ => ?_) fun _ e' id heq hid => ?_
      · cases hm
        exact h.error_commits session hcommits
      · cases heq
        obtain ⟨hstatus, hrow⟩ := h.error_names session hid
        exact ⟨hstatus, command, accepted, hrow⟩
    | ok a =>
      obtain ⟨sh, l, result, rfl, hhistory, hchanges, t, ht, hid, hbecomes, hmoves⟩ :=
        h.answer_tells session
      have hmem : (i, Ending.committed sh l (.submitted result)) ∈ w.history := (hhistory _).mpr rfl
      refine
        { committed := iff_of_true ⟨i, rfl, sh, l, _, hmem⟩ ⟨result, rfl⟩
          changed := ?changed
          recorded := fun result' hbody => ?recorded
          replayed := fun hstatus => ⟨result, rfl, ?replayed⟩
          conflict := fun _ code message id correlationId hbody => by cases hbody
          retry := fun hretry => by cases hretry }
      case changed =>
        constructor
        · rintro ⟨m, hm, sh', l', a', hmem', hnot⟩
          cases hm
          cases (hhistory _).mp hmem'
          exact ⟨result, rfl, hchanges.mp hnot⟩
        · rintro ⟨result', hbody, hfresh⟩
          cases hbody
          exact ⟨i, rfl, sh, l, _, hmem, hchanges.mpr hfresh⟩
      case recorded =>
        cases hbody
        refine ⟨t, ht, hid, hbecomes, ?_⟩
        rw [show (wagerResponse headers (.ok (.submitted result))).status = httpStatusFor result
          from rfl, ← hmoves]
        constructor
        · rintro ⟨m, hm, sh', l', a', hmem', hnot⟩
          cases hm
          cases (hhistory _).mp hmem'
          exact hnot
        · exact fun hnot => ⟨i, rfl, sh, l, _, hmem, hnot⟩
      case replayed =>
        have hstatus : httpStatusFor result = 200 := hstatus
        unfold httpStatusFor at hstatus
        cases hkind : result.status <;> simp [hkind] at hstatus
        exact hstatus

end Proofs

/-! ## A sample exchange -/

section Sample

variable {command : SubmitWagerCommand} {result : SubmitWagerResult}

local instance : Platform := samplePlatform

local instance : Driver := sampleDriver

/-- A request for a bet on a wallet that does not exist. -/
def sampleRequest : Json :=
  .object
    [(utf16 "kind", .string (utf16 "BET")), (utf16 "providerId", .string (utf16 "pragmatic")),
     (utf16 "externalTransactionId", .string (utf16 "bet-1")),
     (utf16 "playerId", .string (utf16 "p1")), (utf16 "walletId", .string (sampleId 9)),
     (utf16 "roundId", .string (utf16 "r1")), (utf16 "gameId", .string (utf16 "g1")),
     (utf16 "money", .object [(utf16 "amount", .string (utf16 "10.00")),
       (utf16 "currency", .string (utf16 "BRL"))])]

def sampleHeaders : RequestHeaders where
  rawHeaders := [(utf16 "Idempotency-Key", utf16 "k1")]
  freshCorrelationId := sampleId 20
  requestId := sampleId 21

/-- What the use case is handed. -/
def sampleRequested : SubmitWagerCommand where
  providerId := utf16 "pragmatic"
  externalTransactionId := utf16 "bet-1"
  idempotencyKey := utf16 "k1"
  playerId := utf16 "p1"
  walletId := sampleId 9
  roundId := utf16 "r1"
  gameId := utf16 "g1"
  kind := .bet
  money := ⟨utf16 "10.00", utf16 "BRL"⟩
  referenceExternalTransactionId := none
  correlationId := sampleId 20
  causationId := some (sampleId 21)

theorem sampleRequested_accepted :
    postWagerCommand [.api] sampleHeaders sampleRequest = .ok sampleRequested := by
  rfl

/-- The request, from its first call to its commit. -/
def sampleServed : List (Action store Entry) :=
  serve 0 (.submit sampleRequested)
    [.instant 1000, .identity (sampleId 1), .step, .identity (sampleId 2), .step, .step, .step]

/-- What it is answered. -/
def sampleRejection : SubmitWagerResult where
  transactionId := sampleId 1
  status := .rejected
  balance := none
  failureCode := some .walletNotFound
  idempotentReplay := false

deriving instance DecidableEq for SubmitWagerCommand

/-- The submission that a session has answered, with its result. -/
def answeredWith : Session store Entry Answer → Option (SubmitWagerCommand × SubmitWagerResult)
  | ⟨.submit command, .closed (.ok (.submitted result))⟩ => some (command, result)
  | _ => none

theorem answeredWith_eq {s : Session store Entry Answer}
    (h : answeredWith s = some (command, result)) :
    s = ⟨.submit command, .closed (.ok (.submitted result))⟩ := by
  unfold answeredWith at h
  split at h
  · cases h
    rfl
  · cases h

theorem sampleServed_answers : ((World.run units Service.start sampleServed).bind fun w =>
    w.sessions[0]?.bind answeredWith) = some (sampleRequested, sampleRejection) := by
  decide +kernel

/-- The response is 422, and tells the truth in the state that it was sent in. -/
theorem sampleServed_tells : ∃ w, Reachable w ∧
    Tells w [.api] sampleHeaders sampleRequest (some 0)
      (answered (sampleId 20) 422 (.submitted sampleRejection)) := by
  obtain ⟨w, hrun, hanswers⟩ := Option.bind_eq_some_iff.mp sampleServed_answers
  obtain ⟨s, hs, hanswered⟩ := Option.bind_eq_some_iff.mp hanswers
  refine ⟨w, .of_run hrun, ?_⟩
  exact Reachable.responses_tell (.of_run hrun)
    (.served sampleRequested_accepted (answeredWith_eq hanswered ▸ hs))

end Sample

end Wagering
