import Wagering.Correctness.Service

/-!
# The history of the service

Every commit and every failure that the history records kept its contract when
it happened (`Reachable.commit_recorded`, `Reachable.failure_recorded`), every row of the books
goes back to one recorded commit, and from one reachable state to a later one
the committed tables only evolve (`Reachable.evolves`).
-/

namespace Wagering

open Interleave

variable {sh : Shared} {l : Local}

/-- The committed tables may have become these while nobody in particular looked. -/
abbrev Evolves (sh sh' : Shared) : Prop := Rely .start sh sh'

variable [Platform] [Driver] {w w' : Service} {i : Nat} {a : Answer} {e : Failure}

/-! ## What the history records -/

/-- The commit was due to the request of session `i`, and the tables have only evolved since. -/
structure Committed (w : Service) (i : Nat) (sh : Shared) (l : Local) (a : Answer)
    (entry : Entry) (past : List (Ending store Answer)) : Prop where
  session : ∃ s, w.sessions[i]? = some s ∧ s.entry = entry
  sound : Sound sh
  own : Own sh l
  ready : Ready sh l
  commits : (contract entry).commits past sh l a
  since : Evolves (committed sh l) w.shared
  earlier : ∀ ending ∈ past, (i, ending) ∈ w.history

theorem Reachable.commit_recorded (h : Reachable w) (hmem : (i, .committed sh l a) ∈ w.history) :
    ∃ entry past, Committed w i sh l a entry past := by
  obtain ⟨earlier, later, hsplit⟩ := List.append_of_mem hmem
  obtain ⟨s, hs, hsound, hown, hready, hcommits⟩ := h.sound.recorded hsplit
  refine ⟨s.entry, _, ⟨s, hs, rfl⟩, hsound, hown, hready, hcommits, h.sound.settled hmem,
    fun ending he => ?_⟩
  rw [hsplit]
  exact List.mem_append_left _ (World.mem_pastOf.mp he)

/-- The failure was due to the request of session `i`. -/
structure Failed (w : Service) (i : Nat) (sh : Shared) (l : Local) (e : Failure)
    (entry : Entry) (past : List (Ending store Answer)) : Prop where
  session : ∃ s, w.sessions[i]? = some s ∧ s.entry = entry
  sound : Sound sh
  fails : e.isOutage = true ∨ (contract entry).fails past sh l e
  earlier : ∀ ending ∈ past, (i, ending) ∈ w.history

theorem Reachable.failure_recorded (h : Reachable w) (hmem : (i, .failed sh l e) ∈ w.history) :
    ∃ entry past, Failed w i sh l e entry past := by
  obtain ⟨earlier, later, hsplit⟩ := List.append_of_mem hmem
  obtain ⟨s, hs, hsound, hfails⟩ := h.sound.recorded hsplit
  refine ⟨s.entry, _, ⟨s, hs, rfl⟩, hsound, hfails, fun ending he => ?_⟩
  rw [hsplit]
  exact List.mem_append_left _ (World.mem_pastOf.mp he)

omit [Driver] in
/-- One session answers one request. -/
theorem session_entry {entry entry' : Entry}
    (h : ∃ s, w.sessions[i]? = some s ∧ s.entry = entry)
    (h' : ∃ s, w.sessions[i]? = some s ∧ s.entry = entry') : entry = entry' := by
  obtain ⟨s, hs, rfl⟩ := h
  obtain ⟨s', hs', rfl⟩ := h'
  rw [hs] at hs'
  cases hs'
  rfl

/-! ## Submissions -/

/-- The command that a request submits, by either channel. -/
def Entry.command? : Entry → Option SubmitWagerCommand
  | .submit command => some command
  | .consume _ command => some command
  | _ => none

/-- The result of the submission in an answer. -/
def Answer.result? : Answer → Option SubmitWagerResult
  | .submitted result => some result
  | .consumed (.processed result) => some result
  | _ => none

/-- What a commit that answers a submission has done. -/
theorem contract_submission {entry : Entry} {past : List (Ending store Answer)}
    {command : SubmitWagerCommand} {result : SubmitWagerResult}
    (h : (contract entry).commits past sh l a) (hcommand : entry.command? = some command)
    (hresult : a.result? = some result) : Submission command sh l result := by
  cases entry with
  | createWallet command => cases hcommand
  | resolvePending => cases hcommand
  | submit command' =>
    cases hcommand
    obtain ⟨result', rfl, -, submission⟩ := h
    cases hresult
    exact submission
  | consume delivery command' =>
    cases hcommand
    obtain ⟨outcome, rfl, consumption⟩ := h
    cases consumption with
    | processed inbox submission =>
      cases hresult
      exact submission
    | duplicate log => cases hresult
    | permanent log => cases hresult

/-- The row that a commit inserted comes from a wallet creation or from a submission. -/
theorem contract_inserted {entry : Entry} {past : List (Ending store Answer)} {id : Text}
    (h : (contract entry).commits past sh l a) (hs : Sound sh)
    (hbefore : ¬ ∃ t ∈ sh.db.wagers, t.id = id) (hafter : ∃ t ∈ (l.view sh.db).wagers, t.id = id) :
    (∃ t ∈ (l.view sh.db).wagers, t.id = id ∧ t.kind = .opening) ∨
      ∃ command result, entry.command? = some command ∧ a.result? = some result ∧
        result.idempotentReplay = false ∧ result.transactionId = id ∧
        Submission command sh l result := by
  obtain ⟨t, ht, htid⟩ := hafter
  have hidle : businessOf l.log = [] → False := fun hlog =>
    hbefore ⟨t, view_wagers_idle hlog ▸ ht, htid⟩
  have hsubmission : ∀ {command : SubmitWagerCommand} {result : SubmitWagerResult},
      Submission command sh l result →
        result.idempotentReplay = false ∧ result.transactionId = id := by
    intro command result submission
    cases submission with
    | replayed lost => exact (hidle lost.idle).elim
    | @decided d _ concluded key external hash kept inserted t' stored status answer =>
      refine ⟨by rw [answer]; rfl, ?_⟩
      rw [answer, show (resultOf t' false).transactionId = d.tx.id by rw [stored]; rfl]
      have hbooks : t ∈ (sh.db.books.record d).wagers := concluded.books hs ▸ ht
      rcases Books.mem_wagers_record.mp hbooks with rfl | ⟨hold, -⟩
      · exact htid
      · exact (hbefore ⟨t, hold, htid⟩).elim
  have hold : ∀ {d : Decision}, Concluded d sh l → Stands d.tx.id sh → False := by
    intro d concluded stands
    obtain ⟨t', ht', same⟩ := concluded.wagers_old hs stands t ht
    exact hbefore ⟨t', ht', same.id.trans htid⟩
  cases entry with
  | createWallet command =>
    obtain ⟨view, -, created⟩ := h
    rcases created.wagers t ht with hold | hkind
    · exact (hbefore ⟨t, hold, htid⟩).elim
    · exact .inl ⟨t, ht, htid, hkind⟩
  | submit command =>
    obtain ⟨result, rfl, -, submission⟩ := h
    obtain ⟨hfresh, hid⟩ := hsubmission submission
    exact .inr ⟨command, result, rfl, rfl, hfresh, hid, submission⟩
  | consume delivery command =>
    obtain ⟨outcome, rfl, consumption⟩ := h
    cases consumption with
    | processed inbox submission =>
      obtain ⟨hfresh, hid⟩ := hsubmission submission
      exact .inr ⟨command, _, rfl, rfl, hfresh, hid, submission⟩
    | duplicate log => exact (hidle (by rw [log]; rfl)).elim
    | permanent log => exact (hidle (by rw [log]; rfl)).elim
  | resolvePending =>
    obtain ⟨outcome, rfl, settles⟩ := h
    cases settles with
    | first h =>
      cases h.2 with
      | idle log => exact (hidle (by rw [log]; rfl)).elim
      | rescheduled concluded stands => exact (hold concluded stands).elim
      | settled concluded stands => exact (hold concluded stands).elim
    | second attempted failure lasting inbox h =>
      cases h with
      | mk concluded stands => exact (hold concluded stands).elim

/-! ## What a commit has done to the books -/

/-- What a transaction that commits has done to the books. -/
inductive Deed (sh : Shared) (l : Local) : Prop
  | opened {command : CreateWalletCommand} {view : WalletView}
    (created : WalletCreated command sh l view)
  | decided {d : Decision} (concluded : Concluded d sh l)
  | idle (log : businessOf l.log = [])

omit [Driver] in
theorem Submission.deed {command : SubmitWagerCommand} {result : SubmitWagerResult}
    (h : Submission command sh l result) : Deed sh l := by
  cases h with
  | decided concluded => exact .decided concluded
  | replayed lost => exact .idle lost.idle

omit [Driver] in
theorem Consumption.deed {delivery : InboxDelivery} {command : SubmitWagerCommand}
    {outcome : ConsumeOutcome} (h : Consumption delivery command sh l outcome) : Deed sh l := by
  cases h with
  | processed inbox submission => exact submission.deed
  | duplicate log => exact .idle (by rw [log]; rfl)
  | permanent log => exact .idle (by rw [log]; rfl)

theorem Settles.deed {past : List (Ending store Answer)} {outcome : PendingReferenceOutcome}
    (h : Settles past sh l outcome) : Deed sh l := by
  cases h with
  | first h =>
    cases h.2 with
    | idle log => exact .idle (by rw [log]; rfl)
    | rescheduled concluded => exact .decided concluded
    | settled concluded => exact .decided concluded
  | second attempted failure lasting inbox h =>
    cases h with
    | mk concluded => exact .decided concluded

theorem Committed.deed {entry : Entry} {past : List (Ending store Answer)}
    (h : Committed w i sh l a entry past) : Deed sh l := by
  have hcommits := h.commits
  cases entry with
  | createWallet command =>
    obtain ⟨view, -, created⟩ := hcommits
    exact .opened created
  | submit command =>
    obtain ⟨result, -, -, submission⟩ := hcommits
    exact submission.deed
  | consume delivery command =>
    obtain ⟨outcome, -, consumption⟩ := hcommits
    exact consumption.deed
  | resolvePending =>
    obtain ⟨outcome, -, settles⟩ := hcommits
    exact settles.deed

/-! ## Evolution -/

/-- From one reachable state to a later one the committed tables only evolve. -/
theorem Reachable.evolves (h : Reachable w) (hsteps : World.Steps units w w') :
    Evolves w.shared w'.shared := by
  induction hsteps with
  | refl => exact .refl _ _
  | @tail mid w' hmid last ih =>
    obtain ⟨action, hstep⟩ := last
    have hreach : Reachable mid := Relation.ReflTransGen.trans h hmid
    refine ih.trans ?_
    obtain ⟨-, hshared⟩ := World.step_cases hstep
    rcases hshared with
      ⟨-, heq | ⟨others, l, op, input, r, hop⟩ | ⟨a, -, ha⟩⟩ | ⟨i, l, a, heq, hhistory⟩
    · exact .of_same (congrArg Shared.db heq) fun id hid => heq ▸ hid
    · obtain ⟨hdb, -, hissued, -⟩ := exec_effect hop
      exact .of_same hdb hissued
    · exact ambient_rely ha
    · have hnext : Reachable w' := hreach.tail ⟨action, hstep⟩
      have hmem : (i, Ending.committed mid.shared l a) ∈ w'.history := by
        rw [hhistory]
        exact List.mem_append_right _ (List.mem_singleton.mpr rfl)
      obtain ⟨entry, past, hcommitted⟩ := hnext.commit_recorded hmem
      rw [heq]
      exact hcommitted.ready.rely hcommitted.sound (.start _)

/-! ## Where rows come from -/

/-- A transaction goes back to the commit that inserted it. -/
theorem Reachable.wager_origin (h : Reachable w) {id : Text}
    (hid : ∃ t ∈ w.shared.db.wagers, t.id = id) :
    ∃ i sh l a, (i, .committed sh l a) ∈ w.history ∧ (¬ ∃ t ∈ sh.db.wagers, t.id = id) ∧
      ∃ t ∈ (l.view sh.db).wagers, t.id = id := by
  have horigin := @World.Steps.origin _ _ store Entry Answer units
    (fun sh : Shared => ∃ t ∈ sh.db.wagers, t.id = id)
    (fun hop hp => (exec_effect hop).1 ▸ hp) (fun ha hp => ?_) _ _ h hid
  · rcases horigin with ⟨t, ht, -⟩ | horigin
    · cases ht
    · exact horigin
  · obtain ⟨outbox, publishing, rfl, -, -⟩ := ambient_same ha
    exact hp

/-- A wallet goes back to the commit that inserted it. -/
theorem Reachable.wallet_origin (h : Reachable w) {id : Text}
    (hid : ∃ v ∈ w.shared.db.wallets, v.id = id) :
    ∃ i sh l a, (i, .committed sh l a) ∈ w.history ∧ (¬ ∃ v ∈ sh.db.wallets, v.id = id) ∧
      ∃ v ∈ (l.view sh.db).wallets, v.id = id := by
  have horigin := @World.Steps.origin _ _ store Entry Answer units
    (fun sh : Shared => ∃ v ∈ sh.db.wallets, v.id = id)
    (fun hop hp => (exec_effect hop).1 ▸ hp) (fun ha hp => ?_) _ _ h hid
  · rcases horigin with ⟨v, hv, -⟩ | horigin
    · cases hv
    · exact horigin
  · obtain ⟨outbox, publishing, rfl, -, -⟩ := ambient_same ha
    exact hp

end Wagering
