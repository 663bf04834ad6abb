import Wagering.Correctness.History

/-!
# Identities

Whatever submissions race for an identity, at most one row takes it, every
answer is about that row, exactly one of the answers is the first, and a
submission that loses leaves nothing behind.
-/

namespace Wagering

open Interleave

variable [Platform] [Driver] {w : Service} {n : Nat} {command : SubmitWagerCommand}
  {result : SubmitWagerResult}

/-- The same wallets, transactions, ledger and outbox. -/
structure SameBusiness (db db' : Database) : Prop where
  wallets : db'.wallets = db.wallets
  wagers : db'.wagers = db.wagers
  ledger : db'.ledger = db.ledger
  outbox : db'.outbox = db.outbox

/-- Entry `n` of the history is a commit that answered a submission of the command. -/
def Answers (w : Service) (n : Nat) (command : SubmitWagerCommand) (result : SubmitWagerResult) :
    Prop :=
  ∃ i sh l a s, w.history[n]? = some (i, .committed sh l a) ∧ w.sessions[i]? = some s ∧
    s.entry.command? = some command ∧ a.result? = some result

/-- An answer that is no replay. -/
def AnswersFirst (w : Service) (row : WagerTransactionRow) (n : Nat) : Prop :=
  ∃ command result, Answers w n command result ∧ command.NamesKey row ∧ command.Matches row ∧
    result.idempotentReplay = false

omit [Platform] [Driver] in
/-- A transaction without statements of its own leaves everything but the inbox. -/
theorem sameBusiness_idle {sh : Shared} {l : Local} (hlog : businessOf l.log = []) :
    SameBusiness sh.db (l.view sh.db) := by
  obtain ⟨hwallets, hwagers, hledger, houtbox⟩ := after_business sh.db l.log
  rw [hlog] at hwallets hwagers hledger houtbox
  exact ⟨hwallets, hwagers, hledger, houtbox⟩

/-! ## Answers -/

/-- What stands behind an answer. -/
theorem Reachable.answered (h : Reachable w) (hanswers : Answers w n command result) :
    ∃ i sh l a, w.history[n]? = some (i, .committed sh l a) ∧ Sound sh ∧ Own sh l ∧
      Submission command sh l result ∧ Evolves (committed sh l) w.shared := by
  obtain ⟨i, sh, l, a, s, hn, hs, hcommand, hresult⟩ := hanswers
  obtain ⟨entry, past, hcommitted⟩ := h.commit_recorded (List.mem_of_getElem? hn)
  have hentry : entry = s.entry := session_entry hcommitted.session ⟨s, hs, rfl⟩
  subst hentry
  exact ⟨i, sh, l, a, hn, hcommitted.sound, hcommitted.own,
    contract_submission hcommitted.commits hcommand hresult, hcommitted.since⟩

omit [Driver] in
/-- The row that an answer is about, in a later state. -/
theorem Submission.answered {sh sh' : Shared} {l : Local} (h : Submission command sh l result)
    (hs : Sound sh) (hevolves : Evolves (committed sh l) sh') :
    ∃ t ∈ sh'.db.wagers, command.NamesKey t ∧ command.Matches t ∧ t.id = result.transactionId := by
  cases h with
  | @decided d _ concluded key external hash kept inserted t' stored status answer =>
    have hmem : d.tx ∈ (committed sh l).db.wagers := by
      have : d.tx ∈ (sh.db.books.record d).wagers := Books.mem_wagers_record.mpr (.inl rfl)
      exact (concluded.books hs ▸ this : d.tx ∈ (l.view sh.db).books.wagers)
    obtain ⟨t, ht, same, -⟩ := hevolves.wagers _ hmem
    obtain ⟨money, hmoney, hhash⟩ := hash
    exact ⟨t, ht, key.congr same, ⟨money, hmoney, same.payloadHash ▸ hhash⟩,
      same.id.symm.trans (by rw [answer, stored]; rfl)⟩
  | @replayed t db row lost mem same db' looked read key hash =>
    have hmem : row ∈ (committed sh l).db.wagers := (view_wagers_idle lost.idle).symm ▸ mem
    obtain ⟨t', ht', same', -⟩ := hevolves.wagers _ hmem
    obtain ⟨money, hmoney, hhash⟩ := hash
    exact ⟨t', ht', key.congr same', ⟨money, hmoney, same'.payloadHash ▸ hhash⟩,
      same'.id.symm.trans same.id.symm⟩

/-- An answer is about the row that has its key. -/
theorem Reachable.answer_id {row : WagerTransactionRow} (h : Reachable w)
    (hanswers : Answers w n command result) (hrow : row ∈ w.shared.db.wagers)
    (hkey : command.NamesKey row) : result.transactionId = row.id := by
  obtain ⟨i, sh, l, a, -, hsound, -, hsub, hsince⟩ := h.answered hanswers
  obtain ⟨t, ht, htkey, -, hid⟩ := hsub.answered hsound hsince
  rw [← hid, htkey.eq hkey h.sound.inv ht hrow]

/-- Two answers that are no replays for one key are one. -/
theorem Reachable.first_unique {row : WagerTransactionRow} (h : Reachable w) {n m : Nat}
    (hn : AnswersFirst w row n) (hm : AnswersFirst w row m) : ¬ n < m := by
  intro hlt
  obtain ⟨command, result, hanswers, hkey, -, -⟩ := hn
  obtain ⟨command', result', hanswers', hkey', -, hfresh'⟩ := hm
  obtain ⟨i, sh, l, a, hget, hsound, -, hsub, -⟩ := h.answered hanswers
  obtain ⟨j, sh', l', a', hget', hsound', hown', hsub', -⟩ := h.answered hanswers'
  have hevolves : Evolves (committed sh l) sh' := by
    have := List.pairwise_iff_getElem.mp h.sound.ordered n m
      (List.getElem?_eq_some_iff.mp hget).1 (List.getElem?_eq_some_iff.mp hget').1 hlt
    rw [(List.getElem?_eq_some_iff.mp hget).2, (List.getElem?_eq_some_iff.mp hget').2] at this
    exact this
  obtain ⟨t, ht, htkey, -, -⟩ := hsub.answered hsound hevolves
  cases hsub' with
  | replayed => cases hfresh'
  | @decided d _ concluded key external hash kept inserted =>
    refine hown'.free _ inserted (wagerIdempotency_mem_iff.mpr ⟨t, ht, ?_, ?_⟩)
    · rw [htkey.providerId, key.providerId, ← hkey.providerId, ← hkey'.providerId]
    · rw [htkey.idempotencyKey, key.idempotencyKey, ← hkey.idempotencyKey, ← hkey'.idempotencyKey]

/-- A submitted row has its first answer. -/
theorem Reachable.first_exists {row : WagerTransactionRow} (h : Reachable w)
    (hrow : row ∈ w.shared.db.wagers)
    (hkind : row.kind ≠ .opening) : ∃ n, AnswersFirst w row n := by
  obtain ⟨i, sh, l, a, hmem, hbefore, hafter⟩ := h.wager_origin ⟨row, hrow, rfl⟩
  obtain ⟨entry, past, hcommitted⟩ := h.commit_recorded hmem
  obtain ⟨n, hn⟩ := List.mem_iff_getElem?.mp hmem
  obtain ⟨s, hs, hentry⟩ := hcommitted.session
  rcases contract_inserted hcommitted.commits hcommitted.sound hbefore hafter with
    ⟨t, ht, hid, hopening⟩ | ⟨command, result, hcommand, hresult, hfresh, hid, submission⟩
  · obtain ⟨t', ht', same, -⟩ := hcommitted.since.wagers t ht
    have heq : t' = row := h.sound.inv.books.eq_of_id ht' hrow (same.id.symm.trans hid)
    exact absurd (heq ▸ same.kind.symm.trans hopening) hkind
  · obtain ⟨t, ht, hkey, hmatches, htid⟩ := submission.answered hcommitted.sound hcommitted.since
    have heq : t = row := h.sound.inv.books.eq_of_id ht hrow (htid.trans hid)
    exact ⟨n, command, result, ⟨i, sh, l, a, s, hn, hs, hentry ▸ hcommand, hresult⟩, heq ▸ hkey,
      heq ▸ hmatches, hfresh⟩

/-! ## Losing the reservation -/

/-- How a submission ends that lost its reservation against `db`. -/
structure EndsAsLost (command : SubmitWagerCommand) (db : Database)
    (ending : Ending store Answer) : Prop where
  conflict : (∃ row ∈ db.wagers, command.NamesKey row ∧ ¬ command.Matches row) →
    ∃ e, ending.result = .error (.application e) ∧ e.code = .idempotencyKeyConflict
  reused : (∀ row ∈ ending.before.db.wagers, ¬ command.NamesKey row) →
    ∃ e, ending.result = .error (.application e) ∧ e.code = .externalTransactionIdReused
  unchanged : SameBusiness ending.before.db ending.after.db

omit [Driver] in
theorem Submission.endsAsLost {sh : Shared} {l : Local} {a : Answer} {db : Database}
    (h : Submission command sh l result) (hs : Sound sh) (hlost : l.lostAt = some db) :
    EndsAsLost command db (.committed sh l a) := by
  cases h with
  | decided _ _ _ _ kept =>
    rw [hlost] at kept
    cases kept
  | @replayed t db' row lost mem same db'' looked read key hash =>
    have hdb : db' = db := Option.some.inj (lost.lostAt.symm.trans hlost)
    subst hdb
    refine ⟨fun ⟨r, hr, hkey, hno⟩ => ?_, fun hnone => absurd key (hnone row mem),
      sameBusiness_idle lost.idle⟩
    obtain ⟨r', hr', same'⟩ := lost.kept r hr
    have heq : r' = row := (hkey.congr same').eq key hs hr' mem
    obtain ⟨money, hmoney, hhash⟩ := hash
    exact absurd ⟨money, hmoney, (same'.payloadHash.trans (heq ▸ rfl)).trans hhash⟩ hno

omit [Driver] in
theorem SubmitFailure.endsAsLost {sh : Shared} {l : Local} {e : Failure} {db : Database}
    (h : SubmitFailure command sh l e) (hlost : l.lostAt = some db)
    (hacceptable : command.Acceptable) (hnone : ∀ e', e ≠ .repository e') :
    EndsAsLost command db (.failed sh l e) := by
  have hsame : SameBusiness sh.db sh.db := ⟨rfl, rfl, rfl, rfl⟩
  cases h with
  | conflict lost mem key hash =>
    exact ⟨fun _ => ⟨_, rfl, rfl⟩, fun h => absurd key (h _ mem), hsame⟩
  | @reused db' r lost unused mem external =>
    have hdb : db' = db := Option.some.inj (lost.lostAt.symm.trans hlost)
    subst hdb
    exact ⟨fun ⟨r, hr, hkey, _⟩ => absurd hkey (unused r hr), fun _ => ⟨_, rfl, rfl⟩, hsame⟩
  | refused => exact absurd rfl (hnone _)
  | invalid h => exact absurd hacceptable h
  | notPositive h => exact absurd hacceptable h
  | version => exact absurd rfl (hnone _)
  | payload => exact absurd rfl (hnone _)

theorem Reachable.endsAsLost (h : Reachable w) {i : Nat} {ending : Ending store Answer}
    {s : Session store Entry Answer} {db : Database} (hmem : (i, ending) ∈ w.history)
    (hs : w.sessions[i]? = some s) (hcommand : s.entry.command? = some command)
    (hacceptable : command.Acceptable) (hlost : ending.loc.lostAt = some db)
    (hnone : ∀ e, ending.result ≠ .error (.repository e)) : EndsAsLost command db ending := by
  cases ending with
  | committed sh l a =>
    obtain ⟨entry, past, hcommitted⟩ := h.commit_recorded hmem
    have hentry : entry = s.entry := session_entry hcommitted.session ⟨s, hs, rfl⟩
    subst hentry
    have hcommits := hcommitted.commits
    obtain ⟨entry, status⟩ := s
    cases entry with
    | createWallet _ => cases hcommand
    | resolvePending => cases hcommand
    | submit _ =>
      cases hcommand
      obtain ⟨result, -, -, submission⟩ := hcommits
      exact submission.endsAsLost hcommitted.sound hlost
    | consume delivery _ =>
      cases hcommand
      obtain ⟨outcome, -, consumption⟩ := hcommits
      cases consumption with
      | processed inbox submission => exact submission.endsAsLost hcommitted.sound hlost
      | duplicate log kept => cases kept.symm.trans hlost
      | permanent log kept => cases kept.symm.trans hlost
  | failed sh l e =>
    have hnone' : ∀ e', e ≠ .repository e' := fun e' he => hnone e' (congrArg Except.error he)
    obtain ⟨entry, past, hfailed⟩ := h.failure_recorded hmem
    have hentry : entry = s.entry := session_entry hfailed.session ⟨s, hs, rfl⟩
    subst hentry
    have hfails : (contract s.entry).fails past sh l e := by
      refine hfailed.fails.resolve_left fun houtage => ?_
      cases e with
      | repository e' => exact hnone' e' rfl
      | domain _ => cases houtage
      | application _ => cases houtage
      | stackOverflow => cases houtage
    obtain ⟨entry, status⟩ := s
    cases entry with
    | createWallet _ => cases hcommand
    | resolvePending => cases hcommand
    | submit _ =>
      cases hcommand
      exact SubmitFailure.endsAsLost hfails hlost hacceptable hnone'
    | consume delivery _ =>
      cases hcommand
      cases hfails with
      | submission h => exact h.endsAsLost hlost hacceptable hnone'
      | refused => exact absurd rfl (hnone' _)
      | clock => exact absurd rfl (hnone' _)

/-! ## The branch with no owner -/

/-- No transaction fails for a reservation whose owner cannot be seen. -/
theorem Reachable.owner_seen (h : Reachable w) {i : Nat} {sh : Shared} {l : Local}
    {e : ApplicationError} (hmem : (i, .failed sh l (.application e)) ∈ w.history) :
    e.code ≠ .serviceUnavailable := by
  obtain ⟨entry, past, hfailed⟩ := h.failure_recorded hmem
  have hfails : (contract entry).fails past sh l (.application e) :=
    hfailed.fails.resolve_left fun h => by cases h
  have hsubmit : ∀ {command : SubmitWagerCommand} {sh : Shared},
      SubmitFailure command sh l (.application e) → e.code ≠ .serviceUnavailable := by
    intro command sh h hcode
    cases h <;> cases hcode
  cases entry with
  | createWallet command =>
    intro hcode
    cases hfails
    cases hcode
  | submit command => exact hsubmit hfails
  | consume delivery command =>
    cases hfails with
    | submission h => exact hsubmit h
  | resolvePending =>
    obtain ⟨r, hr⟩ := SettleFailure.failure hfails
    cases hr

/-! ## Over every run -/

/-- What holds of the identities that submissions name. -/
structure Identified (w : Service) : Prop where
  keys : Keyed.Distinct (fun t : WagerTransactionRow => (t.providerId, t.idempotencyKey))
    w.shared.db.wagers
  externals : Keyed.Distinct
    (fun t : WagerTransactionRow => (t.providerId, t.externalTransactionId)) w.shared.db.wagers
  answer : ∀ row ∈ w.shared.db.wagers, ∀ n command result, Answers w n command result →
    command.NamesKey row → command.Matches row → result.transactionId = row.id
  first : ∀ row ∈ w.shared.db.wagers, row.kind ≠ .opening → ∃! n, AnswersFirst w row n
  lost : ∀ i ending s command db, (i, ending) ∈ w.history → w.sessions[i]? = some s →
    s.entry.command? = some command → command.Acceptable → ending.loc.lostAt = some db →
    (∀ e, ending.result ≠ .error (.repository e)) → EndsAsLost command db ending
  replay : ∀ n command result, Answers w n command result → result.idempotentReplay = true →
    ∃ i ending, w.history[n]? = some (i, ending) ∧ SameBusiness ending.before.db ending.after.db
  owner : ∀ i sh l e, (i, .failed sh l (.application e)) ∈ w.history → e.code ≠ .serviceUnavailable

/-- Identities stay one to one over every run of the service. -/
theorem Reachable.oneIdentity (h : Reachable w) : Identified w := by
  have hs := h.sound.inv
  have hdistinct : ∀ {κ : Type} (key : WagerTransactionRow → κ),
      (∀ r s : WagerTransactionRow, key r = key s → r ∈ w.shared.db.wagers →
        s ∈ w.shared.db.wagers → r = s) → Keyed.Distinct key w.shared.db.wagers := by
    intro κ key hkey
    have hnodup : w.shared.db.wagers.Nodup := hs.books.wagerIds.of_map
    exact List.Nodup.map_on (fun r hr s hs heq => hkey r s heq hr hs) hnodup
  refine
    { keys := hdistinct _ fun r s heq hr hs' => ?keys
      externals := hdistinct _ fun r s heq hr hs' => ?externals
      answer := fun row hrow n command result hanswers hkey _ => h.answer_id hanswers hrow hkey
      first := fun row hrow hkind => ?first
      lost := fun i ending s command db hmem hsession hcommand hacceptable hlost hnone =>
        h.endsAsLost hmem hsession hcommand hacceptable hlost hnone
      replay := fun n command result hanswers hreplay => ?replay
      owner := fun i sh l e hmem => h.owner_seen hmem }
  case keys =>
    obtain ⟨hp, hk⟩ := Prod.mk.inj heq
    exact hs.wager_eq hr hs' (.wagerIdempotency r.providerId r.idempotencyKey)
      (by simp [WagerTransactionRow.uniqueKeys]) (by simp [WagerTransactionRow.uniqueKeys, hp, hk])
  case externals =>
    obtain ⟨hp, hk⟩ := Prod.mk.inj heq
    exact hs.wager_eq hr hs' (.wagerExternal r.providerId r.externalTransactionId)
      (by simp [WagerTransactionRow.uniqueKeys]) (by simp [WagerTransactionRow.uniqueKeys, hp, hk])
  case first =>
    obtain ⟨n, hn⟩ := h.first_exists hrow hkind
    refine ⟨n, hn, fun m hm => ?_⟩
    rcases Nat.lt_trichotomy m n with hlt | heq | hlt
    · exact absurd hlt (h.first_unique hm hn)
    · exact heq
    · exact absurd hlt (h.first_unique hn hm)
  case replay =>
    obtain ⟨i, sh, l, a, hn, -, -, hsub, -⟩ := h.answered hanswers
    refine ⟨i, _, hn, ?_⟩
    cases hsub with
    | decided _ _ _ _ _ _ _ _ answer =>
      rw [answer] at hreplay
      cases hreplay
    | replayed lost => exact sameBusiness_idle lost.idle

omit [Platform] [Driver] in
theorem sample_identified : @Identified samplePlatform sampleService :=
  @Reachable.oneIdentity samplePlatform sampleDriver sampleService sample_reachable

end Wagering
