import Wagering.Guarantees.Identities
import Wagering.Guarantees.Lifecycle

/-!
# Replays

A command that is submitted again is answered from the row of its transaction:
with what the last transition that was committed when the row was read has
recorded there, whatever happened to the wallet since.  Nothing but the inbox
changes.
-/

namespace Wagering

open Interleave

/-- What a replay of the row answers. -/
def WagerTransactionRow.replayed (row : WagerTransactionRow) : SubmitWagerResult where
  transactionId := row.id
  status := row.status
  balance :=
    match row.resultBalanceAmount, row.resultBalanceCurrency with
    | some amount, some currency => some (moneyText amount currency)
    | _, _ => none
  failureCode := row.failureCode
  idempotentReplay := true

section Answers

variable [Platform]

theorem replayOf_eq (t : WagerTransaction) : replayOf t = (toWagerTransactionRow t).replayed := by
  unfold replayOf resultOf WagerTransactionRow.replayed
  cases hbalance : t.resultBalance with
  | none => simp [toWagerTransactionRow, hbalance]
  | some balance => simp [toWagerTransactionRow, hbalance, Money.toJSON, Money.toString, moneyText]

/-- A first answer, answered again. -/
theorem replayed_resultOf (t : WagerTransaction) :
    (toWagerTransactionRow t).replayed = { resultOf t false with idempotentReplay := true } :=
  (replayOf_eq t).symm

end Answers

variable [Platform] [Driver] {w₀ w w' : Service} {command : SubmitWagerCommand}

/-! ## What a session has seen -/

/-- The committed tables that a transaction remembers are those of a state in between. -/
def Seen (w₀ w : Service) (l : Local) : Prop :=
  ∀ db, l.lostAt = some db ∨ l.lookedAt = some db →
    ∃ mid, World.Steps units w₀ mid ∧ World.Steps units mid w ∧ mid.shared.db = db

/-- A session that begins after `w₀` remembers nothing older. -/
theorem Reachable.seen (h : Reachable w₀) (hsteps : World.Steps units w₀ w) {i : Nat}
    (hi : w₀.sessions.length ≤ i) : w.Keeps (Seen w₀ w) i := by
  refine hsteps.keeps (fun hnext hseen db hdb => ?_) (fun u db hdb => ?_)
    (fun {u v _ _ _ _ _ _ _} hbefore hnext hseen hexec db hdb => ?_)
    (.unborn hi fun ending he => ?_)
  · obtain ⟨mid, hbefore, hafter, hmid⟩ := hseen db hdb
    exact ⟨mid, hbefore, .tail hafter hnext, hmid⟩
  · rcases hdb with hdb | hdb <;> cases hdb
  · obtain ⟨-, -, -, heffect⟩ := exec_effect hexec
    have hremembers := (heffect _ _ rfl).remembers
    rcases hdb with hdb | hdb
    · rcases hremembers.lostAt with hold | hnew
      · exact hseen db (.inl (hold ▸ hdb))
      · exact ⟨u, hbefore, .single hnext, Option.some.inj (hnew.symm.trans hdb)⟩
    · rcases hremembers.lookedAt with hold | hnew
      · exact hseen db (.inr (hold ▸ hdb))
      · exact ⟨u, hbefore, .single hnext, Option.some.inj (hnew.symm.trans hdb)⟩
  · obtain ⟨earlier, later, hsplit⟩ := List.append_of_mem he
    obtain ⟨s, hs, -⟩ := h.sound.recorded hsplit
    exact absurd (List.getElem?_eq_some_iff.mp hs).1 (Nat.not_lt.mpr hi)

/-- A session that begins after `w₀` ends in a state of the run that goes on from there. -/
theorem Reachable.ends_since (h : Reachable w₀) (hsteps : World.Steps units w₀ w) {i : Nat}
    {ending : Ending store Answer} (hi : w₀.sessions.length ≤ i) (hmem : (i, ending) ∈ w.history) :
    ∃ mid, World.Steps units w₀ mid ∧ World.Steps units mid w ∧ ending.before = mid.shared := by
  rcases hsteps.met hmem with hold | hmet
  · obtain ⟨earlier, later, hsplit⟩ := List.append_of_mem hold
    obtain ⟨s, hs, -⟩ := h.sound.recorded hsplit
    exact absurd (List.getElem?_eq_some_iff.mp hs).1 (Nat.not_lt.mpr hi)
  · exact hmet

/-! ## One resubmission -/

/-- The command names the row's key, with the payload that the row was hashed
from, and is one that the domain accepts. -/
structure SubmitWagerCommand.Resubmits (command : SubmitWagerCommand) (row : WagerTransactionRow) :
    Prop where
  key : command.NamesKey row
  hash : command.Matches row
  accepted : command.Acceptable

omit [Driver] in
theorem SubmitWagerCommand.Matches.congr {row row' : WagerTransactionRow}
    (h : command.Matches row) (same : SameIdentity row row') : command.Matches row' := by
  obtain ⟨money, hmoney, hhash⟩ := h
  exact ⟨money, hmoney, same.payloadHash ▸ hhash⟩

/-- What a resubmission is answered: what a state in between holds of the
transaction, that the same message was there before, or that a repository call
failed. -/
inductive AnswersReplay (w₀ w : Service) (entry : Entry) (row : WagerTransactionRow) :
    Ending store Answer → Prop
  | replayed {sh : Shared} {l : Local} {a : Answer} {mid : Service} {row' : WagerTransactionRow}
    (since : World.Steps units w₀ mid) (before : World.Steps units mid w)
    (mem : row' ∈ mid.shared.db.wagers) (id : row'.id = row.id)
    (answer : a.result? = some row'.replayed) : AnswersReplay w₀ w entry row (.committed sh l a)
  | redelivered {sh : Shared} {l : Local} {outcome : ConsumeOutcome} {delivery : InboxDelivery}
    {command : SubmitWagerCommand} {m : InboxMessageRow} (consumes : entry = .consume delivery command)
    (mem : m ∈ sh.db.inbox) (key : m.key = delivery.key.stored) :
    AnswersReplay w₀ w entry row (.committed sh l (.consumed outcome))
  | refused {sh : Shared} {l : Local} {e : RepositoryError} :
    AnswersReplay w₀ w entry row (.failed sh l (.repository e))

/-- The submission of a key that is taken replays its row. -/
theorem Reachable.replays_submission (h : Reachable w₀)
    {row : WagerTransactionRow} (hrow : row ∈ w₀.shared.db.wagers) {sh : Shared} {l : Local}
    {result : SubmitWagerResult} (hkey : command.NamesKey row)
    (hsince : ∃ mid, World.Steps units w₀ mid ∧ World.Steps units mid w ∧ sh = mid.shared)
    (hseen : Seen w₀ w l) (hown : Own sh l) (hsub : Submission command sh l result) :
    businessOf l.log = [] ∧ ∃ mid, World.Steps units w₀ mid ∧ World.Steps units mid w ∧
      ∃ row' ∈ mid.shared.db.wagers, row'.id = row.id ∧ result = row'.replayed := by
  obtain ⟨u, hbefore, -, rfl⟩ := hsince
  have hu : Reachable u := Relation.ReflTransGen.trans h hbefore
  obtain ⟨row₁, hrow₁, same₁, -⟩ := (h.evolves hbefore).wagers row hrow
  cases hsub with
  | @decided d _ concluded key external hash kept inserted =>
    -- the row's key is committed, so no reservation could have taken it
    refine absurd (wagerIdempotency_mem_iff.mpr ⟨row₁, hrow₁, ?_, ?_⟩) (hown.free _ inserted)
    · rw [(hkey.congr same₁).providerId, key.providerId]
    · rw [(hkey.congr same₁).idempotencyKey, key.idempotencyKey]
  | @replayed t db row₂ lost mem same db' looked read key hash =>
    obtain ⟨mid, hmid, hafter, rfl⟩ := hseen db' (.inr looked)
    refine ⟨lost.idle, mid, hmid, hafter, _, read, ?_, replayOf_eq t⟩
    have heq : row₂ = row₁ := key.eq (hkey.congr same₁) hu.sound.inv mem hrow₁
    exact same.id.trans (heq ▸ same₁.id.symm)

/-- The submission of a key that is taken fails only where a repository call does. -/
theorem Reachable.replays_failure (h : Reachable w₀)
    {row : WagerTransactionRow} (hrow : row ∈ w₀.shared.db.wagers) {sh : Shared} {l : Local}
    {e : Failure} (hresubmits : command.Resubmits row)
    (hsince : ∃ mid, World.Steps units w₀ mid ∧ World.Steps units mid w ∧ sh = mid.shared)
    (hseen : Seen w₀ w l) (hfails : SubmitFailure command sh l e) : ∃ r, e = .repository r := by
  obtain ⟨u, hbefore, -, rfl⟩ := hsince
  have hu : Reachable u := Relation.ReflTransGen.trans h hbefore
  cases hfails with
  | conflict lost mem key hash =>
    obtain ⟨row₁, hrow₁, same₁, -⟩ := (h.evolves hbefore).wagers row hrow
    have heq := key.eq (hresubmits.key.congr same₁) hu.sound.inv mem hrow₁
    exact absurd (heq ▸ hresubmits.hash.congr same₁) hash
  | @reused db r lost unused mem external =>
    obtain ⟨mid, hmid, -, rfl⟩ := hseen db (.inl lost.lostAt)
    obtain ⟨row₁, hrow₁, same₁, -⟩ := (h.evolves hmid).wagers row hrow
    exact absurd (hresubmits.key.congr same₁) (unused row₁ hrow₁)
  | refused => exact ⟨_, rfl⟩
  | invalid hbad => exact absurd hresubmits.accepted hbad
  | notPositive hbad => exact absurd hresubmits.accepted hbad
  | version => exact ⟨_, rfl⟩
  | payload => exact ⟨_, rfl⟩

theorem Reachable.replays_ending (h : Reachable w₀) (hsteps : World.Steps units w₀ w)
    {row : WagerTransactionRow} (hrow : row ∈ w₀.shared.db.wagers) {i : Nat}
    {ending : Ending store Answer} {s : Session store Entry Answer}
    (hi : w₀.sessions.length ≤ i) (hmem : (i, ending) ∈ w.history)
    (hs : w.sessions[i]? = some s) (hcommand : s.entry.command? = some command)
    (hresubmits : command.Resubmits row) :
    SameBusiness ending.before.db ending.after.db ∧ AnswersReplay w₀ w s.entry row ending := by
  have hw : Reachable w := Relation.ReflTransGen.trans h hsteps
  have hsince := h.ends_since hsteps hi hmem
  have hseen : Seen w₀ w ending.loc := (h.seen hsteps hi).2 ending hmem
  cases ending with
  | committed sh l a =>
    obtain ⟨entry, past, hcommitted⟩ := hw.commit_recorded hmem
    have hentry : entry = s.entry := session_entry hcommitted.session ⟨s, hs, rfl⟩
    subst hentry
    have hreplayed : ∀ {result : SubmitWagerResult}, a.result? = some result →
        Submission command sh l result →
        SameBusiness sh.db (l.view sh.db) ∧ AnswersReplay w₀ w s.entry row (.committed sh l a) := by
      intro result hresult hsub
      obtain ⟨hidle, mid, hmid, hafter, row', hrow', hid, rfl⟩ := h.replays_submission hrow
        hresubmits.key hsince hseen hcommitted.own hsub
      exact ⟨sameBusiness_idle hidle, .replayed hmid hafter hrow' hid hresult⟩
    have hcommits := hcommitted.commits
    obtain ⟨entry, status⟩ := s
    cases entry with
    | createWallet _ => cases hcommand
    | resolvePending => cases hcommand
    | submit _ =>
      cases hcommand
      obtain ⟨result, rfl, -, submission⟩ := hcommits
      exact hreplayed rfl submission
    | consume delivery _ =>
      cases hcommand
      obtain ⟨outcome, rfl, consumption⟩ := hcommits
      cases consumption with
      | processed inbox submission => exact hreplayed rfl submission
      | duplicate log kept mem key =>
        exact ⟨sameBusiness_idle (by rw [log]; rfl), .redelivered rfl mem key⟩
      | permanent log kept mem key =>
        exact ⟨sameBusiness_idle (by rw [log]; rfl), .redelivered rfl mem key⟩
  | failed sh l e =>
    refine ⟨⟨rfl, rfl, rfl, rfl⟩, ?_⟩
    obtain ⟨entry, past, hfailed⟩ := hw.failure_recorded hmem
    have hentry : entry = s.entry := session_entry hfailed.session ⟨s, hs, rfl⟩
    subst hentry
    have hrepository : ∃ r, e = .repository r := by
      rcases hfailed.fails with houtage | hfails
      · exact isOutage_repository houtage
      obtain ⟨entry, status⟩ := s
      cases entry with
      | createWallet _ => cases hcommand
      | resolvePending => cases hcommand
      | submit _ =>
        cases hcommand
        exact h.replays_failure hrow hresubmits hsince hseen hfails
      | consume delivery _ =>
        cases hcommand
        cases hfails with
        | submission hfails => exact h.replays_failure hrow hresubmits hsince hseen hfails
        | refused => exact ⟨_, rfl⟩
        | clock => exact ⟨_, rfl⟩
    obtain ⟨r, rfl⟩ := hrepository
    exact .refused

/-! ## The first answer and its replays -/

/-- An answer stays in the history. -/
theorem Answers.extends {n : Nat} {result : SubmitWagerResult}
    (h : Answers w n command result) (hsteps : World.Steps units w w') :
    Answers w' n command result := by
  obtain ⟨i, sh, l, a, s, hn, hs, hcommand, hresult⟩ := h
  obtain ⟨hhistory, hentries⟩ := hsteps.extends
  obtain ⟨s', hs', hentry⟩ := hentries hs
  obtain ⟨later, hlater⟩ := hhistory
  refine ⟨i, sh, l, a, s', ?_, hs', hentry ▸ hcommand, hresult⟩
  rw [← hlater, List.getElem?_append_left (List.getElem?_eq_some_iff.mp hn).1]
  exact hn

omit [Driver] in
/-- One entry of the history gives one answer. -/
theorem Answers.result_eq {n : Nat} {command' : SubmitWagerCommand}
    {result result' : SubmitWagerResult} (h : Answers w n command result)
    (h' : Answers w n command' result') : result = result' := by
  obtain ⟨i, sh, l, a, s, hn, hs, hcommand, hresult⟩ := h
  obtain ⟨i', sh', l', a', s', hn', hs', hcommand', hresult'⟩ := h'
  rw [hn] at hn'
  cases hn'
  exact Option.some.inj (hresult.symm.trans hresult')

/-- The row of a first answer that settles stays as it was answered. -/
theorem Reachable.first_settled (h : Reachable w) {n : Nat} {first : SubmitWagerResult}
    (hanswers : Answers w n command first) (hfresh : first.idempotentReplay = false)
    (hterminal : first.status.isTerminal = true) :
    ∃ t, first = resultOf t false ∧ toWagerTransactionRow t ∈ w.shared.db.wagers := by
  obtain ⟨i, sh, l, a, -, hsound, -, hsub, hsince⟩ := h.answered hanswers
  cases hsub with
  | replayed => cases hfresh
  | @decided d _ concluded key external hash kept inserted t stored status answer =>
    subst answer
    refine ⟨t, rfl, hsince.terminal _ ?_ hterminal⟩
    have hmem : d.tx ∈ (sh.db.books.record d).wagers := Books.mem_wagers_record.mpr (.inl rfl)
    exact stored ▸ (concluded.books hsound ▸ hmem : d.tx ∈ (l.view sh.db).books.wagers)

/-- Every replay of a first answer that settled is that answer. -/
theorem Reachable.replays_first (h : Reachable w) {row : WagerTransactionRow}
    (hrow : row ∈ w.shared.db.wagers) (hkind : row.kind ≠ .opening) {n m : Nat}
    {first later : SubmitWagerResult} {command' : SubmitWagerCommand}
    (hfirst : Answers w n command first) (hkey : command.NamesKey row)
    (hhash : command.Matches row) (hfresh : first.idempotentReplay = false)
    (hterminal : first.status.isTerminal = true) (hlater : Answers w m command' later)
    (hkey' : command'.NamesKey row) (hreplay : later.idempotentReplay = true) :
    later = { first with idempotentReplay := true } := by
  obtain ⟨i, sh, l, a, hm, -, -, hsub, -⟩ := h.answered hlater
  have hseen : Seen Service.start w l :=
    (Reachable.seen (Relation.ReflTransGen.refl : Reachable Service.start) h (Nat.zero_le i)).2 _
      (List.mem_of_getElem? hm)
  cases hsub with
  | decided _ _ _ _ _ _ _ _ answer =>
    rw [answer] at hreplay
    cases hreplay
  | @replayed t db row₂ lost mem same db' looked read key hash =>
    obtain ⟨mid, hmid, hafter, rfl⟩ := hseen db' (.inr looked)
    -- the row that was read became `row`, and `mid` knows the same first answer
    obtain ⟨u, hu, sameu, -⟩ := (Reachable.evolves hmid hafter).wagers _ read
    have hnames : command'.NamesKey (toWagerTransactionRow t) :=
      ⟨same.providerId.trans key.providerId, same.idempotencyKey.trans key.idempotencyKey⟩
    have hrowu : u = row := (hnames.congr sameu).eq hkey' h.sound.inv hu hrow
    subst hrowu
    obtain ⟨n', command₁, result₁, hanswers₁, hkey₁, hhash₁, hfresh₁⟩ :=
      Reachable.first_exists hmid read (sameu.kind ▸ hkind)
    have hn : n' = n := by
      have h₁ : AnswersFirst w u n' :=
        ⟨_, _, hanswers₁.extends hafter, hkey₁.congr sameu, hhash₁.congr sameu, hfresh₁⟩
      have h₂ : AnswersFirst w u n := ⟨_, _, hfirst, hkey, hhash, hfresh⟩
      have hlt := h.first_unique h₁ h₂
      have hgt := h.first_unique h₂ h₁
      omega
    subst hn
    have hresult : result₁ = first := (hanswers₁.extends hafter).result_eq hfirst
    subst hresult
    obtain ⟨t₁, rfl, hmem₁⟩ := Reachable.first_settled hmid hanswers₁ hfresh hterminal
    have hid : t₁.id = t.id := Reachable.answer_id hmid hanswers₁ read hkey₁
    have heq : toWagerTransactionRow t = toWagerTransactionRow t₁ :=
      (Reachable.sound hmid).inv.books.eq_of_id read hmem₁ hid.symm
    rw [replayOf_eq, heq, replayed_resultOf]

/-! ## Over every run -/

/-- How the submitted transactions of `w` are replayed from `w` on, and how they
have been replayed. -/
structure ReplaysHistory (w : Service) : Prop where
  later : ∀ w', World.Steps units w w' → ∀ row ∈ w.shared.db.wagers, row.kind ≠ .opening →
    ∀ i ending s command, w.sessions.length ≤ i → (i, ending) ∈ w'.history →
      w'.sessions[i]? = some s → s.entry.command? = some command → command.Resubmits row →
      SameBusiness ending.before.db ending.after.db ∧ AnswersReplay w w' s.entry row ending
  first : ∀ row ∈ w.shared.db.wagers, row.kind ≠ .opening → ∀ n command first,
    Answers w n command first → command.NamesKey row → command.Matches row →
    first.idempotentReplay = false → first.status.isTerminal = true → ∀ m command' later,
      Answers w m command' later → command'.NamesKey row → later.idempotentReplay = true →
      later = { first with idempotentReplay := true }
  balance : ∀ row ∈ w.shared.db.wagers, ∃ t, toWagerTransaction row = .ok t ∧
    toWagerTransactionRow t = row ∧ replayOf t = row.replayed

/-- Replays tell what was recorded, over every run of the service. -/
theorem Reachable.replaysHistory (h : Reachable w) : ReplaysHistory w where
  later := fun _ hsteps _ hrow _ _ _ _ _ hi hmem hs hcommand hresubmits =>
    h.replays_ending hsteps hrow hi hmem hs hcommand hresubmits
  first := fun _ hrow hkind _ _ _ hfirst hkey hhash hfresh hterminal _ _ _ hlater hkey' hreplay =>
    h.replays_first hrow hkind hfirst hkey hhash hfresh hterminal hlater hkey' hreplay
  balance := fun row hrow => by
    obtain ⟨t, hload, hstored, -⟩ := (h.sound.inv.wagers row hrow).load
    exact ⟨t, hload, hstored, hstored ▸ replayOf_eq t⟩

/-- The submissions that were answered, with the transaction and whether it was a replay. -/
def submissions (w : Service) : List (Nat × Text × Bool) :=
  w.history.filterMap fun x => x.2.result.toOption.bind fun a =>
    a.result?.map fun result => (x.1, result.transactionId, result.idempotentReplay)

omit [Platform] [Driver] in
/-- The bet is submitted three times, by both channels. -/
theorem busy_replaysHistory : @ReplaysHistory samplePlatform sampleDriver busyService ∧
    @submissions samplePlatform busyService =
      [(1, sampleId 6, false), (3, sampleId 8, false), (5, sampleId 8, true),
       (7, sampleId 17, false), (9, sampleId 8, true)] :=
  ⟨@Reachable.replaysHistory samplePlatform sampleDriver busyService busy_reachable, by
    unfold busyService
    decide +kernel⟩

end Wagering
