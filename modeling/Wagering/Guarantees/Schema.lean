import Wagering.Correctness.Parsing
import Wagering.Guarantees.Failures
import Wagering.Guarantees.Hashes
import Wagering.Interface.Request
import Wagering.Publishing.Service

/-!
# The schema is never the first to object

Whatever the interface accepts, the use cases decide before the schema has to:
no statement that they send is refused for its content, and a publisher's update
leaves a row that passes every rule.
-/

namespace Wagering

open Interleave

section Statements

variable [Platform] [Driver]

/-- The clock, the lease and the name of a publisher fit the columns. -/
def PublisherAction.Sane : PublisherAction → Prop
  | .claim publisherId _ claimedAt leaseMs =>
    Text.characters publisherId ≤ 64 ∧ (claimedAt + leaseMs).isTimestamp = true
  | .complete _ now jitter =>
    now.isTimestamp = true ∧ (now + 120000).isTimestamp = true ∧ jitter < 2 ^ 53
  | .publish _ _ => True
  | .drop _ => True

/-- Requests come through the interface, and publishers are configured sanely. -/
def Sane : Action store Entry → Prop
  | .begin entry => entry.Accepted
  | .ambient action => action.Sane
  | _ => True

/-- In no unit of work that ended did the clock step back or a wallet use up its versions. -/
structure Orderly (w : Service) : Prop where
  clocks : ∀ i ending, (i, ending) ∈ w.history →
    ending.loc.readings.Pairwise fun later earlier => earlier ≤ later
  versions : ∀ i ending, (i, ending) ∈ w.history →
    ∀ v ∈ ending.before.db.wallets, v.version + 1 < 2147483648

/-- What is promised of the schema. -/
structure SchemaSilent (w : Service) : Prop where
  refused : ∀ i sh l violation,
    (i, .failed sh l (.repository (.integrity violation))) ∉ w.history
  opened : ∀ (i : Nat) (s : Session store Entry Answer) (l : Local), w.sessions[i]? = some s →
    s.local? = some l → l.Checked
  ended : ∀ i ending, (i, ending) ∈ w.history → ending.loc.Checked
  unique : w.shared.db.uniqueKeys.Nodup
  outbox : ∀ m ∈ w.shared.db.outbox, ∀ rule ∈ outboxRules m,
    (∃ violation, rule.error = .integrity violation) → rule.holds = true

end Statements

/-! ## What fits -/

section Texts

variable [Platform]

theorem Clean.fits {n : Nat} {t : Text} (h : Clean n t) : Text.Fits n t := by
  refine ⟨?_, characters_le_of_length h.bounded⟩
  have hprintable := h.printable
  rw [hasControlCharacter, List.any_eq_false] at hprintable
  rw [Text.hasNul, List.any_eq_false]
  intro u hu hzero
  rw [decide_eq_true_eq] at hzero
  exact hprintable u hu (by rw [hzero]; rfl)

omit [Platform] in
theorem isUuid_fits {t : Text} (h : isUuid t = true) : Text.Fits 128 t := by
  obtain ⟨hnul, -, hlength⟩ := isUuid_plain h
  exact ⟨hnul, characters_le_of_length (by omega)⟩

omit [Platform] in
theorem requestCorrelationId_fits {header : Option Text} {fresh : Text}
    (h : isUuid fresh = true) : Text.Fits 128 (requestCorrelationId header fresh) := by
  unfold requestCorrelationId
  split
  · split
    · rename_i value hvalue
      simp only [isCorrelation, Bool.and_eq_true, decide_eq_true_eq, List.all_eq_true] at hvalue
      refine ⟨?_, characters_le_of_length hvalue.1.2⟩
      rw [Text.hasNul, List.any_eq_false]
      intro u hu hzero
      rw [decide_eq_true_eq] at hzero
      have := hvalue.2 u hu
      rw [hzero] at this
      cases this
    · exact isUuid_fits h
  · exact isUuid_fits h

theorem SubmitWagerBody.Normal.fits {body : SubmitWagerBody} (h : body.Normal)
    {idempotencyKey correlationId : Text} {causationId : Option Text}
    (hkey : Text.Fits 255 idempotencyKey) (hcorrelation : Text.Fits 128 correlationId) :
    (body.command idempotencyKey correlationId causationId).Fits where
  providerId := h.providerId.fits
  externalTransactionId := h.externalTransactionId.fits
  idempotencyKey := hkey
  playerId := h.playerId.fits
  walletId := h.walletId
  roundId := h.roundId.fits
  gameId := h.gameId.fits
  reference := fun external hexternal => (h.reference external hexternal).fits
  unreferenced := h.unreferenced
  correlationId := hcorrelation

theorem requireIdempotencyKey_clean (laws : NfcLaws) {header : Option Text} {occurrences : Nat}
    {key : Text} (h : requireIdempotencyKey header occurrences = .ok key) : Clean 255 key := by
  unfold requireIdempotencyKey at h
  split at h
  · cases h
  · split at h
    · cases h
    · split at h
      · cases h
      · exact boundedString_clean laws h

/-- The transport hash is that of the envelope. -/
theorem parseWagerMessage_hash {rawBody : Text} {message : WagerMessage}
    (h : parseWagerMessage rawBody = .ok message) :
    ∃ data, message.inboxPayloadHash =
      inboxPayloadHashOf expectedType message.occurredAt data := by
  unfold parseWagerMessage at h
  split at h
  · cases h
  · obtain ⟨envelope, -, h⟩ := bind_ok h
    obtain ⟨messageId, -, h⟩ := bind_ok h
    obtain ⟨type, -, h⟩ := bind_ok h
    split at h
    · cases h
    · rename_i hexpected
      obtain rfl : type = expectedType := not_not.mp hexpected
      obtain ⟨occurredAt, -, h⟩ := bind_ok h
      obtain ⟨data, -, h⟩ := bind_ok h
      obtain ⟨idempotencyKey, -, h⟩ := bind_ok h
      obtain ⟨canonical, hcanonical, h⟩ := bind_ok h
      obtain ⟨parsed, -, h⟩ := bind_ok h
      cases h
      exact ⟨data, congrArg sha256Hex (canonicalize_of_within hcanonical)⟩

/-- The command of a message that was accepted. -/
theorem WagerMessage.Normal.fits {message : WagerMessage} (h : message.Normal) :
    message.command.Fits :=
  h.body.fits h.idempotencyKey.fits h.correlationId.fits

end Texts

/-! ## Rows of the outbox -/

/-- The columns of a row that a publisher writes, and those that it keeps. -/
structure OutboxMessageRow.Fitting (m : OutboxMessageRow) : Prop where
  aggregateId : Text.characters m.aggregateId ≤ 128
  eventType : Text.characters m.eventType ≤ 64
  occurredAt : m.occurredAt.isTimestamp = true
  attempts : 0 ≤ m.attempts ∧ m.attempts < 2147483648
  nextAttemptAt : m.nextAttemptAt.isTimestamp = true
  claimedBy : ∀ id ∈ m.claimedBy, Text.characters id ≤ 64
  claimedUntil : ∀ at_ ∈ m.claimedUntil, at_.isTimestamp = true
  publishedAt : ∀ at_ ∈ m.publishedAt, at_.isTimestamp = true
  abandonedAt : ∀ at_ ∈ m.abandonedAt, at_.isTimestamp = true

theorem OutboxMessageRow.Fitting.of_passes {m : OutboxMessageRow} (h : Passes (outboxRules m)) :
    m.Fitting := by
  simp only [Passes, outboxRules, List.forall_mem_cons] at h
  obtain ⟨-, -, -, haggregate, htype, hoccurred, hattempts, hnext, hby, huntil, hpublished,
    habandoned, hnonneg, -⟩ := h
  simp only [lengthRule, timestampRule, integerRule, check, Bool.and_eq_true,
    decide_eq_true_eq] at haggregate htype hoccurred hattempts hnext hnonneg
  refine ⟨haggregate, htype, hoccurred, ⟨hnonneg, hattempts.2⟩, hnext, fun id hid => ?_,
    fun at_ hat => ?_, fun at_ hat => ?_, fun at_ hat => ?_⟩
  · rw [Option.mem_def.mp hid] at hby
    exact of_decide_eq_true hby
  · rw [Option.mem_def.mp hat] at huntil
    exact huntil
  · rw [Option.mem_def.mp hat] at hpublished
    exact hpublished
  · rw [Option.mem_def.mp hat] at habandoned
    exact habandoned

/-- A row that fits and is accounted for raises no integrity error. -/
theorem OutboxMessageRow.Fitting.rules {m : OutboxMessageRow} (h : m.Fitting) {p : Publishing}
    (haccounted : m.Accounted p) : ∀ rule ∈ outboxRules m,
      (∃ violation, rule.error = .integrity violation) → rule.holds = true := by
  have hoptional : ∀ {α : Type} {rule : α → Rule} {value : Option α},
      (∀ a ∈ value, (rule a).holds = true) → (∃ violation,
        (optional rule value).error = .integrity violation) →
      (optional rule value).holds = true := fun hall _ => optional_holds hall
  simp only [outboxRules, List.forall_mem_cons]
  refine ⟨?payload, ?claimer, ?lastError, fun _ => decide_eq_true h.aggregateId,
    fun _ => decide_eq_true h.eventType, fun _ => h.occurredAt, ?attempts,
    fun _ => h.nextAttemptAt, hoptional fun id hid => decide_eq_true (h.claimedBy id hid),
    hoptional h.claimedUntil, hoptional h.publishedAt, hoptional h.abandonedAt,
    fun _ => decide_eq_true h.attempts.1, ?pair, ?once, fun _ hrule => by cases hrule⟩
  case payload =>
    rintro ⟨violation, herror⟩
    cases herror
  case claimer =>
    rintro ⟨violation, herror⟩
    cases hby : m.claimedBy with
    | none => rfl
    | some id =>
      rw [hby] at herror
      cases herror
  case lastError =>
    rintro ⟨violation, herror⟩
    cases hlast : m.lastError with
    | none => rfl
    | some reason =>
      rw [hlast] at herror
      cases herror
  case attempts =>
    intro _
    have hattempts := h.attempts
    simp only [integerRule, Bool.and_eq_true, decide_eq_true_eq]
    omega
  case pair =>
    intro _
    have hpair := haccounted.pair
    simp only [check, decide_eq_true_eq]
    rw [Bool.eq_iff_iff, Option.isNone_iff_eq_none, Option.isNone_iff_eq_none]
    exact hpair
  case once =>
    intro _
    simp only [check, Bool.or_eq_true, Option.isNone_iff_eq_none]
    exact haccounted.once.symm

theorem isTimestamp_between {at_ a b : Instant} (ha : a.isTimestamp = true)
    (hb : b.isTimestamp = true) (hle : a ≤ at_) (hge : at_ ≤ b) : at_.isTimestamp = true := by
  simp only [Instant.isTimestamp, Bool.and_eq_true, decide_eq_true_eq] at ha hb ⊢
  exact ⟨Int.le_trans ha.1 hle, Int.le_trans hge hb.2⟩

theorem outboxBackoffMs_bounds (attempts : Int) {jitter : Nat} (hj : jitter < 2 ^ 53) :
    0 ≤ outboxBackoffMs attempts jitter ∧ outboxBackoffMs attempts jitter ≤ 120000 := by
  have hpow : (0 : Int) ≤ 1000 * 2 ^ (attempts - 1).toNat :=
    Int.mul_nonneg (by decide) (Int.pow_nonneg (by decide))
  have hbounds := jittered_bounds (Int.le_min.mpr ⟨(by decide : (0 : Int) ≤ 60000), hpow⟩) hj
  have hmin := Int.min_le_left 60000 (1000 * 2 ^ (attempts - 1).toNat)
  rw [outboxBackoffMs]
  omega

/-- A sane publisher leaves rows that fit. -/
theorem publish_fitting {s : Outbox} (hsound : s.Sound) {action : PublisherAction}
    (hsane : action.Sane) (hfitting : ∀ m ∈ s.rows, m.Fitting)
    {next : List OutboxMessageRow × Publishing}
    (h : s.publishing.step s.rows action = some next) : ∀ m ∈ next.1, m.Fitting := by
  cases action with
  | claim publisherId locked claimedAt leaseMs =>
    simp only [Publishing.step] at h
    split at h
    · cases h
      intro m hm
      rcases Keyed.mem_adjust.mp hm with ⟨n, hn, -, rfl⟩ | ⟨hm, -⟩
      · exact { hfitting n hn with
          claimedBy := fun id hid => by cases hid; exact hsane.1
          claimedUntil := fun at_ hat => by cases hat; exact hsane.2 }
      · exact hfitting m hm
    · cases h
      exact hfitting
    · cases h
  | publish publisherId failure =>
    simp only [Publishing.step] at h
    split at h
    · cases h
      exact hfitting
    · cases h
  | drop publisherId =>
    cases h
    exact hfitting
  | complete publisherId now jitter =>
    simp only [Publishing.step] at h
    split at h
    · rename_i claim set hcompletion
      cases h
      intro m hm
      rcases mem_updateClaimed.mp hm with ⟨n, hn, hid, hclaimed, rfl⟩ | ⟨hm, -⟩
      · have hn' := hfitting n hn
        unfold completion at hcompletion
        split at hcompletion
        · cases hcompletion
          exact { hn' with
            claimedBy := fun id hid => by cases hid
            claimedUntil := fun at_ hat => by cases hat
            publishedAt := fun at_ hat => by cases hat; exact hsane.1 }
        · rename_i claim' reason hstage
          split at hcompletion
          · cases hcompletion
            exact { hn' with
              claimedBy := fun id hid => by cases hid
              claimedUntil := fun at_ hat => by cases hat
              abandonedAt := fun at_ hat => by cases hat; exact hsane.1 }
          · rename_i hearly
            cases hcompletion
            have hstages := hsound.stages publisherId
            rw [hstage] at hstages
            obtain ⟨-, hattempts⟩ := OutboxClaim.InHand.attempts hsound hstages hn hid hclaimed
            have hbackoff := outboxBackoffMs_bounds (claim.attempts + 1) hsane.2.2
            have hnonneg := hn'.attempts.1
            simp only [maxPublishAttempts] at hearly
            exact { hn' with
              attempts := by
                simp only [reschedule]
                omega
              nextAttemptAt := isTimestamp_between hsane.1 hsane.2.1
                (Int.le_add_of_nonneg_right hbackoff.1) (Int.add_le_add_left hbackoff.2 now)
              claimedBy := fun id hid => by cases hid
              claimedUntil := fun at_ hat => by cases hat }
        · cases hcompletion
      · exact hfitting m hm
    · cases h

/-! ## Runs -/

section Runs

variable [Platform] [Driver] {w w' : Service}

/-- What a sane run keeps. -/
structure SaneState (w : Service) : Prop where
  reachable : Reachable w
  accepted : ∀ s ∈ w.sessions, s.entry.Accepted
  fitting : ∀ m ∈ w.shared.db.outbox, m.Fitting

theorem SaneState.step (h : SaneState w) {action : Action store Entry} (hsane : Sane action)
    (hstep : w.step units action = some w') : SaneState w' := by
  have hnext : Reachable w' := .tail h.reachable ⟨action, hstep⟩
  refine ⟨hnext, fun s hs => ?_, ?_⟩
  · rcases World.step_entries hstep hs with ⟨t, ht, hentry⟩ | rfl
    · exact hentry ▸ h.accepted t ht
    · exact hsane
  · obtain ⟨-, hshared⟩ := World.step_cases hstep
    rcases hshared with
      ⟨-, heq | ⟨others, l, op, input, r, hop⟩ | ⟨a, rfl, ha⟩⟩ | ⟨i, l, a, heq, hhistory⟩
    · rw [heq]
      exact h.fitting
    · rw [(exec_effect hop).1]
      exact h.fitting
    · simp only [Option.map_eq_some_iff] at ha
      obtain ⟨next, hpublish, heq⟩ := ha
      rw [← heq]
      exact publish_fitting h.reachable.outbox.1.sound hsane h.fitting hpublish
    · have hmem : (i, Ending.committed w.shared l a) ∈ w'.history := by
        rw [hhistory]
        exact List.mem_append_right _ (List.mem_singleton.mpr rfl)
      have hrows : w'.shared.db.outbox = w.shared.db.outbox ++ newMessages l.log := by
        rw [heq]
        exact outbox_after _ _
      intro m hm
      rw [hrows] at hm
      rcases List.mem_append.mp hm with hm | hm
      · exact h.fitting m hm
      · exact .of_passes (Local.Checked.message ((hnext.checked i).2 _ hmem) hm).1

theorem saneState_start : SaneState Service.start where
  reachable := .refl
  accepted := fun s hs => by cases hs
  fitting := fun m hm => by cases hm

theorem SaneState.run {actions : List (Action store Entry)} (h : SaneState w)
    (hsane : ∀ action ∈ actions, Sane action) (hrun : World.run units w actions = some w') :
    SaneState w' := by
  induction actions generalizing w with
  | nil =>
    cases hrun
    exact h
  | cons action rest ih =>
    rw [World.run, Option.bind_eq_some_iff] at hrun
    obtain ⟨mid, hstep, hrest⟩ := hrun
    exact ih (h.step (hsane action List.mem_cons_self) hstep)
      (fun a ha => hsane a (List.mem_cons_of_mem _ ha)) hrest

omit [Driver] in
theorem Entry.Accepted.fits (laws : NfcLaws) {command : SubmitWagerCommand} {entry : Entry}
    (h : entry.Accepted) (hcommand : entry.command? = some command) : command.Fits := by
  cases h with
  | createWallet header parsed uuid => cases hcommand
  | resolvePending => cases hcommand
  | submit header key parsed uuid =>
    cases hcommand
    obtain ⟨source, -, hsteps⟩ := parseSubmitWager_ok parsed
    exact (hsteps.normal laws).fits (requireIdempotencyKey_clean laws key).fits
      (requestCorrelationId_fits uuid)
  | consume accepted consumer broker =>
    cases hcommand
    exact (parseWagerMessage_normal laws accepted).fits

omit [Driver] in
theorem Entry.Accepted.delivery (laws : NfcLaws) {delivery : InboxDelivery}
    {command : SubmitWagerCommand} (h : (Entry.consume delivery command).Accepted) :
    delivery.Fits := by
  cases h with
  | @consume rawBody parsed options message accepted consumer broker =>
    have hnormal := parseWagerMessage_normal laws accepted
    refine ⟨?_, hnormal.body.providerId.fits, hnormal.messageId.fits, ?_, broker⟩
    · change Text.Fits 64 options.consumerName
      rw [consumer]
      exact ⟨rfl, by decide +kernel⟩
    · obtain ⟨data, hhash⟩ := parseWagerMessage_hash accepted
      have hlength : parsed.inboxPayloadHash.length = 64 := hhash ▸ length_hexDigest _
      exact characters_le_of_length (Nat.le_of_eq hlength)

omit [Driver] in
theorem Entry.Accepted.wallet (laws : NfcLaws) {command : CreateWalletCommand}
    (h : (Entry.createWallet command).Accepted) : command.Fits := by
  cases h with
  | createWallet header parsed uuid =>
    unfold parseCreateWallet at parsed
    obtain ⟨source, -, parsed⟩ := bind_ok parsed
    obtain ⟨playerId, hplayer, parsed⟩ := bind_ok parsed
    obtain ⟨initialBalance, -, parsed⟩ := bind_ok parsed
    cases parsed
    exact ⟨(boundedString_clean laws hplayer).fits, requestCorrelationId_fits uuid⟩

omit [Driver] in
/-- A submission that fits fails with an integrity error only at a wallet's last version. -/
theorem SubmitFailure.integrity {command : SubmitWagerCommand} {sh : Shared} {l : Local}
    {violation : Violation}
    (h : SubmitFailure command sh l (.repository (.integrity violation))) (hfits : command.Fits) :
    ∃ v ∈ sh.db.wallets, 2147483647 ≤ v.version := by
  cases h with
  | refused hnot => exact absurd hfits hnot
  | version mem last => exact ⟨_, mem, last⟩

/-- No unit of work fails with an integrity error: the first that does would have
to be a request that does not fit, a clock that stepped back, or a wallet at its
last version. -/
theorem no_integrity (laws : NfcLaws) (h : Reachable w)
    (haccepted : ∀ s ∈ w.sessions, s.entry.Accepted) (horderly : Orderly w) (n : Nat) :
    ∀ {earlier later : List (Nat × Ending store Answer)} {i : Nat} {sh : Shared} {l : Local}
      {violation : Violation}, earlier.length = n →
      w.history ≠ earlier ++ (i, .failed sh l (.repository (.integrity violation))) :: later := by
  induction n using Nat.strongRecOn with
  | ind n ih =>
    intro earlier later i sh l violation hlength hsplit
    obtain ⟨s, hs, -, hfails⟩ := h.sound.recorded hsplit
    have hmem : (i, Ending.failed sh l (.repository (.integrity violation))) ∈ w.history := by
      rw [hsplit]
      exact List.mem_append_right _ List.mem_cons_self
    have hentry := haccepted s (List.mem_of_getElem? hs)
    have hversions : ∀ v ∈ sh.db.wallets, ¬ 2147483647 ≤ v.version := by
      intro v hv hle
      have := horderly.versions i _ hmem v hv
      omega
    have hsubmit : ∀ {command : SubmitWagerCommand}, s.entry.command? = some command →
        SubmitFailure command sh l (.repository (.integrity violation)) → False := by
      intro command hcommand hfailure
      obtain ⟨v, hv, hle⟩ := hfailure.integrity (hentry.fits laws hcommand)
      exact hversions v hv hle
    rcases hfails with houtage | hfails
    · cases houtage
    · generalize s.entry = entry at hentry hfails hsubmit
      cases entry with
      | createWallet command =>
        cases hfails with
        | refused hnot => exact hnot (hentry.wallet laws)
      | submit command => exact hsubmit rfl hfails
      | consume delivery command =>
        cases hfails with
        | submission hfailure => exact hsubmit rfl hfailure
        | refused hnot => exact hnot (hentry.delivery laws)
        | clock hnot => exact hnot (horderly.clocks i _ hmem)
      | resolvePending =>
        generalize hpast : World.pastOf i earlier = past at hfails
        cases hfails with
        | version mem last => exact hversions _ mem last
        | @rethrown before _ loc _ failure =>
          -- the second transaction repeats what the first one failed with
          have hfirst : (i, Ending.failed before loc (.repository (.integrity violation))) ∈
              earlier := World.mem_pastOf.mp (by rw [hpast]; exact List.mem_singleton.mpr rfl)
          obtain ⟨earlier', later', rfl⟩ := List.append_of_mem hfirst
          refine @ih earlier'.length ?_ earlier' _ i before loc violation rfl
            (by rw [hsplit, List.append_assoc]; rfl)
          rw [← hlength, List.length_append, List.length_cons]
          omega

/-- In every state that a sane run reaches while clocks and versions behave. -/
theorem schemaSilent (laws : NfcLaws) {actions : List (Action store Entry)}
    (hrun : World.run units Service.start actions = some w)
    (hsane : ∀ action ∈ actions, Sane action) (horderly : Orderly w) : SchemaSilent w := by
  have hstate := saneState_start.run hsane hrun
  have hreach := hstate.reachable
  constructor
  case refused =>
    intro i sh l violation hmem
    obtain ⟨earlier, later, hsplit⟩ := List.append_of_mem hmem
    exact no_integrity laws hreach hstate.accepted horderly earlier.length rfl hsplit
  case opened => exact fun i s l hs hl => (hreach.checked i).1 s l hs hl
  case ended => exact fun i ending he => (hreach.checked i).2 ending he
  case unique => exact hreach.sound.inv.keys
  case outbox =>
    intro m hm
    exact (hstate.fitting m hm).rules (hreach.outbox.1.sound.rows m hm)

end Runs

/-! ## A sample run of requests -/

section Sample

local instance schemaPlatform : Platform := samplePlatform

local instance schemaDriver : Driver := sampleDriver

/-- The body of a request that opens a wallet. -/
def walletJson : Json :=
  .object [(utf16 "playerId", .string (utf16 "p1")), (utf16 "initialBalance", .object
    [(utf16 "amount", .string (utf16 "100.00")), (utf16 "currency", .string (utf16 "BRL"))])]

def walletBody : CreateWalletBody := ⟨utf16 "p1", ⟨utf16 "100.00", utf16 "BRL"⟩⟩

def walletRequest : Entry :=
  .createWallet
    { playerId := walletBody.playerId, initialBalance := walletBody.initialBalance,
      correlationId := requestCorrelationId none (sampleId 16) }

def betRequest : Entry :=
  .submit ((sampleBody (sampleId 1)).command (utf16 "key-1")
    (requestCorrelationId none (sampleId 17)) (some (utf16 "req-1")))

theorem walletRequest_accepted : walletRequest.Accepted :=
  @Entry.Accepted.createWallet _ walletJson walletBody none (sampleId 16) (by decide +kernel)
    (by decide +kernel)

theorem betRequest_accepted : betRequest.Accepted :=
  @Entry.Accepted.submit _ (.object (sampleData (sampleId 1))) (sampleBody (sampleId 1))
    (some (utf16 "key-1")) 1 (utf16 "key-1") (utf16 "req-1") (sampleId 17) none
    (by decide +kernel) (by decide +kernel) (by decide +kernel)

/-- A wallet is opened, a bet is placed, the worker finds nothing that waits, and
a publisher sends one message. -/
def requestActions : List (Action store Entry) :=
  serve 0 walletRequest
    [.instant 1000, .identity (sampleId 1), .identity (sampleId 2), .identity (sampleId 3), .step,
      .step, .step, .step, .identity (sampleId 4), .identity (sampleId 5), .step] ++
  serve 1 betRequest
    [.instant 2000, .identity (sampleId 6), .step, .identity (sampleId 7), .step,
      .identity (sampleId 8), .step, .step, .step, .identity (sampleId 9), .step] ++
  serve 2 .resolvePending [.instant 3000, .step] ++
  [.ambient (.claim (utf16 "p") [] 5000 30000), .ambient (.publish (utf16 "p") none),
    .ambient (.complete (utf16 "p") 5000 0)]

theorem request_runs : (World.run units Service.start requestActions).isSome = true := by
  decide +kernel

/-- The state that these requests lead to. -/
@[irreducible] def requestService : Service :=
  (World.run units Service.start requestActions).get request_runs

theorem sane_serve {entry : Entry} (h : entry.Accepted) (i : Nat) (inputs : List Input) :
    ∀ action ∈ serve i entry inputs, Sane action := by
  intro action haction
  rw [serve, List.cons_append, List.mem_cons, List.mem_append, List.mem_singleton, calls,
    List.mem_map] at haction
  rcases haction with rfl | ⟨input, -, rfl⟩ | rfl
  · exact h
  · exact trivial
  · exact trivial

theorem requestActions_sane : ∀ action ∈ requestActions, Sane action := by
  unfold requestActions
  simp only [List.forall_mem_append, List.forall_mem_cons]
  exact ⟨⟨⟨sane_serve walletRequest_accepted 0 _, sane_serve betRequest_accepted 1 _⟩,
    sane_serve .resolvePending 2 _⟩, ⟨by decide +kernel, by decide +kernel⟩, trivial,
    ⟨by decide +kernel, by decide +kernel, by decide +kernel⟩, by simp⟩

theorem requestService_orderly : Orderly requestService := by
  have hall : ∀ x ∈ requestService.history,
      (x.2.loc.readings.Pairwise fun later earlier => earlier ≤ later) ∧
        ∀ v ∈ x.2.before.db.wallets, v.version + 1 < 2147483648 := by
    decide +kernel
  exact ⟨fun i ending h => (hall (i, ending) h).1, fun i ending h => (hall (i, ending) h).2⟩

theorem sample_schemaSilent : SchemaSilent requestService := by
  have hrun : World.run units Service.start requestActions = some requestService := by
    unfold requestService
    exact (Option.some_get request_runs).symm
  exact schemaSilent sample_nfcLaws hrun requestActions_sane requestService_orderly

end Sample

end Wagering
