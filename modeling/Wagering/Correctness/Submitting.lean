import Wagering.Correctness.Reserving

/-!
# Submissions

What a submission that commits has done (`Submission`), what one that fails
failed with (`SubmitFailure`), and that `executeWithin` keeps to both whatever
command it is given.
-/

namespace Wagering

open Interleave

variable {sh sh' : Shared} {l l' : Local} {command : SubmitWagerCommand}

/-! ## What a command names -/

/-- The row has the command's idempotency key. -/
structure SubmitWagerCommand.NamesKey (command : SubmitWagerCommand) (row : WagerTransactionRow) :
    Prop where
  providerId : row.providerId = Text.stored command.providerId
  idempotencyKey : row.idempotencyKey = Text.stored command.idempotencyKey

/-- The row has the command's external transaction id. -/
structure SubmitWagerCommand.NamesExternal (command : SubmitWagerCommand)
    (row : WagerTransactionRow) : Prop where
  providerId : row.providerId = Text.stored command.providerId
  externalTransactionId : row.externalTransactionId = Text.stored command.externalTransactionId

theorem SubmitWagerCommand.NamesKey.congr {r r' : WagerTransactionRow} (h : command.NamesKey r)
    (same : SameIdentity r r') : command.NamesKey r' :=
  ⟨same.providerId ▸ h.providerId, same.idempotencyKey ▸ h.idempotencyKey⟩

theorem SubmitWagerCommand.NamesExternal.congr {r r' : WagerTransactionRow}
    (h : command.NamesExternal r) (same : SameIdentity r r') : command.NamesExternal r' :=
  ⟨same.providerId ▸ h.providerId, same.externalTransactionId ▸ h.externalTransactionId⟩

/-! ## Endings -/

/-- The submission lost its reservation when the committed tables were `db`, and
has written nothing. -/
structure Lost (command : SubmitWagerCommand) (db : Database) (sh : Shared) (l : Local) : Prop where
  lostAt : l.lostAt = some db
  idle : businessOf l.log = []
  kept : ∀ r ∈ db.wagers, ∃ r' ∈ sh.db.wagers, SameIdentity r r'
  taken : ∃ r ∈ db.wagers, command.NamesKey r ∨ command.NamesExternal r

theorem Lost.rely {db : Database} (h : Lost command db sh l) (hr : Rely l sh sh') :
    Lost command db sh' l :=
  { h with
    kept := fun r hmem => by
      obtain ⟨r', hr', same⟩ := h.kept r hmem
      obtain ⟨r'', hr'', same', -⟩ := hr.wagers r' hr'
      exact ⟨r'', hr'', same.trans same'⟩ }

variable [Platform]

theorem SubmitWagerCommand.NamesKey.eq {r r' : WagerTransactionRow} (h : command.NamesKey r)
    (h' : command.NamesKey r') (hs : Sound sh) (hr : r ∈ sh.db.wagers) (hr' : r' ∈ sh.db.wagers) :
    r = r' :=
  hs.wager_eq hr hr' (.wagerIdempotency r.providerId r.idempotencyKey)
    (by simp [WagerTransactionRow.uniqueKeys])
    (by simp [WagerTransactionRow.uniqueKeys, h.providerId, h.idempotencyKey, h'.providerId,
      h'.idempotencyKey])

theorem SubmitWagerCommand.NamesExternal.eq {r r' : WagerTransactionRow}
    (h : command.NamesExternal r) (h' : command.NamesExternal r') (hs : Sound sh)
    (hr : r ∈ sh.db.wagers) (hr' : r' ∈ sh.db.wagers) : r = r' :=
  hs.wager_eq hr hr' (.wagerExternal r.providerId r.externalTransactionId)
    (by simp [WagerTransactionRow.uniqueKeys])
    (by simp [WagerTransactionRow.uniqueKeys, h.providerId, h.externalTransactionId, h'.providerId,
      h'.externalTransactionId])

/-- The row was hashed from the payload of the command. -/
def SubmitWagerCommand.Matches (command : SubmitWagerCommand) (row : WagerTransactionRow) : Prop :=
  ∃ money, Money.from command.money = .ok money ∧
    row.payloadHash = payloadHashOf (command.payload money)

/-- The domain accepts the command. -/
structure SubmitWagerCommand.Acceptable (command : SubmitWagerCommand) : Prop where
  money : ∃ money, Money.from command.money = .ok money ∧ 0 < money.cents
  kind : command.kind ≠ .opening
  providerId : command.providerId ≠ internalProviderId
  reference : command.kind.isReversal = true →
    (command.referenceExternalTransactionId.getD []).isEmpty = false

/-- The texts of the command fit their columns, and it names a reference only
where its kind may have one. -/
structure SubmitWagerCommand.Fits (command : SubmitWagerCommand) : Prop where
  providerId : Text.Fits 64 command.providerId
  externalTransactionId : Text.Fits 128 command.externalTransactionId
  idempotencyKey : Text.Fits 255 command.idempotencyKey
  playerId : Text.Fits 64 command.playerId
  walletId : isUuid command.walletId = true
  roundId : Text.Fits 128 command.roundId
  gameId : Text.Fits 128 command.gameId
  reference : ∀ external ∈ command.referenceExternalTransactionId, Text.Fits 128 external
  unreferenced : command.kind = .bet ∨ command.kind = .loss →
    command.referenceExternalTransactionId = none
  correlationId : Text.Fits 128 command.correlationId

/-- The schema takes the reservation of a command that fits. -/
theorem SubmitWagerCommand.Fits.rules (hfits : command.Fits) {money : Money} {id : Text}
    {now : Instant} {t : WagerTransaction} (hnow : now.isReading = true)
    (hcreate : WagerTransaction.create (command.props id money now) = .ok t) :
    ∀ rule ∈ wagerColumnRules (toWagerTransactionRow t) ++ wagerCheckRules (toWagerTransactionRow t),
      rule.holds = true := by
  obtain ⟨hkind, -, hreserve⟩ := WagerTransaction.create_ok hcreate
  obtain ⟨href, hpos, rfl⟩ := WagerTransaction.reserve_ok hreserve
  have hiso := isIsoCurrency_format money.isoCurrency
  have hhash : (payloadHashOf (command.payload money)).length = 64 := length_payloadHashOf _
  rw [List.forall_mem_append]
  constructor
  · simp only [wagerColumnRules, List.forall_mem_cons, toWagerTransactionRow,
      SubmitWagerCommand.props]
    exact ⟨hfits.providerId.text _, hfits.externalTransactionId.text _, hfits.idempotencyKey.text _,
      hfits.playerId.text _, hfits.roundId.text _, hfits.gameId.text _,
      optional_holds fun r hr => (hfits.reference r hr).text _, hfits.correlationId.text _,
      hfits.walletId, hfits.providerId.length _, hfits.externalTransactionId.length _,
      hfits.idempotencyKey.length _,
      decide_eq_true (characters_le_of_length (Nat.le_of_eq hhash)), hfits.playerId.length _,
      hfits.roundId.length _, hfits.gameId.length _, decide_eq_true money.inRange,
      decide_eq_true hiso.2, optional_holds fun r hr => (hfits.reference r hr).length _, rfl, rfl,
      rfl, rfl, rfl, hfits.correlationId.length _, Instant.isReading_isTimestamp hnow, rfl, by simp⟩
  · simp only [wagerCheckRules, List.forall_mem_cons, toWagerTransactionRow,
      SubmitWagerCommand.props, check]
    refine ⟨decide_eq_true hpos, hiso.1, rfl, rfl, rfl, rfl, rfl, rfl, rfl, rfl, rfl, ?_, rfl, rfl,
      by simp⟩
    have hsome : command.kind.isReversal = true →
        command.referenceExternalTransactionId.isSome = true := by
      intro h
      have hnonempty := href h
      cases hr : command.referenceExternalTransactionId with
      | none => simp [SubmitWagerCommand.props, hr] at hnonempty
      | some r => rfl
    have hnone := hfits.unreferenced
    clear hcreate hreserve
    cases hk : command.kind with
    | opening => exact absurd hk hkind
    | bet => simpa [hk] using hnone
    | loss => simpa [hk] using hnone
    | win => rfl
    | refund => simpa using hsome (by rw [hk]; rfl)
    | rollback => simpa using hsome (by rw [hk]; rfl)

/-- What a submission that commits has done: it decided a new transaction, or it
replays one that was there. -/
inductive Submission (command : SubmitWagerCommand) (sh : Shared) (l : Local) :
    SubmitWagerResult → Prop
  | decided {d : Decision} {result : SubmitWagerResult} (concluded : Concluded d sh l)
    (key : command.NamesKey d.tx) (external : command.NamesExternal d.tx)
    (hash : command.Matches d.tx) (kept : l.lostAt = none)
    (inserted : .wagerIdempotency d.tx.providerId d.tx.idempotencyKey ∈ l.keys)
    {t : WagerTransaction} (stored : d.tx = toWagerTransactionRow t) (status : t.status ≠ .failed)
    (answer : result = resultOf t false) : Submission command sh l result
  | replayed {t : WagerTransaction} {db : Database} {row : WagerTransactionRow}
    (lost : Lost command db sh l) (mem : row ∈ sh.db.wagers)
    (same : SameIdentity (toWagerTransactionRow t) row)
    {db' : Database} (looked : l.lookedAt = some db') (read : toWagerTransactionRow t ∈ db'.wagers)
    (key : command.NamesKey row) (hash : command.Matches row) : Submission command sh l (replayOf t)

/-- What a submission may fail with, outages apart. -/
inductive SubmitFailure (command : SubmitWagerCommand) (sh : Shared) (l : Local) : Failure → Prop
  | conflict {db : Database} {row : WagerTransactionRow} (lost : Lost command db sh l)
    (mem : row ∈ sh.db.wagers) (key : command.NamesKey row) (hash : ¬ command.Matches row) :
    SubmitFailure command sh l (.application ⟨.idempotencyKeyConflict,
      utf16 "the idempotency key was already used with a different payload", some row.id⟩)
  | reused {db : Database} {row : WagerTransactionRow} (lost : Lost command db sh l)
    (unused : ∀ r ∈ db.wagers, ¬ command.NamesKey r) (mem : row ∈ sh.db.wagers)
    (external : command.NamesExternal row) :
    SubmitFailure command sh l (.application ⟨.externalTransactionIdReused,
      utf16 "externalTransactionId already belongs to another idempotency key", some row.id⟩)
  | refused {e : RepositoryError} (h : ¬ command.Fits) : SubmitFailure command sh l (.repository e)
  | invalid {e : DomainError} (h : ¬ command.Acceptable) : SubmitFailure command sh l (.domain e)
  | notPositive (h : ¬ command.Acceptable) :
    SubmitFailure command sh l (.application ⟨.amountNotPositive,
      utf16 "amount must be greater than zero", none⟩)
  | version {w : WalletRow} (mem : w ∈ sh.db.wallets) (last : 2147483647 ≤ w.version) :
    SubmitFailure command sh l (.repository (.integrity (.outOfRange (utf16 "version"))))
  | payload {t : Text} (mem : t ∈ command.correlationId :: command.causationId.toList)
    (bad : isPlain t = false) :
    SubmitFailure command sh l (.repository (.malformedText (utf16 "payload")))

theorem Submission.rely {result : SubmitWagerResult} (h : Submission command sh l result)
    (hr : Rely l sh sh') (hs' : Sound sh') (ho' : Own sh' l) :
    Submission command sh' l result := by
  cases h with
  | decided concluded key external hash kept inserted stored status answer =>
    exact .decided (concluded.rely hr hs' ho') key external hash kept inserted stored status answer
  | @replayed t db row lost mem same db' looked read key hash =>
    obtain ⟨row', hrow', same', -⟩ := hr.wagers row mem
    obtain ⟨money, hmoney, hhash⟩ := hash
    exact .replayed (lost.rely hr) hrow' (same.trans same') looked read (key.congr same')
      ⟨money, hmoney, same'.payloadHash ▸ hhash⟩

theorem Submission.alike {result : SubmitWagerResult} (h : Submission command sh l result)
    (hl : l.Alike l') : Submission command sh l' result := by
  cases h with
  | decided concluded key external hash kept inserted stored status answer =>
    exact .decided (concluded.alike hl) key external hash (hl.lostAt.trans kept)
      (hl.keys ▸ inserted) stored status answer
  | replayed lost mem same looked read key hash =>
    exact .replayed ⟨hl.lostAt.trans lost.lostAt, hl.business.trans lost.idle, lost.kept, lost.taken⟩
      mem same (hl.lookedAt.trans looked) read key hash

/-! ## The code -/

variable {P : Shared → Local → SubmitWagerResult → Prop} {F : Shared → Local → Failure → Prop}

/-- `resolveExisting`: the row that won is there, so one of the lookups finds it. -/
theorem wp_resolveExisting {money : Money} (hlost : Lost command sh.db sh l)
    (hmoney : Money.from command.money = .ok money)
    (hP : ∀ sh' db' result, Submission command sh' { l with lookedAt := some db' } result →
      P sh' { l with lookedAt := some db' } result)
    (hF : ∀ sh' l' e, SubmitFailure command sh' l' e → F sh' l' e) :
    (resolveExisting command (payloadHashOf (command.payload money))).wp discipline P F sh l := by
  refine wp_findByIdempotencyKey fun sh1 hr1 hs1 ho1 => ?_
  have hlost1 : Lost command sh.db sh1 { l with lookedAt := some sh1.db } :=
    ⟨hlost.lostAt, hlost.idle, (hlost.rely hr1).kept, hlost.taken⟩
  rw [Database.wagerByKey, view_wagers_idle hlost.idle]
  refine ⟨hs1.wagers, fun answer hreads => ?_⟩
  cases answer with
  | some byKey =>
    have hfound := hreads.row.symm
    have hmem := Keyed.mem_of_lookup hfound
    have hkey := Keyed.key_of_lookup hfound
    simp only [Prod.mk.injEq] at hkey
    have hnames : command.NamesKey (toWagerTransactionRow byKey) := ⟨hkey.1, hkey.2⟩
    have hmatches : command.Matches (toWagerTransactionRow byKey) ↔
        byKey.payloadHash = payloadHashOf (command.payload money) := by
      constructor
      · rintro ⟨money', hmoney', hhash⟩
        rw [hmoney, Except.ok.injEq] at hmoney'
        exact hmoney' ▸ hhash
      · exact fun h => ⟨money, hmoney, h⟩
    by_cases hhash : byKey.payloadHash = payloadHashOf (command.payload money)
    · simp only [WagerTransaction.matchesPayload, hhash, decide_true, Bool.not_true,
        Bool.false_eq_true, if_false]
      refine wp_pure fun sh2 hr2 hs2 ho2 => hP _ _ _ ?_
      obtain ⟨row, hrow, same, -⟩ := hr2.wagers _ hmem
      exact .replayed (hlost1.rely hr2) hrow same rfl hmem (hnames.congr same)
        ⟨money, hmoney, same.payloadHash ▸ hhash⟩
    · simp only [WagerTransaction.matchesPayload, hhash, decide_false, Bool.not_false, if_true]
      refine wp_raise fun sh2 hr2 hs2 ho2 => hF _ _ _ ?_
      obtain ⟨row, hrow, same, -⟩ := hr2.wagers _ hmem
      rw [show byKey.id = row.id from same.id]
      refine .conflict (hlost1.rely hr2) hrow (hnames.congr same) fun h => hhash (hmatches.mp ?_)
      obtain ⟨money', hmoney', h⟩ := h
      exact ⟨money', hmoney', same.payloadHash.trans h⟩
  | none =>
    have hnone := Keyed.lookup_eq_none.mp hreads.row.symm
    have hunused : ∀ r ∈ sh1.db.wagers, ¬ command.NamesKey r := fun r hr h =>
      hnone r hr (Prod.ext h.providerId h.idempotencyKey)
    have hunused' : ∀ r ∈ sh.db.wagers, ¬ command.NamesKey r := fun r hr h => by
      obtain ⟨r', hr', same⟩ := hlost1.kept r hr
      exact hunused r' hr' (h.congr same)
    refine wp_findByExternalId fun sh2 hr2 hs2 ho2 => ?_
    have hlost2 := hlost1.rely hr2
    rw [Database.wagerByExternal, view_wagers_idle hlost2.idle]
    refine ⟨hs2.wagers, fun answer hreads => ?_⟩
    cases answer with
    | some byExternal =>
      have hfound := hreads.row.symm
      have hmem := Keyed.mem_of_lookup hfound
      have hkey := Keyed.key_of_lookup hfound
      simp only [Prod.mk.injEq] at hkey
      refine wp_raise fun sh3 hr3 hs3 ho3 => hF _ _ _ ?_
      obtain ⟨row, hrow, same, -⟩ := hr3.wagers _ hmem
      rw [show byExternal.id = row.id from same.id]
      refine .reused (hlost2.rely hr3) hunused' hrow (.congr ⟨hkey.1, hkey.2⟩ same)
    | none =>
      have hnone := Keyed.lookup_eq_none.mp hreads.row.symm
      obtain ⟨r, hr, h | h⟩ := hlost2.taken
      · exact absurd h (hunused' r hr)
      · obtain ⟨r', hr', same⟩ := hlost2.kept r hr
        have h' := h.congr same
        exact absurd (Prod.ext h'.providerId h'.externalTransactionId) (hnone r' hr')

theorem SubmitWagerCommand.refusals (eventId : Text) (now : Instant)
    (hF : ∀ sh l e, SubmitFailure command sh l e → F sh l e) :
    Refusals F
      { eventId, correlationId := command.correlationId, causationId := command.causationId,
        occurredAt := now } :=
  ⟨fun hw hv => hF _ _ _ (.version hw hv), fun ht hbad => hF _ _ _ (.payload ht hbad)⟩

/-- `executeWithin`, from the transaction that it created on. -/
theorem wp_reserveCreated {money : Money} {id : Text} {now : Instant} {t : WagerTransaction}
    (hmoney : Money.from command.money = .ok money)
    (huuid : isCanonicalUuid id = true) (hnow : now.isReading = true)
    (hcreate : WagerTransaction.create (command.props id money now) = .ok t)
    (hid : id ∈ l.ids) (hlog : businessOf l.log = []) (hlost : l.lostAt = none)
    (hP : ∀ sh' l' result, Submission command sh' l' result → inboxOf l'.log = inboxOf l.log →
      l.readings <:+ l'.readings → P sh' l' result)
    (hF : ∀ sh' l' e, SubmitFailure command sh' l' e → F sh' l' e) :
    (call (.reserve t) >>= fun answer =>
      match answer with
      | none => resolveExisting command (payloadHashOf (command.payload money))
      | some owned => apply owned command now).wp discipline P F sh l := by
  obtain ⟨hkind, hprovider, hreserve⟩ := WagerTransaction.create_ok hcreate
  obtain ⟨-, -, ht⟩ := WagerTransaction.reserve_ok hreserve
  have htid : t.id = id := by rw [ht]; rfl
  refine wp_reserve (by rw [ht]) fun sh1 hr1 hs1 ho1 =>
    ⟨fun e he => ?refused, fun _ hconflict => ?lost, fun hrules _ => ?owned⟩
  case refused =>
    refine hF _ _ _ (.refused fun hfits => ?_)
    rw [refusal_eq_none.mpr (hfits.rules hnow hcreate)] at he
    cases he
  case lost =>
    have htaken : ∃ r ∈ sh1.db.wagers, command.NamesKey r ∨ command.NamesExternal r := by
      obtain ⟨r, hr, h⟩ := reserve_conflict hlog ho1 (htid.symm ▸ hid : t.id ∈ l.ids) hconflict
      rw [ht] at h
      exact ⟨r, hr, h.imp (fun ⟨h, h'⟩ => ⟨h, h'⟩) fun ⟨h, h'⟩ => ⟨h, h'⟩⟩
    exact wp_resolveExisting
      ⟨rfl, hlog, fun r hr => ⟨r, hr, .refl r⟩, htaken⟩ hmoney
      (fun sh' db' result h => hP _ _ _ h rfl (List.suffix_refl _)) fun sh' l' e h => hF _ _ _ h
  case owned =>
    have hinternal : Text.stored t.providerId ≠ internalProviderId := by
      intro h
      refine hprovider ?_
      rw [← Text.eq_of_stored_eq (by decide) h, ht]
    have hrules := refusal_eq_none.mp hrules
    have hvalid := stored_valid (by rw [ht]) (by rw [ht]) (by rw [htid]; exact huuid) hrules
      fun h => absurd h hinternal
    have hwallet : isUuid command.walletId = true := by
      have hcolumns := (List.forall_mem_append.mp hrules).1
      simp only [wagerColumnRules, List.forall_mem_cons] at hcolumns
      rw [ht] at hcolumns
      exact hcolumns.2.2.2.2.2.2.2.2.1
    obtain ⟨owned, hload, hrow, hstorable⟩ := hvalid.load
    refine ⟨owned, hload, ?_⟩
    have hand : InHand owned sh1 (l.push (.insertWager (toWagerTransactionRow t).stored)) :=
      inHand_reserved hlog (htid ▸ hid) (by rw [ht]) (by rw [ht]) (by rw [ht]) (by rw [ht])
        (by rw [ht]; exact hkind) hvalid hrow hstorable
    have hcolumn := fun {α : Type} (f : WagerTransactionRow → α) => congrArg f hrow
    refine wp_apply hand ((hcolumn (·.status)).trans (by rw [ht]; rfl)) hwallet
      ((hcolumn (·.walletId)).trans (by rw [ht]; rfl)) hnow
      (fun eventId => SubmitWagerCommand.refusals eventId now hF) fun sh' l' result hd => ?_
    obtain ⟨d, t', hc, htx, same, hstatus, hresult⟩ := hd.decision
    rw [← htx] at same
    have hfailed : t'.status ≠ .failed := by
      rcases hstatus with h | h | ⟨-, h⟩ <;> rw [h] <;> decide
    have hpushed := ((Local.Follows.refl l).push (.insertWager _) rfl).trans hd.follows
    rw [hrow] at same
    refine hP _ _ _ ?_ hpushed.inbox hpushed.readings
    have hprovider' : d.tx.providerId = Text.stored command.providerId :=
      same.providerId.symm.trans (by rw [ht]; rfl)
    have hkey : d.tx.idempotencyKey = Text.stored command.idempotencyKey :=
      same.idempotencyKey.symm.trans (by rw [ht]; rfl)
    refine .decided hc ⟨hprovider', hkey⟩ ⟨hprovider', ?external⟩ ⟨money, hmoney, ?hash⟩
      (hpushed.lostAt.trans hlost) ?inserted htx hfailed hresult
    case external => exact same.externalTransactionId.symm.trans (by rw [ht]; rfl)
    case hash => exact same.payloadHash.symm.trans (by rw [ht]; rfl)
    case inserted =>
      refine hd.follows.keys ?_
      rw [Local.push_keys, ← same.providerId, ← same.idempotencyKey]
      exact List.mem_append_right _ (by simp [Write.uniqueKeys, WagerTransactionRow.uniqueKeys])

/-- `executeWithin`, in a transaction that has touched nothing but the inbox. -/
theorem wp_executeWithin (hlog : businessOf l.log = []) (hlost : l.lostAt = none)
    (hP : ∀ sh' l' result, Submission command sh' l' result → inboxOf l'.log = inboxOf l.log →
      l.readings <:+ l'.readings → P sh' l' result)
    (hF : ∀ sh' l' e, SubmitFailure command sh' l' e → F sh' l' e) :
    (executeWithin command).wp discipline P F sh l := by
  unfold executeWithin
  cases hmoney : Money.from command.money with
  | error e =>
    refine wp_raise fun sh' _ _ _ => hF _ _ _ (.invalid fun h => ?_)
    obtain ⟨money, hok, -⟩ := h.money
    rw [hmoney] at hok
    cases hok
  | ok money =>
  rw [domain_ok, Program.pure_ctor_bind_eq]
  by_cases hpos : 0 < money.cents
  case neg =>
    simp only [Money.isPositive, hpos, decide_false, Bool.not_false, if_true]
    refine wp_raise fun sh' _ _ _ => hF _ _ _ (.notPositive fun h => ?_)
    obtain ⟨money', hok, hpos'⟩ := h.money
    rw [hmoney] at hok
    cases hok
    exact hpos hpos'
  case pos =>
  simp only [Money.isPositive, hpos, decide_true, Bool.not_true, Bool.false_eq_true, if_false]
  refine wp_now fun sh1 hr1 hs1 ho1 now hnow => ?_
  refine wp_nextId fun sh2 hr2 hs2 ho2 id huuid hfresh => ?_
  cases hcreate : WagerTransaction.create (command.props id money now) with
  | error e =>
    refine wp_raise fun sh' _ _ _ => hF _ _ _ (.invalid fun h => ?_)
    obtain ⟨t, hok⟩ := WagerTransaction.create_eq (command.props id money now) h.kind h.providerId
      h.reference hpos
    rw [hok] at hcreate
    cases hcreate
  | ok t =>
    rw [domain_ok, Program.pure_ctor_bind_eq]
    exact wp_reserveCreated hmoney huuid hnow hcreate List.mem_cons_self hlog hlost
      (fun sh' l' result h hinbox hreadings =>
        hP _ _ _ h hinbox ((List.suffix_cons _ _).trans hreadings)) hF

end Wagering
