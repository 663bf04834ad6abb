import Wagering.Correctness.Concluding
import Wagering.Correctness.Rules

/-!
# How a decision is carried out

Weakest preconditions of the helpers that submitting and resolving share:
`reject`, `process` and `applyResolvedReversal`.  Each ends with the decision
concluded, or with one of the few refusals that the schema still can make.
-/

namespace Wagering

open Interleave

variable [Platform] {α : Type} {sh : Shared} {l : Local} {t : WagerTransaction}
  {P : Shared → Local → SubmitWagerResult → Prop} {F : Shared → Local → Failure → Prop}
  {context : EventContext} {now : Instant}

/-- The refusals that no guard of the use cases rules out: a wallet at the last
version that its column holds, and a text of the caller that `jsonb` refuses. -/
structure Refusals (F : Shared → Local → Failure → Prop) (context : EventContext) : Prop where
  version : ∀ {sh l} {w : WalletRow}, w ∈ sh.db.wallets → 2147483647 ≤ w.version →
    F sh l (.repository (.integrity (.outOfRange (utf16 "version"))))
  payload : ∀ {sh l t}, t ∈ context.correlationId :: context.causationId.toList →
    isPlain t = false → F sh l (.repository (.malformedText (utf16 "payload")))

/-- The context of an event that can be sent now. -/
structure Usable (context : EventContext) (now : Instant) (l : Local) : Prop where
  eventId : context.eventId ∈ l.ids
  occurredAt : context.occurredAt.isTimestamp = true
  now : now.isReading = true

/-- The transaction in hand waits for its decision. -/
theorem InHand.waiting (h : InHand t sh l) : Waiting t := ⟨h.valid, h.notTerminal⟩

theorem InHand.identity {t' : WagerTransaction}
    (same : t'.toCreateWagerTransactionProps = t.toCreateWagerTransactionProps) :
    SameIdentity (toWagerTransactionRow t) (toWagerTransactionRow t') := by
  constructor <;> simp [toWagerTransactionRow, same]

theorem InHand.id_length (h : InHand t sh l) : t.id.length = 36 := by
  have := h.valid.uuid
  simp only [isCanonicalUuid, Bool.and_eq_true] at this
  exact (isUuid_plain this.1).2.2

/-- A decision for the transaction in hand. -/
theorem InHand.deciding (h : InHand t sh l) (ho : Own sh l) {t' : WagerTransaction}
    (same : t'.toCreateWagerTransactionProps = t.toCreateWagerTransactionProps)
    (hexpires : t'.expiresAt = t.expiresAt ∨
      t.status = .pending ∧ t'.status = .pendingReference)
    (hattempts : Recounts t t') (hvalid : (toWagerTransactionRow t').Valid)
    (hobserved : ∀ m ∈ t'.resultBalance,
      ∃ w ∈ sh.db.wallets, w.id = t.walletId ∧ w.currency = m.currency)
    {movement : Option (WalletLedgerEntryRow × WalletRow)} {events : List IntegrationEvent}
    (outcome : sh.db.books.Outcome (toWagerTransactionRow t') movement
      (events.map IntegrationEvent.data))
    (haggregates : ∀ ev ∈ events, ev.aggregateId = ev.data.aggregateId)
    (hwallet : t'.status = .processed → t'.walletId ∈ l.wallets) :
    Deciding ⟨toWagerTransactionRow t', movement, events⟩ [] sh l := by
  have hid := InHand.identity same
  exact
    { decides := h.decides ho same hexpires hattempts hobserved outcome haggregates
      valid := hvalid
      wager := by
        have hheld := h.holds_id
        rwa [show t.id = (toWagerTransactionRow t').id from hid.id] at hheld
      wallet := hwallet
      kind := by
        have hkind := h.kind
        rwa [show t.kind = (toWagerTransactionRow t').kind from hid.kind] at hkind
      ids := h.ids
      log := ⟨businessOf l.log, by simp, h.prior ho same⟩ }

/-- `updateWager` of a decision, the first of its statements. -/
theorem wp_updateDecided {t' : WagerTransaction} (d : Decision) {f : Unit → Code α}
    {P : Shared → Local → α → Prop} (hand : InHand t sh l)
    (same : t'.toCreateWagerTransactionProps = t.toCreateWagerTransactionProps)
    (htx : d.tx = toWagerTransactionRow t')
    (h : ∀ sh', Rely l sh sh' → Sound sh' → Own sh' l → Deciding d [] sh' l ∧
      (t'.status = .processed → t'.kind.isReversal = true →
        ∀ r ∈ t'.referenceTransactionId, hasActiveReversal sh'.db.wagers r = false) ∧
      (∀ r ∈ t'.referenceTransactionId, ∃ row ∈ sh'.db.wagers, row.id = r) ∧
      (Deciding d [.updateWager d.tx] sh' (l.push (.updateWager d.tx)) →
        (f ()).wp discipline P F sh' (l.push (.updateWager d.tx)))) :
    (call (.updateWager t') >>= f).wp discipline P F sh l := by
  refine wp_updateWager fun sh' hr hs ho => ?_
  obtain ⟨hdeciding, hguard, hreference, hnext⟩ := h sh' hr hs ho
  have hand' := hand.rely hr
  have hid := InHand.identity same
  have hlookup : (l.view sh'.db).wagerById t'.id = some (toWagerTransactionRow t) := by
    rw [show t'.id = t.id from hid.id.symm]
    exact hand'.lookup hs ho
  refine ⟨toWagerTransactionRow t, hlookup, ?_, ?_⟩
  · refine update_rules (htx ▸ hdeciding.valid) hid hand.notTerminal (fun hs hk r hr' => ?_)
      (fun r hr' => ?_) (fun m hm => ?_)
    · rw [hand'.view_hasActiveReversal]
      exact hguard hs hk r hr'
    · obtain ⟨row, hrow, heq⟩ := hreference r hr'
      exact ⟨row, hand'.mem_view.mpr (.inl hrow), heq⟩
    · rw [hand'.view_wallets]
      have hobserved := hdeciding.decides.observed m.currency
      rw [htx] at hobserved
      exact hobserved (by simp [toWagerTransactionRow, Option.mem_def.mp hm])
  · rw [hid.set_eq, ← htx]
    exact hnext (hdeciding.push _ rfl fun k hk => by cases hk)

/-- `enqueue` of a decision, the last of its statements. -/
theorem wp_announce {d : Decision} {done : List Write} {f : Unit → Code α}
    {P : Shared → Local → α → Prop} (h : Deciding d done sh l) (hne : d.events ≠ [])
    (hnodup : (d.events.map IntegrationEvent.eventId).Nodup)
    (hevents : ∀ ev ∈ d.events, ev.eventId ∈ l.ids ∧ ev.aggregateId.length ≤ 128 ∧
      ev.occurredAt.isTimestamp = true)
    (hnow : now.isTimestamp = true)
    (hdone : ∀ rows, rows ≠ [] → d.writes rows = done ++ [.insertOutbox rows])
    (hkeys : ∀ id, .outboxId id ∉ keysOf done) (hwallets : ∀ m ∈ d.movement, m.2.Valid)
    (hF : ∀ {sh'}, ∀ ev ∈ d.events, ∀ t ∈ ev.foreignTexts, isPlain t = false →
      F sh' l (.repository (.malformedText (utf16 "payload"))))
    (hnext : ∀ sh' l', Concluded d sh' l' → l.Follows l' → (f ()).wp discipline P F sh' l') :
    (call (.enqueue d.events now) >>= f).wp discipline P F sh l := by
  refine wp_enqueue hne hnodup fun sh' hr hs ho => ⟨fun ev hev => ?free, fun e he => ?refuse, ?next⟩
  case free =>
    rw [mem_uniqueKeys_view, not_or]
    refine ⟨fun hmem => (ho.ids _ (hevents ev hev).1).2 _ hmem rfl, fun hmem => ?_⟩
    rcases h.key_cases hmem with ⟨key, heq⟩ | ⟨row, hrow⟩ | hin
    · cases heq
    · simp [WagerTransactionRow.uniqueKeys] at hrow
    · exact hkeys _ hin
  case refuse =>
    obtain ⟨rfl, ev, hev, t, ht, hbad⟩ :=
      event_rules hnow (fun ev hev => ⟨(hevents ev hev).2.1, (hevents ev hev).2.2⟩) he
    exact hF ev hev t ht hbad
  case next =>
    have hrows : d.events.map (toOutboxRow now) ≠ [] := by simpa using hne
    have hpush : Deciding d (done ++ [.insertOutbox (d.events.map (toOutboxRow now))]) sh'
        (l.push (.insertOutbox (d.events.map (toOutboxRow now)))) := by
      refine (h.rely hr hs ho).push _ rfl fun k hk id hid => ?_
      simp only [Write.uniqueKeys, outboxKeys_eq, List.mem_map] at hk
      obtain ⟨-, ⟨ev, hev, rfl⟩, rfl⟩ := hk
      cases hid
      exact (hevents ev hev).1
    refine hnext _ _ ⟨⟨_, (hdone _ hrows) ▸ hpush, ?_⟩, hwallets⟩ ((Local.Follows.refl l).push _ rfl)
    simp [toOutboxRow, Function.comp_def]

/-- A decision that moves no wallet: the row, and one event about it. -/
theorem wp_still {t' : WagerTransaction} {ev : IntegrationEvent} {next : Code α}
    {P : Shared → Local → α → Prop} (hand : InHand t sh l)
    (same : t'.toCreateWagerTransactionProps = t.toCreateWagerTransactionProps)
    (hexpires : t'.expiresAt = t.expiresAt ∨
      t.status = .pending ∧ t'.status = .pendingReference)
    (hattempts : Recounts t t') (hvalid : (toWagerTransactionRow t').Valid)
    (houtcome : ∀ sh', Rely l sh sh' → Own sh' l →
      sh'.db.books.Outcome (toWagerTransactionRow t') none [ev.data])
    (hwallet : t'.status = .processed → t'.walletId ∈ l.wallets)
    (hreference : t'.referenceTransactionId = none)
    (hkind : t'.status = .processed → t'.kind.isReversal = false)
    (hbalance : ∀ m ∈ t'.resultBalance,
      ∃ w ∈ sh.db.wallets, w.id = t.walletId ∧ w.currency = m.currency)
    (haggregate : ev.aggregateId = ev.data.aggregateId ∧ ev.aggregateId = t'.id)
    (heventId : ev.eventId ∈ l.ids) (hoccurred : ev.occurredAt.isTimestamp = true)
    (hnow : now.isTimestamp = true)
    (hF : ∀ {sh l}, ∀ s ∈ ev.foreignTexts, isPlain s = false →
      F sh l (.repository (.malformedText (utf16 "payload"))))
    (hnext : ∀ sh' l', Concluded ⟨toWagerTransactionRow t', none, [ev]⟩ sh' l' → l.Follows l' →
      next.wp discipline P F sh' l') :
    (call (.updateWager t') >>= fun _ => call (.enqueue [ev] now) >>= fun _ => next).wp
      discipline P F sh l := by
  refine wp_updateDecided ⟨toWagerTransactionRow t', none, [ev]⟩ hand same rfl
    fun sh1 hr hs ho => ⟨?deciding, fun h hk => ?guard, fun r hr' => ?reference,
      fun hdeciding => ?announce⟩
  case deciding =>
    refine (hand.rely hr).deciding ho same hexpires hattempts hvalid (fun m hm => ?_)
      (houtcome sh1 hr ho)
      (fun ev' hev => ?_) hwallet
    · obtain ⟨w, hw, hid, hcur⟩ := hbalance m hm
      obtain ⟨w', hw', samew⟩ := hr.wallets w hw
      exact ⟨w', hw', samew.id.symm.trans hid, samew.currency.symm.trans hcur⟩
    · rw [List.mem_singleton] at hev
      exact hev ▸ haggregate.1
  case guard =>
    rw [hkind h] at hk
    cases hk
  case reference =>
    rw [hreference] at hr'
    cases hr'
  case announce =>
    have hlen : t'.id.length = 36 := by
      rw [same]
      exact hand.id_length
    refine wp_announce hdeciding (by simp) (by simp) (fun ev' hev => ?_) hnow
      (fun rows hrows => by simp [Decision.writes, hrows])
      (fun id hid => by simp [Write.uniqueKeys] at hid) (fun m hm => by cases hm)
      (fun ev' hev s hs' hbad => ?_)
      fun sh2 l2 hc hf => hnext sh2 l2 hc (((Local.Follows.refl l).push _ rfl).trans hf)
    · rw [List.mem_singleton] at hev
      subst hev
      exact ⟨heventId, by rw [haggregate.2, hlen]; decide, hoccurred⟩
    · rw [List.mem_singleton] at hev
      subst hev
      exact hF s hs' hbad

/-- What the outcome of a helper says about the transaction that it decided: the
row holds what the result answers. -/
structure Decided (t : WagerTransaction) (l : Local) (result : SubmitWagerResult) (sh' : Shared)
    (l' : Local) : Prop where
  follows : l.Follows l'
  decision : ∃ (d : Decision) (t' : WagerTransaction), Concluded d sh' l' ∧
    d.tx = toWagerTransactionRow t' ∧
    SameIdentity (toWagerTransactionRow t) (toWagerTransactionRow t') ∧
    (t'.status = .processed ∨ t'.status = .rejected ∨
      t.status = .pending ∧ t'.status = .pendingReference) ∧
    result = resultOf t' false

/-- `reject`. -/
theorem wp_reject {code : FailureCode} {balance : Option Money} (hand : InHand t sh l)
    (huse : Usable context now l) (hcode : code ≠ .infrastructureFailure)
    (hdisclosed : code.disclosesNoBalance = balance.isNone)
    (hbalance : ∀ m ∈ balance, 0 ≤ m.cents ∧
      (m.currency = t.money.currency ∨ code = .currencyMismatch) ∧
      ∃ w ∈ sh.db.wallets, w.id = t.walletId ∧ w.currency = m.currency)
    (hF : Refusals F context)
    (hP : ∀ sh' l' result, Decided t l result sh' l' → P sh' l' result) :
    (reject t code balance now context).wp discipline P F sh l := by
  have hnow := Instant.isReading_isTimestamp huse.now
  have hvalid := hand.waiting.rejected hcode hdisclosed hand.unresolved
    (fun m hm => (hbalance m hm).1) (fun m hm => (hbalance m hm).2.1) hnow
  have same : SameIdentity (toWagerTransactionRow t) (toWagerTransactionRow { t with
      status := .rejected, failureCode := some code, resultBalance := balance,
      processedAt := some now }) := InHand.identity rfl
  rw [reject, WagerTransaction.reject_eq hand.notTerminal hcode hdisclosed now, domain_ok,
    Program.pure_ctor_bind_eq]
  refine wp_still hand rfl (.inl rfl) (.inl ⟨rfl, fun h => by cases h⟩) hvalid
    (fun _ _ _ => .refused (.inl rfl) hand.kind hand.unresolved) (fun h => by cases h)
    hand.unresolved (fun h => by cases h) (fun m hm => (hbalance m hm).2.2) ⟨rfl, rfl⟩
    huse.eventId huse.occurredAt hnow (fun s hs => hF.payload hs) fun sh' l' hc hf => ?_
  refine wp_pure fun sh'' hr hs ho => hP _ _ _ ⟨hf, _, _, hc.rely hr hs ho, rfl, same, ?_, rfl⟩
  exact .inr (.inl rfl)

/-- `process`, for a transaction that moves no money. -/
theorem wp_process_still {w : Wallet} (hand : InHand t sh l) (hold : Holding w sh l)
    (hid : w.id = t.walletId) (hcurrency : w.currency = t.money.currency)
    (huse : Usable context now l) (hkind : t.kind = .loss) (hF : Refusals F context)
    (hP : ∀ sh' l' result, Decided t l result sh' l' → P sh' l' result) :
    (process t w none now context none).wp discipline P F sh l := by
  have hnow := Instant.isReading_isTimestamp huse.now
  have hreversal : t.kind.isReversal = false := by rw [hkind]; rfl
  have hvalid := hand.waiting.processed none w.balance (by simp)
    (fun h => by rw [hreversal] at h; cases h) hold.storable.nonneg hnow
  have same : SameIdentity (toWagerTransactionRow t) (toWagerTransactionRow { t with
      status := .processed, referenceTransactionId := none, resultBalance := some w.balance,
      processedAt := some now }) := InHand.identity rfl
  have hwallet : ∀ sh', Rely l sh sh' →
      ∃ w' ∈ sh'.db.wallets, w'.id = t.walletId ∧ w'.currency = t.money.currency :=
    fun sh' hr => ⟨_, (hold.rely hr).mem, hid, hcurrency⟩
  rw [process, WagerTransaction.markProcessed_eq hand.notTerminal, domain_ok,
    Program.pure_ctor_bind_eq]
  refine wp_still hand rfl (.inl rfl) (.inl ⟨rfl, fun h => by cases h⟩) hvalid
    (fun sh' hr _ => .unmoved rfl hkind rfl (hwallet sh' hr)) (fun _ => hid ▸ hold.lock) rfl
    (fun _ => hreversal) (fun m hm => ?_) ⟨rfl, rfl⟩ huse.eventId huse.occurredAt hnow
    (fun s hs => hF.payload hs) fun sh' l' hc hf => ?_
  · cases hm
    obtain ⟨w', hw', hid', hcur'⟩ := hwallet sh (.refl _ _)
    exact ⟨w', hw', hid', hcur'.trans (hcurrency.symm.trans hold.storable.currency.symm)⟩
  · refine wp_pure fun sh'' hr hs ho =>
      hP _ _ _ ⟨hf, _, _, hc.rely hr hs ho, rfl, same, ?_, rfl⟩
    exact .inl rfl

/-! ## Movements -/

/-- The tables while a decision's statements run. -/
theorem Deciding.view_eq {d : Decision} {done : List Write} (h : Deciding d done sh l) :
    ∃ prior, Prior sh.db d.tx prior ∧
      (l.view sh.db).wallets = (sh.db.after (prior ++ done)).wallets ∧
      (l.view sh.db).wagers = (sh.db.after (prior ++ done)).wagers := by
  obtain ⟨prior, hlog, hprior⟩ := h.log
  refine ⟨prior, hprior, ?_, ?_⟩
  · rw [Local.view, (after_business sh.db l.log).1, hlog]
  · rw [Local.view, (after_business sh.db l.log).2.1, hlog]

/-- The rows and events of a movement. -/
def movementDecision (t' : WagerTransaction) (entry : WalletLedgerEntry) (w' : Wallet)
    (context : EventContext) (eventId : Text) : Decision where
  tx := toWagerTransactionRow t'
  movement := some (toLedgerEntryRow entry, toWalletRow w')
  events :=
    [wagerTransactionProcessed t' context,
      walletBalanceChanged w' entry { context with eventId, causationId := some t'.id }]

/-- The movement of `w` that a transaction is due, as the domain computes it. -/
structure Movement (t : WagerTransaction) (w w' : Wallet) (entry : WalletLedgerEntry)
    (now : Instant) : Prop where
  walletId : w.id = t.walletId
  currency : w.currency = t.money.currency
  entryWallet : entry.walletId = w.id
  entryTransaction : entry.transactionId = t.id
  money : entry.money = t.money
  before : entry.balanceBefore = w.balance
  after : entry.balanceAfter = w'.balance
  createdAt : entry.createdAt = now
  arithmetic : w'.balance.cents = w.balance.cents + entry.direction.signed t.money.cents
  nonneg : 0 ≤ w'.balance.cents
  balanceCurrency : w'.balance.currency = w.currency
  moved : w' = { w with
    balance := w'.balance
    version := w.version + 1
    updatedAt := if now > w.updatedAt then now else w.updatedAt }

theorem Movement.same {w w' : Wallet} {entry : WalletLedgerEntry} (h : Movement t w w' entry now) :
    SameWallet (toWalletRow w) (toWalletRow w') := by
  rw [h.moved]
  exact ⟨rfl, rfl, rfl, rfl⟩

/-- In the books the movement is what the transaction is due. -/
theorem Movement.outcome {w w' : Wallet} {entry : WalletLedgerEntry} {referenceId : Option Text}
    (h : Movement t w w' entry now) (hold : Holding w sh l) (hkind : t.kind ≠ .opening)
    (hent : Entitled t referenceId entry.direction sh) {t' : WagerTransaction}
    (ht : t' = { t with
      status := .processed, referenceTransactionId := referenceId,
      resultBalance := some w'.balance, processedAt := some now }) (eventId : Text) :
    sh.db.books.Outcome (toWagerTransactionRow t') (some (toLedgerEntryRow entry, toWalletRow w'))
      ((movementDecision t' entry w' context eventId).events.map IntegrationEvent.data) := by
  have hid : w'.id = w.id := h.same.id.symm
  have hversion : w'.version = w.version + 1 := by rw [h.moved]
  have hbalance : w.balance.currency = t.money.currency := hold.storable.currency.trans h.currency
  have hdata : (movementDecision t' entry w' context eventId).events.map IntegrationEvent.data =
      [(toWagerTransactionRow t').processedData,
        .balanceChanged ((toLedgerEntryRow entry).changedData (toWalletRow w').version)] := by
    subst ht
    simp [movementDecision, wagerTransactionProcessed, walletBalanceChanged,
      WagerTransactionRow.processedData, WalletLedgerEntryRow.changedData, toWagerTransactionRow,
      toLedgerEntryRow, toWalletRow, Money.toJSON, Money.toString, moneyText, hid, h.entryWallet,
      h.before, h.after, h.money, h.balanceCurrency, hbalance, h.currency]
  have hmoves : sh.db.books.Moves (toWagerTransactionRow t') (toLedgerEntryRow entry)
      (toWalletRow w) (toWalletRow w') := by
    subst ht
    exact
      { wallet := hold.mem
        walletId := h.walletId
        walletCurrency := h.currency
        same := h.same
        entryWallet := h.entryWallet.trans h.walletId
        entryTransaction := h.entryTransaction
        amount := congrArg Money.cents h.money
        currency := congrArg Money.currency h.money
        before := congrArg Money.cents h.before
        after := congrArg Money.cents h.after
        arithmetic := by
          simpa [WalletLedgerEntryRow.signed, toLedgerEntryRow, toWalletRow, h.money]
            using h.arithmetic
        nonneg := h.nonneg
        inRange := w'.balance.inRange
        directed := hent.directed
        version := hversion.trans (if_neg hkind).symm
        first := fun hk => absurd hk hkind }
  rw [hdata]
  subst ht
  refine .moved rfl hmoves (fun hk => ?_) hent.linked
  obtain ⟨r, hr, hrid, hrev, hno⟩ := hent.reversal hk
  exact ⟨r, hr, hrid, ⟨hrev.processed, hrev.kind, hrev.providerId, hrev.playerId, hrev.walletId,
    hrev.roundId, hrev.currency, hrev.amount⟩, hno⟩

/-- The entry, the wallet and the two events of a movement, after its row. -/
theorem wp_movementStatements {t' : WagerTransaction} {w w' : Wallet} {entry : WalletLedgerEntry}
    {next : Text → Code α} {P : Shared → Local → α → Prop}
    (hdeciding : Deciding (movementDecision t' entry w' context context.eventId)
      [.updateWager (toWagerTransactionRow t')] sh l)
    (hid : t'.id = t.id) (hold : Holding w sh l) (hmove : Movement t w w' entry now)
    (hpos : 0 < t.money.cents) (hentry : entry.id ∈ l.ids) (huse : Usable context now l)
    (hF : Refusals F context)
    (hnext : ∀ sh' l' eventId, Concluded (movementDecision t' entry w' context eventId) sh' l' →
      l.Follows l' → (next eventId).wp discipline P F sh' l') :
    (call (.insertLedger entry) >>= fun _ => call (.updateWallet w') >>= fun _ =>
      call .nextId >>= fun eventId =>
        call (.enqueue
          [wagerTransactionProcessed t' context,
           walletBalanceChanged w' entry
             { context with eventId, causationId := some t'.id }] now) >>= fun _ =>
          next eventId).wp discipline P F sh l := by
  have hnow := Instant.isReading_isTimestamp huse.now
  have huuid : isUuid t'.id = true := hdeciding.valid.canonical
  have hsame := hmove.same
  refine wp_insertLedger fun sh1 hr1 hs1 ho1 => ?_
  have hd1 := hdeciding.rely hr1 hs1 ho1
  have hold1 := hold.rely hr1
  obtain ⟨prior, hprior, hwallets, hwagers⟩ := hd1.view_eq
  have hviewWallets : (l.view sh1.db).wallets = sh1.db.wallets := by
    rw [hwallets, Database.after_append]
    exact hprior.wallets
  refine ⟨?rules, fun k hk => ?keys, ?wallet, ?wager, ?rest⟩
  case rules =>
    refine entry_rules (by rw [hmove.money]; exact hpos) ?_ ?_ ?_ ?_
    · rw [hmove.before]
      exact hold.storable.nonneg
    · rw [hmove.after]
      exact hmove.nonneg
    · rw [hmove.after, hmove.before, hmove.money]
      exact hmove.arithmetic
    · rw [hmove.createdAt]
      exact hnow
  case keys =>
    rw [mem_uniqueKeys_view, not_or]
    constructor
    · intro hmem
      simp only [WalletLedgerEntryRow.uniqueKeys, List.mem_cons, List.not_mem_nil, or_false] at hk
      rcases hk with rfl | rfl
      · exact (ho1.ids _ hentry).2 _ hmem rfl
      · obtain ⟨e, he, htid, -⟩ := ledgerTransaction_mem_iff.mp hmem
        have hnone := hd1.decides.entriesOf_before hs1.books
        have hin : e ∈ sh1.db.books.entriesOf t'.id := List.mem_filter.mpr
          ⟨he, decide_eq_true (htid.trans (hmove.entryTransaction.trans hid.symm))⟩
        rw [show sh1.db.books.entriesOf t'.id = [] from hnone] at hin
        cases hin
    · intro hmem
      simp only [WalletLedgerEntryRow.uniqueKeys, List.mem_cons, List.not_mem_nil, or_false] at hk
      rcases hd1.key_cases hmem with ⟨key, heq⟩ | ⟨row, hrow⟩ | hin
      · rcases hk with rfl | rfl <;> cases heq
      · rcases hk with rfl | rfl <;> simp [WagerTransactionRow.uniqueKeys] at hrow
      · simp [Write.uniqueKeys] at hin
  case wallet =>
    refine ⟨toWalletRow w, hviewWallets ▸ hold1.mem, hmove.entryWallet.symm, ?_⟩
    rw [hmove.money]
    exact hmove.currency
  case wager =>
    obtain ⟨r, hr, hrid⟩ := hprior.mem_updated
    exact ⟨r, hwagers ▸ hr, hrid.trans (hid.trans hmove.entryTransaction.symm)⟩
  case rest =>
    have hd1' := hd1.push (.insertLedger (toLedgerEntryRow entry)) rfl fun k hk id hkid => by
      simp only [Write.uniqueKeys, WalletLedgerEntryRow.uniqueKeys, List.mem_cons,
        List.not_mem_nil, or_false] at hk
      rcases hk with rfl | rfl <;> cases hkid
      exact hentry
    have hold1' : Holding w sh1 (l.push (.insertLedger (toLedgerEntryRow entry))) :=
      ⟨hold1.mem, hold1.lock, hold1.storable⟩
    refine wp_updateWallet fun sh2 hr2 hs2 ho2 => ?_
    have hd2 := hd1'.rely hr2 hs2 ho2
    have hold2 := hold1'.rely hr2
    have hvalid := hs2.wallets _ hold2.mem
    obtain ⟨prior, hprior, hwallets, -⟩ := hd2.view_eq
    have hlookup : ((l.push (.insertLedger (toLedgerEntryRow entry))).view sh2.db).walletById w'.id =
        some (toWalletRow w) := by
      rw [Database.walletById, hwallets, Database.after_append,
        show w'.id = (toWalletRow w).id from hsame.id.symm]
      change Keyed.lookup WalletRow.id _ (sh2.db.after prior).wallets = _
      rw [hprior.wallets]
      exact hs2.books.walletIds.lookup hold2.mem
    refine ⟨toWalletRow w, hlookup, fun e he => ?_, fun hok => ?_⟩
    · rw [hmove.moved] at he
      obtain ⟨rfl, hversion⟩ := moved_wallet_rules hvalid hmove.nonneg hnow he
      exact hF.version hold2.mem hversion
    · have hvalid' := moved_wallet_valid hvalid hsame hok
      have hd2' := hd2.push (.updateWallet (toWalletRow w')) rfl fun k hk => by cases hk
      rw [hsame.set_eq]
      refine wp_nextId fun sh3 hr3 hs3 ho3 eventId heventId hfresh => ?_
      have hd3 : Deciding (movementDecision t' entry w' context eventId) _ sh3 _ :=
        ((hd2'.rely hr3 hs3 ho3).identified eventId).withEvents
          (movementDecision t' entry w' context eventId).events rfl fun ev hev => by
            simp only [movementDecision, List.mem_cons, List.not_mem_nil, or_false] at hev
            rcases hev with rfl | rfl <;> rfl
      have hne : context.eventId ≠ eventId := fun heq =>
        hfresh (heq ▸ (ho3.ids _ huse.eventId).1)
      refine wp_announce hd3 (by simp [movementDecision]) ?nodup (fun ev hev => ?events) hnow
        (fun rows hrows => by simp [Decision.writes, movementDecision, hrows]) (fun id hin => ?keys)
        (fun m hm => ?moved) (fun ev hev s hs hbad => ?texts) fun sh4 l4 hc hf => ?next
      case nodup => simpa [movementDecision, wagerTransactionProcessed, walletBalanceChanged]
      case events =>
        have hwid : w'.id.length = 36 := (isUuid_plain hvalid'.canonical).2.2
        have htid : t'.id.length = 36 := (isUuid_plain huuid).2.2
        simp only [movementDecision, List.mem_cons, List.not_mem_nil, or_false] at hev
        rcases hev with rfl | rfl
        · exact ⟨List.mem_cons_of_mem _ huse.eventId, by rw [wagerTransactionProcessed, htid]; decide,
            huse.occurredAt⟩
        · exact ⟨List.mem_cons_self, by rw [walletBalanceChanged, hwid]; decide, huse.occurredAt⟩
      case keys => simp [Write.uniqueKeys, WalletLedgerEntryRow.uniqueKeys] at hin
      case moved =>
        cases hm
        exact hvalid'
      case texts =>
        simp only [movementDecision, List.mem_cons, List.not_mem_nil, or_false] at hev
        rcases hev with rfl | rfl
        · exact hF.payload hs hbad
        · rcases List.mem_cons.mp hs with rfl | hs
          · exact hF.payload List.mem_cons_self hbad
          · cases List.mem_singleton.mp hs
            rw [isPlain_uuid huuid] at hbad
            cases hbad
      case next =>
        exact hnext sh4 l4 eventId hc
          (((((Local.Follows.refl l).push _ rfl).push _ rfl).identified eventId).trans hf)

/-- `process`, for a movement that the reference entitles to. -/
theorem wp_process_moved {w w' : Wallet} {entry : WalletLedgerEntry} {referenceId : Option Text}
    (hand : InHand t sh l) (hold : Holding w sh l) (hmove : Movement t w w' entry now)
    (hent : Entitled t referenceId entry.direction sh) (hentry : entry.id ∈ l.ids)
    (hself : referenceId ≠ some t.id) (huse : Usable context now l) (hF : Refusals F context)
    (hP : ∀ sh' l' result, Decided t l result sh' l' → P sh' l' result) :
    (process t w' (some entry) now context referenceId).wp discipline P F sh l := by
  have hnow := Instant.isReading_isTimestamp huse.now
  have hpos : 0 < t.money.cents := hand.storable.positive
  have hlock : t.walletId ∈ l.wallets := hmove.walletId ▸ hold.lock
  have hvalid := hand.waiting.processed referenceId w'.balance hself
    (fun hk => by
      obtain ⟨r, -, hr, -⟩ := hent.reversal hk
      rw [hr]
      rfl) hmove.nonneg hnow
  rw [process, WagerTransaction.markProcessed_eq hand.notTerminal, domain_ok,
    Program.pure_ctor_bind_eq]
  generalize ht : ({ t with
    status := .processed, referenceTransactionId := referenceId,
    resultBalance := some w'.balance, processedAt := some now } : WagerTransaction) = t' at hvalid ⊢
  have same : t'.toCreateWagerTransactionProps = t.toCreateWagerTransactionProps := by subst ht; rfl
  have hstatus : t'.status = .processed := by subst ht; rfl
  have hreference : t'.referenceTransactionId = referenceId := by subst ht; rfl
  have hbalance : t'.resultBalance = some w'.balance := by subst ht; rfl
  have hwalletId : t'.walletId = t.walletId := by rw [same]
  have hcurrency : w'.balance.currency = w.currency := hmove.balanceCurrency
  refine wp_updateDecided (movementDecision t' entry w' context context.eventId) hand same rfl
    fun sh1 hr1 hs1 ho1 => ?_
  have hold1 := hold.rely hr1
  have hent1 := hent.rely hr1 hs1 hlock
  refine ⟨?deciding, fun _ hk => ?guard, fun r hr => ?linked, fun hdeciding1 => ?statements⟩
  case deciding =>
    refine (hand.rely hr1).deciding ho1 same (.inl (by subst ht; rfl))
      (.inl ⟨by subst ht; rfl, fun h => by rw [hstatus] at h; cases h⟩) hvalid (fun m hm => ?_)
      (hmove.outcome hold1 hand.kind hent1 ht.symm _) (fun ev hev => ?_) fun _ => hwalletId ▸ hlock
    · rw [hbalance] at hm
      cases hm
      exact ⟨_, hold1.mem, hmove.walletId, hcurrency.symm⟩
    · simp only [List.mem_cons, List.not_mem_nil, or_false] at hev
      rcases hev with rfl | rfl <;> rfl
  case guard =>
    intro r hr
    obtain ⟨row, -, hrow, -, hno⟩ := hent1.reversal (by rwa [same] at hk)
    rw [hreference, hrow] at hr
    cases hr
    exact hno
  case linked =>
    rw [hreference] at hr
    obtain ⟨row, hrow, heq, -⟩ := hent1.linked r hr
    exact ⟨row, hrow, heq⟩
  case statements =>
    refine wp_movementStatements hdeciding1 (by rw [same])
      ⟨hold1.mem, hold1.lock, hold1.storable⟩ hmove hpos hentry
      ⟨huse.eventId, huse.occurredAt, huse.now⟩ hF
      fun sh2 l2 eventId hc hf => ?_
    refine wp_pure fun sh3 hr3 hs3 ho3 => hP _ _ _ ?_
    refine ⟨((Local.Follows.refl l).push _ rfl).trans hf, _, t', hc.rely hr3 hs3 ho3, rfl,
      InHand.identity same, .inl hstatus, rfl⟩

end Wagering
