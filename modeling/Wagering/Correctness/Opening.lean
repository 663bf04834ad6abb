import Wagering.Application.CreateWallet
import Wagering.Correctness.Reserving

/-!
# Opening a wallet

`CreateWalletUseCase`.  Everything that the transaction writes is its own: the
wallet is new, so are the identifiers, and the OPENING's identity is made from
the wallet's.  Its reservation therefore cannot be lost.
-/

namespace Wagering

open Interleave

/-- The texts of the command fit their columns. -/
structure CreateWalletCommand.Fits (command : CreateWalletCommand) : Prop where
  playerId : Text.Fits 64 command.playerId
  correlationId : Text.Fits 128 command.correlationId

/-- A text made of plain units. -/
theorem prefixed_plain {s t : Text} (hs : (s.all fun u => u ≠ 0 && !Text.isSurrogate u) = true)
    (ht : isUuid t = true) : Text.hasNul (s ++ t) = false ∧ Text.stored (s ++ t) = s ++ t := by
  have hall : ∀ u ∈ s ++ t, u ≠ 0 ∧ Text.isSurrogate u = false := fun u hu =>
    (List.mem_append.mp hu).elim
      (fun hu => by simpa using List.all_eq_true.mp hs u hu) (isUuid_unit ht u)
  refine ⟨?_, Text.stored_of_plain fun u hu => (hall u hu).2⟩
  rw [Text.hasNul, List.any_eq_false]
  intro u hu
  simpa using (hall u hu).1

/-- The texts of an OPENING's identity. -/
theorem openingIdentity_plain {id : Text} (h : isUuid id = true) :
    (Text.hasNul (openingIdentity id).externalTransactionId = false ∧
      Text.stored (openingIdentity id).externalTransactionId =
        (openingIdentity id).externalTransactionId) ∧
    (Text.hasNul (openingIdentity id).idempotencyKey = false ∧
      Text.stored (openingIdentity id).idempotencyKey = (openingIdentity id).idempotencyKey) :=
  ⟨prefixed_plain (by decide) h, prefixed_plain (by decide) h⟩

/-- What a wallet creation may fail with, outages apart. -/
inductive CreateFailure [Platform] (command : CreateWalletCommand) (l : Local) : Failure → Prop
  | invalid {e : DomainError} (h : ∀ money, Money.from command.initialBalance ≠ .ok money) :
    CreateFailure command l (.domain e)
  | exists {db : Database} {existing : Option Text} (lost : l.lostAt = some db) :
    CreateFailure command l (.application ⟨.walletAlreadyExists,
      utf16 "a wallet already exists for this player and currency", existing⟩)
  | refused {e : RepositoryError} (h : ¬ command.Fits) : CreateFailure command l (.repository e)
  | payload (bad : isPlain command.correlationId = false) :
    CreateFailure command l (.repository (.malformedText (utf16 "payload")))

variable [Platform] {sh sh' : Shared} {l l' : Local} {command : CreateWalletCommand}

/-- What a wallet creation that commits has done. -/
structure WalletCreated (command : CreateWalletCommand) (sh : Shared) (l : Local)
    (view : WalletView) : Prop where
  money : ∃ money, Money.from command.initialBalance = .ok money ∧
    (l.view sh.db).books.opened view.id = decide (0 < money.cents)
  fresh : ∀ v ∈ sh.db.wallets, v.id ≠ view.id
  wallets : ∃ w, (l.view sh.db).wallets = sh.db.wallets ++ [w] ∧ w.id = view.id
  wagers : ∀ r ∈ (l.view sh.db).wagers, r ∈ sh.db.wagers ∨ r.kind = .opening

/-! ## The wallet -/

/-- The row of a new wallet, as the server keeps it. -/
theorem opened_wallet_valid {w : Wallet}
    (hrules : ∀ rule ∈ walletRules (toWalletRow w), rule.holds = true)
    (huuid : isCanonicalUuid w.id = true) (hcurrency : w.balance.currency = w.currency) :
    (toWalletRow w).stored.Valid := by
  refine ⟨?_, ?_, huuid, (hcurrency ▸ w.balance.isoCurrency : isIsoCurrency w.currency = true)⟩
  · simp only [walletRules, List.forall_mem_cons] at hrules ⊢
    obtain ⟨h1, h2, h⟩ := hrules
    refine ⟨?_, ?_, h⟩
    · rwa [WalletRow.stored, textRule, Text.hasNul_stored]
    · rwa [WalletRow.stored, lengthRule, Text.characters_stored]
  · simp [WalletRow.stored]

theorem opening_wallet_rules {w : Wallet} {now : Instant} (hfits : command.Fits)
    (hplayer : w.playerId = command.playerId) (hcurrency : w.balance.currency = w.currency)
    (hnonneg : 0 ≤ w.balance.cents) (hversion : w.version = 1) (hcreated : w.createdAt = now)
    (hupdated : w.updatedAt = now) (hnow : now.isTimestamp = true) :
    ∀ rule ∈ walletRules (toWalletRow w), rule.holds = true := by
  have hiso := isIsoCurrency_format (hcurrency ▸ w.balance.isoCurrency)
  simp only [walletRules, List.forall_mem_cons, toWalletRow, hplayer, hversion, hcreated, hupdated]
  refine ⟨?_, decide_eq_true hfits.playerId.2, decide_eq_true hiso.2,
    decide_eq_true w.balance.inRange, rfl, hnow, hnow, decide_eq_true hnonneg, rfl, hiso.1,
    decide_eq_true (Int.le_refl _), by simp⟩
  simp [textRule, hfits.playerId.1]

/-! ## The opening transaction -/

/-- What the transaction has written so far: the new wallet, and `done`. -/
structure Opens (w : Wallet) (done : List Write) (l : Local) : Prop where
  valid : (toWalletRow w).Valid
  storable : w.Storable
  log : l.log = .insertWallet (toWalletRow w) :: done
  ids : ∀ k ∈ l.keys, ∀ id ∈ k.id?, id ∈ l.ids

namespace Opens

variable {w : Wallet} {done : List Write}

theorem id_mem (h : Opens w done l) : w.id ∈ l.ids := by
  refine h.ids (.walletId w.id) ?_ _ rfl
  rw [Local.keys_eq, h.log]
  exact List.mem_append_left _ List.mem_cons_self

/-- The wallet is new. -/
theorem fresh (h : Opens w done l) (ho : Own sh l) : ∀ v ∈ sh.db.wallets, v.id ≠ w.id :=
  fun _ hv heq => (ho.ids _ h.id_mem).2 _ (walletId_mem_uniqueKeys hv) (heq ▸ rfl)

theorem push (h : Opens w done l) (write : Write)
    (hids : ∀ k ∈ write.uniqueKeys, ∀ id ∈ k.id?, id ∈ l.ids) :
    Opens w (done ++ [write]) (l.push write) := by
  refine { h with log := ?_, ids := fun k hk => ?_ }
  · rw [Local.push, h.log, List.cons_append]
  · rw [Local.push_keys] at hk
    exact (List.mem_append.mp hk).elim (h.ids k) (hids k)

theorem identified (h : Opens w done l) (id : Text) :
    Opens w done { l with ids := id :: l.ids } :=
  { h with ids := fun k hk id' hid => List.mem_cons_of_mem _ (h.ids k hk id' hid) }

end Opens

/-- No committed transaction has the identity of an OPENING of a new wallet. -/
theorem opening_identity_free (hs : Sound sh) {id : Text} (hfresh : ∀ v ∈ sh.db.wallets, v.id ≠ id)
    {r : WagerTransactionRow} (hr : r ∈ sh.db.wagers) (hinternal : r.providerId = internalProviderId) :
    r.idempotencyKey ≠ (openingIdentity id).idempotencyKey ∧
      r.externalTransactionId ≠ (openingIdentity id).externalTransactionId := by
  obtain ⟨hkind, hkey, hexternal⟩ := (hs.wagers r hr).internal hinternal
  have hwallet : r.walletId ≠ id := by
    obtain ⟨v, hv, hvid, -⟩ :=
      (hs.books.wagers r hr).wallet (.inl ((hs.books.wagers r hr).openingProcessed hkind))
    exact fun heq => hfresh v hv (hvid.trans heq)
  rw [hkey, hexternal]
  refine ⟨fun h => hwallet ?_, fun h => hwallet ?_⟩
  · exact List.append_cancel_left h
  · exact List.append_cancel_left h

/-- The transaction that `createOpening` builds for a wallet. -/
def openingOf (w : Wallet) (id payloadHash correlationId : Text) (now : Instant) :
    WagerTransaction where
  id := id
  providerId := (openingIdentity w.id).providerId
  externalTransactionId := (openingIdentity w.id).externalTransactionId
  idempotencyKey := (openingIdentity w.id).idempotencyKey
  payloadHash := payloadHash
  walletId := w.id
  playerId := w.playerId
  roundId := (openingIdentity w.id).roundId
  gameId := (openingIdentity w.id).gameId
  kind := .opening
  money := w.balance
  referenceExternalTransactionId := none
  correlationId := correlationId
  createdAt := now
  status := .pending
  referenceTransactionId := none
  failureCode := none
  resultBalance := none
  attempts := 0
  nextAttemptAt := none
  expiresAt := none
  processedAt := none

variable {w : Wallet} {id payloadHash correlationId : Text} {now : Instant}

theorem createOpening_eq (hpos : 0 < w.balance.cents) :
    WagerTransaction.createOpening id w.id w.playerId w.balance payloadHash correlationId now =
      .ok (openingOf w id payloadHash correlationId now) := by
  simp [WagerTransaction.createOpening, WagerTransaction.reserve, openingOf, Money.isPositive,
    WagerTransactionKind.isReversal, hpos]

/-- Only the correlation id of an OPENING can change on the way into its column. -/
theorem openingOf_stored (id payloadHash correlationId : Text) (now : Instant)
    (hvalid : (toWalletRow w).Valid) :
    (toWagerTransactionRow (openingOf w id payloadHash correlationId now)).stored =
      toWagerTransactionRow (openingOf w id payloadHash (Text.stored correlationId) now) := by
  have huuid := isCanonicalUuid_iff.mp hvalid.uuid
  have hplayer : Text.stored w.playerId = w.playerId := congrArg WalletRow.playerId hvalid.stored
  have hexternal : Text.stored (openingIdentity w.id).externalTransactionId =
      (openingIdentity w.id).externalTransactionId :=
    (openingIdentity_plain huuid.1).1.2
  have hkey : Text.stored (openingIdentity w.id).idempotencyKey =
      (openingIdentity w.id).idempotencyKey :=
    (openingIdentity_plain huuid.1).2.2
  have hinternal : Text.stored internalProviderId = internalProviderId := by decide
  have hwallet : uuidText w.id = w.id := huuid.2
  simp only [WagerTransactionRow.stored, toWagerTransactionRow, openingOf, hexternal, hkey, hplayer,
    hwallet, Option.map_none]
  simp only [openingIdentity, hinternal]

/-- An OPENING passes the schema when its correlation id fits. -/
theorem opening_rules (hvalid : (toWalletRow w).Valid) (hpos : 0 < w.balance.cents)
    (hhash : payloadHash.length = 64)
    (hcorrelation : Text.Fits 128 correlationId)
    (hnow : now.isTimestamp = true) :
    ∀ rule ∈ wagerColumnRules (toWagerTransactionRow (openingOf w id payloadHash correlationId now)) ++
      wagerCheckRules (toWagerTransactionRow (openingOf w id payloadHash correlationId now)),
      rule.holds = true := by
  have huuid : isUuid w.id = true := hvalid.canonical
  have hlength := (isUuid_plain huuid).2.2
  obtain ⟨⟨hexternal, -⟩, hkey, -⟩ := openingIdentity_plain huuid
  have hiso := isIsoCurrency_format w.balance.isoCurrency
  have hplayer := hvalid.rules
  simp only [walletRules, List.forall_mem_cons] at hplayer
  obtain ⟨htext, hlong, -⟩ := hplayer
  rw [List.forall_mem_append]
  constructor
  · simp only [wagerColumnRules, List.forall_mem_cons, toWagerTransactionRow, openingOf]
    have htext' : ∀ column, (textRule column internalProviderId).holds = true :=
      fun _ => (by decide : (!Text.hasNul internalProviderId) = true)
    have hlong' : ∀ column n, 8 ≤ n → (lengthRule column n internalProviderId).holds = true :=
      fun _ n hn => decide_eq_true (Nat.le_trans (by decide : Text.characters internalProviderId ≤ 8) hn)
    refine ⟨htext' _, by simp [textRule, hexternal], by simp [textRule, hkey], htext, htext' _,
      htext' _, rfl, by simp [textRule, hcorrelation.1], huuid, hlong' _ _ (by decide), ?_, ?_, ?_,
      hlong, hlong' _ _ (by decide), hlong' _ _ (by decide), decide_eq_true w.balance.inRange,
      decide_eq_true hiso.2, rfl, rfl, rfl, rfl, rfl, rfl, decide_eq_true hcorrelation.2, hnow, rfl,
      by simp⟩
    · refine decide_eq_true (characters_le_of_length ?_)
      simp only [openingIdentity, List.length_append, hlength]
      decide
    · refine decide_eq_true (characters_le_of_length ?_)
      simp only [openingIdentity, List.length_append, hlength]
      decide
    · exact decide_eq_true (characters_le_of_length (Nat.le_of_eq hhash))
  · simp only [wagerCheckRules, List.forall_mem_cons, toWagerTransactionRow, openingOf, check]
    refine ⟨decide_eq_true hpos, hiso.1, rfl, rfl, rfl, rfl, rfl, rfl, rfl, rfl, rfl, rfl, rfl,
      rfl, by simp⟩

/-- The OPENING once it is processed. -/
def processedOpening (w : Wallet) (id payloadHash correlationId : Text) (now : Instant) :
    WagerTransaction :=
  { openingOf w id payloadHash correlationId now with
    status := .processed, referenceTransactionId := none, resultBalance := some w.balance,
    processedAt := some now }

/-- The row of an OPENING, reserved and processed. -/
def openingRow (w : Wallet) (id payloadHash correlationId : Text) (now : Instant) :
    WagerTransactionRow :=
  toWagerTransactionRow (openingOf w id payloadHash (Text.stored correlationId) now)

def processedRow (w : Wallet) (id payloadHash correlationId : Text) (now : Instant) :
    WagerTransactionRow :=
  toWagerTransactionRow (processedOpening w id payloadHash (Text.stored correlationId) now)

/-- The entry of the opening balance. -/
structure OpeningEntry (w : Wallet) (id : Text) (now : Instant) (entry : WalletLedgerEntry) :
    Prop where
  walletId : entry.walletId = w.id
  transactionId : entry.transactionId = id
  direction : entry.direction = .credit
  money : entry.money = w.balance
  before : entry.balanceBefore.cents = 0 ∧ entry.balanceBefore.currency = w.balance.currency
  after : entry.balanceAfter = w.balance
  createdAt : entry.createdAt = now

/-- The wallet before its opening balance. -/
def emptyRow (w : Wallet) : WalletRow := { toWalletRow w with balance := 0 }

/-- The decision that an opening records. -/
def openingDecision (w : Wallet) (entry : WalletLedgerEntry) (id payloadHash correlationId : Text)
    (now : Instant) (events : List IntegrationEvent) : Decision where
  tx := processedRow w id payloadHash correlationId now
  movement := some (toLedgerEntryRow entry, toWalletRow w)
  events := events

/-- The events of an opening. -/
def openingEvents (w : Wallet) (entry : WalletLedgerEntry) (t : WagerTransaction)
    (context : EventContext) (changedId : Text) : List IntegrationEvent :=
  [wagerTransactionProcessed t context,
   walletBalanceChanged w entry { context with eventId := changedId, causationId := some t.id }]

/-- An opening is right on books that have just gained its wallet, still empty. -/
theorem openingDecision_decides {b : Books} (payloadHash correlationId : Text) (hc : b.Consistent)
    {entry : WalletLedgerEntry} (hentry : OpeningEntry w id now entry) (hw : w.Storable)
    (hpos : 0 < w.balance.cents) (hversion : w.version = 1)
    (hwallet : ∀ v ∈ b.wallets, v.id ≠ w.id) (hid : ∀ r ∈ b.wagers, r.id ≠ id)
    (context : EventContext) (changedId : Text) :
    (b.openWallet (emptyRow w)).Decides
      (openingDecision w entry id payloadHash correlationId now
        (openingEvents w entry (processedOpening w id payloadHash correlationId now) context
          changedId)) := by
  obtain ⟨-, hentries, hopened⟩ := hc.untouched hwallet
  have hdata : (openingEvents w entry (processedOpening w id payloadHash correlationId now) context
      changedId).map IntegrationEvent.data =
      [(processedRow w id payloadHash correlationId now).processedData,
        .balanceChanged ((toLedgerEntryRow entry).changedData (toWalletRow w).version)] := by
    simp [openingEvents, wagerTransactionProcessed, walletBalanceChanged, processedRow,
      processedOpening, openingOf, WagerTransactionRow.processedData,
      WalletLedgerEntryRow.changedData, toWagerTransactionRow,
      toLedgerEntryRow, toWalletRow, Money.toJSON, Money.toString, moneyText, hentry.walletId,
      hentry.money, hentry.before, hentry.after]
  refine
    { prior := .inl ⟨hid, fun h => by cases h⟩
      counted := .inl ⟨hid, rfl⟩
      positive := hpos
      inRange := w.balance.inRange
      isoCurrency := w.balance.isoCurrency
      observed := fun c hcur => by
        cases hcur
        exact ⟨emptyRow w, List.mem_append_right _ List.mem_cons_self, rfl, hw.currency.symm⟩
      outcome := ?_
      aggregates := fun ev hev => ?_ }
  · have hmoves : (b.openWallet (emptyRow w)).Moves
        (processedRow w id payloadHash correlationId now)
        (toLedgerEntryRow entry) (emptyRow w) (toWalletRow w) :=
      { wallet := List.mem_append_right _ (List.mem_singleton.mpr rfl)
        walletId := rfl
        walletCurrency := hw.currency.symm
        same := ⟨rfl, rfl, rfl, rfl⟩
        entryWallet := hentry.walletId
        entryTransaction := hentry.transactionId
        amount := congrArg Money.cents hentry.money
        currency := congrArg Money.currency hentry.money
        before := hentry.before.1
        after := congrArg Money.cents hentry.after
        arithmetic := by
          simp [WalletLedgerEntryRow.signed, toLedgerEntryRow, toWalletRow, hentry.direction,
            hentry.money, LedgerDirection.signed, emptyRow]
        nonneg := hw.nonneg
        inRange := w.balance.inRange
        directed := .inl (by
          rw [show (toLedgerEntryRow entry).direction = entry.direction from rfl, hentry.direction]
          rfl)
        version := hversion
        first := fun _ => ⟨hentries, hopened⟩ }
    simp only [openingDecision, hdata]
    exact .moved rfl hmoves (fun hk => by cases hk) fun r hr => by cases hr
  · simp only [openingDecision, openingEvents, List.mem_cons, List.not_mem_nil, or_false] at hev
    rcases hev with rfl | rfl <;> rfl

theorem emptyRow_valid (h : (toWalletRow w).Valid) : (emptyRow w).Valid := by
  have hstored : Text.stored w.playerId = w.playerId := congrArg WalletRow.playerId h.stored
  refine ⟨?_, by simp [WalletRow.stored, emptyRow, toWalletRow, hstored], h.uuid, h.isoCurrency⟩
  have hrules := h.rules
  simp only [walletRules, List.forall_mem_cons] at hrules ⊢
  obtain ⟨h1, h2, h3, -, h5, h6, h7, -, h9⟩ := hrules
  exact ⟨h1, h2, h3, rfl, h5, h6, h7, rfl, h9⟩

/-- What the reservation and the update leave of the transactions. -/
theorem adjust_opening {wagers : List WagerTransactionRow} (hnew : ∀ r ∈ wagers, r.id ≠ id) :
    Keyed.adjust WagerTransactionRow.id (processedRow w id payloadHash correlationId now).id
      (processedRow w id payloadHash correlationId now).set
      (wagers ++ [openingRow w id payloadHash correlationId now]) =
      wagers ++ [processedRow w id payloadHash correlationId now] :=
  Keyed.adjust_concat hnew rfl

/-- An opening whose statements have all run is ready to commit. -/
theorem Opens.ready {entry : WalletLedgerEntry} {rows : List OutboxMessageRow}
    {context : EventContext} {changedId : Text}
    (h : Opens w [.insertWager (openingRow w id payloadHash correlationId now),
      .updateWager (processedRow w id payloadHash correlationId now),
      .insertLedger (toLedgerEntryRow entry), .insertOutbox rows] l)
    (hs : Sound sh) (ho : Own sh l) (hentry : OpeningEntry w id now entry)
    (hpos : 0 < w.balance.cents) (hversion : w.version = 1)
    (hrows : rows.map OutboxMessageRow.payload =
      openingEvents w entry (processedOpening w id payloadHash correlationId now) context changedId)
    (hvalid : (processedRow w id payloadHash correlationId now).Valid)
    (hid : id ∈ l.ids) : Ready sh l := by
  have hfresh := h.fresh ho
  have hnew := ho.wager_fresh hid
  have hdecides := openingDecision_decides payloadHash correlationId hs.books hentry h.storable
    hpos hversion hfresh hnew context changedId
  have hkeys : l.keys = keysOf l.log := Local.keys_eq l
  rw [h.log] at hkeys
  have hwallet : .walletId w.id ∈ l.holds := List.mem_append_right _ (by
    rw [hkeys]
    simp [Write.uniqueKeys, WalletRow.uniqueKeys, toWalletRow])
  have hwager : .wagerId id ∈ l.holds := List.mem_append_right _ (by
    rw [hkeys]
    simp [Write.uniqueKeys, WagerTransactionRow.uniqueKeys, openingRow, toWagerTransactionRow,
      openingOf])
  have hview : l.view sh.db = sh.db.after l.log := rfl
  refine
    { ids := h.ids
      change := ⟨⟨some (emptyRow w), some (openingDecision w entry id payloadHash correlationId now
        (openingEvents w entry (processedOpening w id payloadHash correlationId now) context
          changedId))⟩, ?allows, ?books, fun v hv => ?wallets, fun d hd => ?decision⟩
      inbox := fun m hm => ?inbox
      inboxKept := fun m hm => ?kept }
  case allows =>
    exact
      { fresh := fun v hv => by cases hv; exact hfresh
        empty := fun v hv => by cases hv; exact ⟨rfl, hversion, h.valid.isoCurrency⟩
        decides := fun d hd => by cases hd; exact hdecides
        opening := fun d hd _ => by cases hd; exact ⟨_, rfl, rfl⟩ }
  case books =>
    have hwallets : Keyed.put WalletRow.id (toWalletRow w) (sh.db.wallets ++ [emptyRow w]) =
        sh.db.wallets ++ [toWalletRow w] := Keyed.put_concat hfresh rfl
    have hwagers : Keyed.put WagerTransactionRow.id
        (processedRow w id payloadHash correlationId now) sh.db.wagers =
        sh.db.wagers ++ [processedRow w id payloadHash correlationId now] :=
      Keyed.put_of_absent hnew
    rw [hview, h.log]
    simp only [Database.after_cons, Write.apply, Database.after_nil, adjust_opening hnew, Database.books,
      List.map_append, hrows, Books.amend, Books.withWallet, Books.openWallet, Books.record,
      openingDecision, hwallets, hwagers, Option.map_some, Option.toList_some]
  case wallets =>
    have hv : v = toWalletRow w ∨ v = emptyRow w := by
      simpa [Change.wallets, openingDecision] using hv
    rcases hv with rfl | rfl
    · exact ⟨h.valid, hwallet⟩
    · exact ⟨emptyRow_valid h.valid, hwallet⟩
  case decision =>
    cases hd
    exact ⟨hvalid, hwager, fun _ => hwallet⟩
  case inbox =>
    rw [hview, h.log] at hm
    exact .inl hm
  case kept =>
    rw [hview, h.log]
    exact hm

theorem Opens.created {entry : WalletLedgerEntryRow} {rows : List OutboxMessageRow}
    (h : Opens w [.insertWager (openingRow w id payloadHash correlationId now),
      .updateWager (processedRow w id payloadHash correlationId now), .insertLedger entry,
      .insertOutbox rows] l) (ho : Own sh l) (hid : id ∈ l.ids) (hpos : 0 < w.balance.cents)
    (hmoney : Money.from command.initialBalance = .ok w.balance) :
    WalletCreated command sh l (walletView w) := by
  have hview : l.view sh.db = sh.db.after l.log := rfl
  have hwagers : (l.view sh.db).wagers =
      sh.db.wagers ++ [processedRow w id payloadHash correlationId now] := by
    rw [hview, h.log]
    simp [Write.apply, adjust_opening (ho.wager_fresh hid)]
  refine
    { money := ⟨_, hmoney, ?_⟩
      fresh := h.fresh ho
      wallets := ⟨toWalletRow w, ?_, rfl⟩
      wagers := fun r hr => ?_ }
  · simp only [Books.opened, Database.books, hwagers, List.any_append, hpos, decide_true]
    simp [processedRow, processedOpening, openingOf, toWagerTransactionRow, walletView]
  · rw [hview, h.log]
    rfl
  · rw [hwagers] at hr
    refine (List.mem_append.mp hr).imp_right fun hr => ?_
    rw [List.mem_singleton.mp hr]
    rfl

/-- A wallet without an opening balance. -/
theorem Opens.created_empty (h : Opens w [] l) (hs : Sound sh) (ho : Own sh l)
    (hzero : w.balance.cents = 0)
    (hmoney : Money.from command.initialBalance = .ok w.balance) :
    WalletCreated command sh l (walletView w) := by
  have hview : l.view sh.db = sh.db.after l.log := rfl
  have hfresh := h.fresh ho
  refine
    { money := ⟨_, hmoney, ?_⟩
      fresh := hfresh
      wallets := ⟨toWalletRow w, ?_, rfl⟩
      wagers := fun r hr => ?_ }
  · rw [hview, h.log, hzero]
    exact (hs.books.untouched hfresh).2.2
  · rw [hview, h.log]
    rfl
  · rw [hview, h.log] at hr
    exact .inl hr

theorem Opens.ready_empty (h : Opens w [] l) (ho : Own sh l) (hzero : w.balance.cents = 0)
    (hversion : w.version = 1) : Ready sh l := by
  have hview : l.view sh.db = sh.db.after l.log := rfl
  have hwallet : .walletId w.id ∈ l.holds := List.mem_append_right _ (by
    rw [Local.keys_eq, h.log]
    simp [Write.uniqueKeys, WalletRow.uniqueKeys, toWalletRow])
  refine
    { ids := h.ids
      change := ⟨⟨some (toWalletRow w), none⟩, ⟨fun v hv => ?_, fun v hv => ?_,
        fun d hd => (by cases hd), fun d hd => (by cases hd)⟩, ?_, fun v hv => ?_,
        fun d hd => (by cases hd)⟩
      inbox := fun m hm => ?_
      inboxKept := fun m hm => ?_ }
  · cases hv
    exact h.fresh ho
  · cases hv
    exact ⟨hzero, hversion, h.valid.isoCurrency⟩
  · rw [hview, h.log]
    rfl
  · have : v = toWalletRow w := by simpa [Change.wallets] using hv
    exact this ▸ ⟨h.valid, hwallet⟩
  · rw [hview, h.log] at hm
    exact .inl hm
  · rw [hview, h.log]
    exact hm

/-! ## The code -/

variable {entry : WalletLedgerEntry} {P : Shared → Local → WalletView → Prop}
  {F : Shared → Local → Failure → Prop}

/-- The row of a new OPENING is not refused for what is there: its keys are new. -/
theorem Opens.reserve_free (h : Opens w [] l) (hs : Sound sh) (ho : Own sh l) (hid : id ∈ l.ids) :
    ∀ k ∈ (openingRow w id payloadHash correlationId now).uniqueKeys,
      k ∉ (l.view sh.db).uniqueKeys := by
  intro k hk hview
  rcases mem_uniqueKeys_view.mp hview with hdb | hkey
  · simp only [WagerTransactionRow.uniqueKeys, List.mem_cons, List.not_mem_nil, or_false] at hk
    rcases hk with rfl | rfl | rfl
    · exact (ho.ids _ hid).2 _ hdb rfl
    · obtain ⟨r, hr, hprovider, hkey⟩ := wagerIdempotency_mem_iff.mp hdb
      exact (opening_identity_free hs (h.fresh ho) hr hprovider).1 hkey
    · obtain ⟨r, hr, hprovider, hexternal⟩ := wagerExternal_mem_iff.mp hdb
      exact (opening_identity_free hs (h.fresh ho) hr hprovider).2 hexternal
  · rw [Local.keys_eq, h.log] at hkey
    simp only [WagerTransactionRow.uniqueKeys, List.mem_cons, List.not_mem_nil, or_false] at hk
    rcases hk with rfl | rfl | rfl <;> simp [Write.uniqueKeys, WalletRow.uniqueKeys] at hkey

theorem openingRow_valid (hvalid : (toWalletRow w).Valid) (hid : isCanonicalUuid id = true)
    (hrules : ∀ rule ∈
      wagerColumnRules (toWagerTransactionRow (openingOf w id payloadHash correlationId now)) ++
        wagerCheckRules (toWagerTransactionRow (openingOf w id payloadHash correlationId now)),
      rule.holds = true) :
    (openingRow w id payloadHash correlationId now).Valid := by
  have hstored := openingOf_stored id payloadHash correlationId now hvalid
  rw [openingRow, ← hstored]
  refine stored_valid rfl rfl hid hrules fun _ => ?_
  rw [hstored]
  exact ⟨rfl, rfl, rfl⟩

/-- The entry and the events of an opening. -/
theorem wp_openingLedger (h : Opens w [.insertWager (openingRow w id payloadHash
        command.correlationId now),
      .updateWager (processedRow w id payloadHash command.correlationId now)] l) (hid : id ∈ l.ids)
    (hentry : OpeningEntry w id now entry) (hentryId : entry.id ∈ l.ids)
    (hpos : 0 < w.balance.cents) (hversion : w.version = 1) (hnow : now.isReading = true)
    (hvalid : (processedRow w id payloadHash command.correlationId now).Valid)
    (hmoney : Money.from command.initialBalance = .ok w.balance)
    (hP : ∀ sh' l', Ready sh' l' → WalletCreated command sh' l' (walletView w) →
      P sh' l' (walletView w))
    (hF : ∀ sh' l' e, CreateFailure command l' e → F sh' l' e) :
    (do
      call (.insertLedger entry)
      let eventId ← call .nextId
      let context : EventContext :=
        { eventId, correlationId := command.correlationId, causationId := none, occurredAt := now }
      let changedId ← call .nextId
      call (.enqueue (openingEvents w entry
        (processedOpening w id payloadHash command.correlationId now) context changedId) now)
      pure (walletView w) : Code WalletView).wp discipline P F sh l := by
  have hts := Instant.isReading_isTimestamp hnow
  refine wp_insertLedger fun sh1 hr1 hs1 ho1 =>
    ⟨?rules, fun k hk hview => ?keys, ?wallet, ?wager, ?events⟩
  case rules =>
    refine entry_rules (hentry.money ▸ hpos) ?_ (hentry.after ▸ h.storable.nonneg) ?_ ?_
    · rw [hentry.before.1]
    · rw [hentry.before.1, hentry.after, hentry.direction, hentry.money]
      simp [LedgerDirection.signed]
    · rw [hentry.createdAt]
      exact hts
  case keys =>
    simp only [WalletLedgerEntryRow.uniqueKeys, List.mem_cons, List.not_mem_nil, or_false] at hk
    rcases mem_uniqueKeys_view.mp hview with hdb | hkey
    · rcases hk with rfl | rfl
      · exact (ho1.ids _ hentryId).2 _ hdb rfl
      · obtain ⟨e, he, htid, -⟩ := ledgerTransaction_mem_iff.mp hdb
        obtain ⟨t, ht, heq⟩ := hs1.books.entries e he
        exact ho1.wager_fresh hid t ht (heq.trans (htid.trans hentry.transactionId))
    · rw [Local.keys_eq, h.log] at hkey
      rcases hk with rfl | rfl <;>
        simp [Write.uniqueKeys, WalletRow.uniqueKeys, WagerTransactionRow.uniqueKeys] at hkey
  case wallet =>
    refine ⟨toWalletRow w, ?_, hentry.walletId.symm, ?_⟩
    · rw [Local.view, h.log]
      simp [Write.apply]
    · rw [hentry.money]
      exact h.storable.currency.symm
  case wager =>
    refine ⟨processedRow w id payloadHash command.correlationId now, ?_, hentry.transactionId.symm⟩
    rw [Local.view, h.log]
    simp [Write.apply, adjust_opening (ho1.wager_fresh hid)]
  case events =>
    refine wp_nextId fun sh2 hr2 hs2 ho2 eventId _ _ => ?_
    refine wp_nextId fun sh3 hr3 hs3 ho3 changedId _ hfresh => ?_
    have h3 := ((h.push (.insertLedger (toLedgerEntryRow entry)) fun k hk id' hid' => by
      simp only [Write.uniqueKeys, WalletLedgerEntryRow.uniqueKeys, List.mem_cons, List.not_mem_nil,
        or_false] at hk
      rcases hk with rfl | rfl <;> cases hid'
      exact hentryId).identified eventId).identified changedId
    have hne : eventId ≠ changedId := fun heq =>
      hfresh (heq ▸ (ho3.ids _ List.mem_cons_self).1)
    refine wp_enqueue (by simp [openingEvents])
      (by simpa [openingEvents, wagerTransactionProcessed, walletBalanceChanged] using hne)
      fun sh4 hr4 hs4 ho4 => ⟨fun ev hev hview => ?fresh, fun e he => ?refuse, ?done⟩
    case fresh =>
      have hid : ev.eventId = eventId ∨ ev.eventId = changedId := by
        simp only [openingEvents, List.mem_cons, List.not_mem_nil, or_false] at hev
        rcases hev with rfl | rfl
        · exact .inl rfl
        · exact .inr rfl
      rcases mem_uniqueKeys_view.mp hview with hdb | hkey
      · have hmem : ev.eventId ∈ changedId :: eventId :: l.ids := by
          rcases hid with h | h <;> simp [h]
        exact (ho4.ids _ hmem).2 _ hdb rfl
      · rw [Local.keys_eq, h3.log] at hkey
        simp [Write.uniqueKeys, WalletRow.uniqueKeys, WagerTransactionRow.uniqueKeys,
          WalletLedgerEntryRow.uniqueKeys] at hkey
    case refuse =>
      have hlength : ∀ ev ∈ openingEvents w entry
          (processedOpening w id payloadHash command.correlationId now)
          { eventId, correlationId := command.correlationId, causationId := none, occurredAt := now }
          changedId, ev.aggregateId.length ≤ 128 ∧ ev.occurredAt.isTimestamp = true := by
        have hwid : w.id.length = 36 := (isUuid_plain h.valid.canonical).2.2
        have htid : id.length = 36 := (isUuid_plain hvalid.canonical).2.2
        simp only [openingEvents, List.forall_mem_cons]
        refine ⟨⟨?_, hts⟩, ⟨?_, hts⟩, by simp⟩
        · exact Nat.le_trans (Nat.le_of_eq htid) (by decide)
        · exact Nat.le_trans (Nat.le_of_eq hwid) (by decide)
      obtain ⟨rfl, ev, hev, t, ht, hbad⟩ := event_rules hts hlength he
      refine hF _ _ _ (.payload ?_)
      simp only [openingEvents, List.mem_cons, List.not_mem_nil, or_false] at hev
      rcases hev with rfl | rfl
      · have : t = command.correlationId := by
          simpa [IntegrationEvent.foreignTexts, wagerTransactionProcessed] using ht
        exact this ▸ hbad
      · have : t = command.correlationId ∨ t = id := by
          simpa [IntegrationEvent.foreignTexts, walletBalanceChanged, processedOpening, openingOf]
            using ht
        rcases this with rfl | rfl
        · exact hbad
        · rw [isPlain_uuid (show isUuid t = true from hvalid.canonical)] at hbad
          cases hbad
    case done =>
      refine wp_pure fun sh5 hr5 hs5 ho5 => ?_
      have h5 := h3.push (.insertOutbox ((openingEvents w entry
        (processedOpening w id payloadHash command.correlationId now)
        { eventId, correlationId := command.correlationId, causationId := none, occurredAt := now }
        changedId).map (toOutboxRow now))) fun k hk id' hid' => by
          simp only [Write.uniqueKeys, outboxKeys_eq, List.mem_map] at hk
          obtain ⟨-, ⟨ev, hev, rfl⟩, rfl⟩ := hk
          cases hid'
          simp only [openingEvents, List.mem_cons, List.not_mem_nil, or_false] at hev
          rcases hev with rfl | rfl
          · exact List.mem_cons_of_mem _ List.mem_cons_self
          · exact List.mem_cons_self
      have hid5 := List.mem_cons_of_mem changedId (List.mem_cons_of_mem eventId hid)
      exact hP _ _ (h5.ready hs5 ho5 hentry hpos hversion
        (by simp [toOutboxRow, Function.comp_def]; rfl) hvalid hid5)
        (h5.created ho5 hid5 hpos hmoney)

/-- The statements of an opening after its reservation. -/
theorem wp_openingStatements (h : Opens w [.insertWager (openingRow w id payloadHash
      command.correlationId now)] l) (hid : id ∈ l.ids) (hentry : OpeningEntry w id now entry)
    (hentryId : entry.id ∈ l.ids) (hpos : 0 < w.balance.cents) (hversion : w.version = 1)
    (hnow : now.isReading = true)
    (hvalid : (openingRow w id payloadHash command.correlationId now).Valid)
    (hmoney : Money.from command.initialBalance = .ok w.balance)
    (hP : ∀ sh' l', Ready sh' l' → WalletCreated command sh' l' (walletView w) →
      P sh' l' (walletView w))
    (hF : ∀ sh' l' e, CreateFailure command l' e → F sh' l' e) :
    (do
      let opening ← domain ((openingOf w id payloadHash command.correlationId now).markProcessed none
        w.balance now)
      call (.updateWager opening)
      call (.insertLedger entry)
      let eventId ← call .nextId
      let context : EventContext :=
        { eventId, correlationId := command.correlationId, causationId := none, occurredAt := now }
      let changedId ← call .nextId
      call (.enqueue (openingEvents w entry opening context changedId) now)
      pure (walletView w) : Code WalletView).wp discipline P F sh l := by
  have hts := Instant.isReading_isTimestamp hnow
  have hmark : (openingOf w id payloadHash command.correlationId now).markProcessed none w.balance
      now = .ok (processedOpening w id payloadHash command.correlationId now) :=
    WagerTransaction.markProcessed_eq rfl none w.balance now
  rw [hmark, domain_ok, Program.pure_ctor_bind_eq]
  have hwaiting : Waiting (openingOf w id payloadHash (Text.stored command.correlationId) now) :=
    ⟨hvalid, rfl⟩
  have hprocessed : (processedRow w id payloadHash command.correlationId now).Valid :=
    hwaiting.processed none w.balance (by simp) (fun hk => by cases hk) h.storable.nonneg hts
  have hset : (toWagerTransactionRow (processedOpening w id payloadHash command.correlationId now)).set
      (openingRow w id payloadHash command.correlationId now) =
      processedRow w id payloadHash command.correlationId now := rfl
  refine wp_updateWager fun sh1 hr1 hs1 ho1 =>
    ⟨openingRow w id payloadHash command.correlationId now, ?found, ?rules, ?ledger⟩
  case found =>
    have hnone : Keyed.lookup WagerTransactionRow.id id sh1.db.wagers = none :=
      Keyed.lookup_eq_none.mpr (ho1.wager_fresh hid)
    rw [Local.view, h.log]
    simp only [Database.after_cons, Database.after_nil, Write.apply, Database.wagerById,
      Keyed.lookup_append]
    rw [show (processedOpening w id payloadHash command.correlationId now).id = id from rfl, hnone]
    simp [Keyed.lookup, openingRow, toWagerTransactionRow, openingOf]
  case rules =>
    have same : SameIdentity (openingRow w id payloadHash command.correlationId now)
        (processedRow w id payloadHash command.correlationId now) := by constructor <;> rfl
    have hwallet : toWalletRow w ∈ (l.view sh1.db).wallets := by
      rw [Local.view, h.log]
      simp [Write.apply]
    have hrules : ∀ rule ∈ wagerUpdateRules (l.view sh1.db)
        (openingRow w id payloadHash command.correlationId now)
        ((processedRow w id payloadHash command.correlationId now).set
          (openingRow w id payloadHash command.correlationId now)), rule.holds = true :=
      update_rules hprocessed same rfl (fun _ hk => by cases hk) (fun r hr => by cases hr)
        fun m hm => by
          cases hm
          exact ⟨toWalletRow w, hwallet, rfl, h.storable.currency.symm⟩
    exact hrules
  case ledger =>
    rw [hset]
    exact wp_openingLedger (h.push _ fun k hk => by cases hk) hid hentry hentryId hpos hversion hnow
      hprocessed hmoney hP hF

/-- `execute`, from its opening balance on. -/
theorem wp_recordOpening (h : Opens w [] l) (hid : id ∈ l.ids) (huuid : isCanonicalUuid id = true)
    (hentry : OpeningEntry w id now entry) (hentryId : entry.id ∈ l.ids)
    (hpos : 0 < w.balance.cents) (hversion : w.version = 1) (hnow : now.isReading = true)
    (hmoney : Money.from command.initialBalance = .ok w.balance)
    (hP : ∀ sh' l', Ready sh' l' → WalletCreated command sh' l' (walletView w) →
      P sh' l' (walletView w))
    (hF : ∀ sh' l' e, CreateFailure command l' e → F sh' l' e) :
    (recordOpening command w entry id w.balance now).wp discipline P F sh l := by
  have hts := Instant.isReading_isTimestamp hnow
  unfold recordOpening
  rw [createOpening_eq hpos, domain_ok, Program.pure_ctor_bind_eq]
  refine wp_reserve rfl fun sh1 hr1 hs1 ho1 =>
    ⟨fun e he => ?refused, fun _ hconflict => ?conflict, fun hrules _ => ?reserved⟩
  case refused =>
    refine hF _ _ _ (.refused fun hfits => ?_)
    rw [refusal_eq_none.mpr (opening_rules h.valid hpos (length_payloadHashOf _)
      hfits.correlationId hts)] at he
    cases he
  case conflict =>
    obtain ⟨k, hk, hmem⟩ := hconflict
    rw [openingOf_stored _ _ _ _ h.valid] at hk
    exact absurd hmem (h.reserve_free hs1 ho1 hid k hk)
  case reserved =>
    have hvalid := openingRow_valid h.valid huuid (refusal_eq_none.mp hrules)
    have hstorable : (openingOf w id (payloadHashOf (openingPayload w w.balance))
        (Text.stored command.correlationId) now).Storable := ⟨hpos, fun _ h => by cases h⟩
    rw [openingOf_stored _ _ _ _ h.valid]
    refine ⟨_, toWagerTransaction_toWagerTransactionRow hstorable, ?_⟩
    exact wp_openingStatements (h.push _ fun k hk id' hid' => by
      simp only [Write.uniqueKeys, WagerTransactionRow.uniqueKeys, List.mem_cons, List.not_mem_nil,
        or_false] at hk
      rcases hk with rfl | rfl | rfl <;> cases hid'
      exact hid) hid hentry hentryId hpos hversion hnow hvalid hmoney hP hF

/-- `execute`, once the wallet is inserted. -/
theorem wp_created {opening : WalletOpening} (hlog : l.log = [])
    (hvalid : (toWalletRow w).Valid) (hw : w.Storable) (hversion : w.version = 1)
    (hid : id ∈ l.ids) (huuid : isCanonicalUuid id = true) (hwallet : w.id ∈ l.ids)
    (hmoney : Money.from command.initialBalance = .ok w.balance) (hnow : now.isReading = true)
    (hnone : ¬ 0 < w.balance.cents → opening.openingEntry = none)
    (hsome : 0 < w.balance.cents → ∃ entry, opening.openingEntry = some entry ∧ entry.id ∈ l.ids ∧
      OpeningEntry w id now entry)
    (hP : ∀ sh' l' view, Ready sh' l' → WalletCreated command sh' l' view → P sh' l' view)
    (hF : ∀ sh' l' e, CreateFailure command l' e → F sh' l' e) :
    (match opening.openingEntry with
      | none => pure (walletView w)
      | some entry => recordOpening command w entry id w.balance now : Code WalletView).wp
      discipline P F sh (l.push (.insertWallet (toWalletRow w))) := by
  have h : Opens w [] (l.push (.insertWallet (toWalletRow w))) := by
    refine ⟨hvalid, hw, by rw [Local.push, hlog]; rfl, fun k hk id' hid' => ?_⟩
    rw [Local.push_keys, Local.keys_eq, hlog] at hk
    simp only [keysOf_nil, List.nil_append, Write.uniqueKeys, WalletRow.uniqueKeys, List.mem_cons,
      List.not_mem_nil, or_false] at hk
    rcases hk with rfl | rfl <;> cases hid'
    exact hwallet
  by_cases hpos : 0 < w.balance.cents
  · obtain ⟨entry, heq, hentryId, hentry⟩ := hsome hpos
    rw [heq]
    exact wp_recordOpening h hid huuid hentry hentryId hpos hversion hnow hmoney
      (fun sh' l' => hP sh' l' _) hF
  · rw [hnone hpos]
    refine wp_pure fun sh' hr hs ho => ?_
    have hzero : w.balance.cents = 0 := Int.le_antisymm (Int.not_lt.mp hpos) hw.nonneg
    exact hP _ _ _ (h.ready_empty ho hzero hversion) (h.created_empty hs ho hzero hmoney)

/-- `execute`, from the wallet that it opened on. -/
theorem wp_insertOpened {initialBalance : Money} {opening : WalletOpening} {walletId entryId : Text}
    (hlog : l.log = []) (hmoney : Money.from command.initialBalance = .ok initialBalance)
    (hnow : now.isReading = true) (hids : walletId ∈ l.ids ∧ id ∈ l.ids ∧ entryId ∈ l.ids)
    (huuid : isCanonicalUuid walletId = true ∧ isCanonicalUuid id = true)
    (hopen : Wallet.open walletId command.playerId initialBalance now entryId id = .ok opening)
    (hP : ∀ sh' l' view, Ready sh' l' → WalletCreated command sh' l' view → P sh' l' view)
    (hF : ∀ sh' l' e, CreateFailure command l' e → F sh' l' e) :
    (call (.insertIfAbsent opening.wallet) >>= fun answer =>
      match answer with
      | none => do
        let existing ← call
          (.findByPlayerAndCurrency command.playerId initialBalance.currency)
        throwApplication .walletAlreadyExists
          "a wallet already exists for this player and currency" (existing.map Wallet.id)
      | some created =>
        match opening.openingEntry with
        | none => pure (walletView created)
        | some openingEntry =>
          recordOpening command created openingEntry id initialBalance now : Code WalletView).wp
      discipline P F sh l := by
  have hts := Instant.isReading_isTimestamp hnow
  have hnonneg := (Money.from_spec hmoney).1
  obtain ⟨zero, hzero, hcurrency, heq⟩ :=
    Wallet.open_eq hnonneg walletId command.playerId now entryId id
  rw [heq, Except.ok.injEq] at hopen
  subst hopen
  refine wp_insertIfAbsent fun sh1 hr1 hs1 ho1 =>
    ⟨fun e he => ?refused, ?lost, fun hrules _ => ?created⟩
  case refused =>
    refine hF _ _ _ (.refused fun hfits => ?_)
    rw [refusal_eq_none.mpr (opening_wallet_rules hfits rfl rfl hnonneg rfl rfl rfl hts)] at he
    cases he
  case lost =>
    refine wp_findByPlayerAndCurrency fun sh2 hr2 hs2 ho2 => ⟨?_, fun answer => ?_⟩
    · rw [view_wallets_idle (by rw [hlog]; rfl)]
      exact hs2.wallets
    · exact wp_raise fun sh3 _ _ _ => hF _ _ _ (.exists rfl)
  case created =>
    have hvalid := opened_wallet_valid (refusal_eq_none.mp hrules) huuid.1 rfl
    let w : Wallet :=
      { id := walletId, playerId := Text.stored command.playerId,
        currency := initialBalance.currency, balance := initialBalance, version := 1,
        createdAt := now, updatedAt := now }
    have hw : w.Storable := ⟨rfl, hnonneg⟩
    have hvalid : (toWalletRow w).Valid := hvalid
    refine ⟨w, toWallet_toWalletRow hw, ?_⟩
    refine wp_created hlog hvalid hw rfl hids.2.1 huuid.2 hids.1 hmoney hnow (fun hpos => if_neg hpos)
      (fun hpos => ⟨_, if_pos hpos, ?_, ?_⟩) hP hF
    · exact hids.2.2
    · exact ⟨rfl, rfl, rfl, rfl, ⟨hzero, hcurrency⟩, rfl, rfl⟩

/-- `execute`. -/
theorem wp_createWallet (hlog : l.log = [])
    (hP : ∀ sh' l' view, Ready sh' l' → WalletCreated command sh' l' view → P sh' l' view)
    (hF : ∀ sh' l' e, CreateFailure command l' e → F sh' l' e) :
    (createWallet command).wp discipline P F sh l := by
  unfold createWallet
  cases hmoney : Money.from command.initialBalance with
  | error e =>
    refine wp_raise fun sh' _ _ _ => hF _ _ _ (.invalid fun money hok => ?_)
    rw [hmoney] at hok
    cases hok
  | ok initialBalance =>
    rw [domain_ok, Program.pure_ctor_bind_eq]
    refine wp_now fun sh1 hr1 hs1 ho1 now hnow => ?_
    refine wp_nextId fun sh2 hr2 hs2 ho2 walletId hwalletId _ => ?_
    refine wp_nextId fun sh3 hr3 hs3 ho3 transactionId htransactionId _ => ?_
    refine wp_nextId fun sh4 hr4 hs4 ho4 entryId _ _ => ?_
    obtain ⟨zero, -, -, hopen⟩ := Wallet.open_eq (Money.from_spec hmoney).1 walletId command.playerId
      now entryId transactionId
    rw [hopen, domain_ok, Program.pure_ctor_bind_eq]
    exact wp_insertOpened hlog hmoney hnow ⟨by simp, by simp, by simp⟩ ⟨hwalletId, htransactionId⟩
      hopen hP hF

end Wagering
