import Wagering.Correctness.History
import Wagering.Correctness.Testifying
import Wagering.Isolation.LockOrder

/-!
# What a wallet creation testifies

`CreateWalletUseCase.execute` as a typestate: which identifiers it generated,
whether it has written anything yet, and how its one insertion ended.  Its text
alone says that the view it returns is the wallet that it inserted, and that
WALLET_ALREADY_EXISTS carries what it found under the same player and currency;
`Creating.ties` says what that means for the tables.
-/

namespace Wagering

open Interleave

/-! ## The typestate -/

section Typestate

variable [Platform]

/-- What a wallet creation has done: the identifiers that it generated, whether
it has written nothing yet, the player and the currency for which its own new
wallet came too late, the wallet that it inserted with what was read back, and
what it looked up under which player and currency before it wrote anything. -/
structure Creating : Type where
  ids : List Text
  clean : Bool
  late : Option (Text × Text)
  created : Option (Wallet × Wallet)
  sought : Option (Text × Text × Option Wallet)

def Creating.start : Creating := ⟨[], true, none, none, none⟩

/-- Where a call and its answer lead. -/
def Creating.next (t : Creating) : (op : Op) → op.Answer → Creating
  | .now, _ => t
  | .nextId, id => { t with ids := id :: t.ids }
  | .insertIfAbsent wallet, none =>
    { t with
      late :=
        if t.clean && wallet.id ∈ t.ids then some (wallet.playerId, wallet.currency) else none
      sought := none }
  | .insertIfAbsent wallet, some created =>
    { t with clean := false, late := none, created := some (wallet, created) }
  | .findByPlayerAndCurrency playerId currency, found =>
    { t with sought := if t.clean then some (playerId, currency, found) else none }
  | _, _ => { t with clean := false, late := none }

/-- Everything is allowed; what counts is how it ends. -/
@[reducible] def creating : Typestate ports where
  State := Creating
  start := .start
  Allows := fun _ _ => True
  next := Creating.next

/-- The wallet that `command` asks for. -/
structure CreateWalletCommand.AsksFor (command : CreateWalletCommand) (wallet : Wallet) : Prop where
  playerId : wallet.playerId = command.playerId
  balance : Money.from command.initialBalance = .ok wallet.balance
  currency : wallet.currency = wallet.balance.currency
  version : wallet.version = 1

/-- The answer shows the wallet that was inserted. -/
def Created (command : CreateWalletCommand) (t : Creating) (a : Answer) : Prop :=
  ∃ wallet created, t.created = some (wallet, created) ∧ command.AsksFor wallet ∧
    a = .wallet (walletView created)

/-- An error that the use case throws names the wallet that was there before. -/
def CameLate (command : CreateWalletCommand) (t : Creating) (e : Failure) : Prop :=
  ∀ error, e = .application error → ∃ wallet found, command.AsksFor wallet ∧
    t.late = some (wallet.playerId, wallet.currency) ∧
    t.sought = some (wallet.playerId, wallet.currency, found) ∧
    error.code = .walletAlreadyExists ∧ error.existingId = found.map Wallet.id

/-- What the answer to an entry point says of its typestate. -/
def Entry.Created : Entry → Creating → Answer → Prop
  | .createWallet command => Wagering.Created command
  | _ => fun _ _ => True

/-- What an error of an entry point says of its typestate. -/
def Entry.CameLate : Entry → Creating → Failure → Prop
  | .createWallet command => Wagering.CameLate command
  | _ => fun _ _ => True

end Typestate

/-! ## The text of the use case -/

section Text

variable [Platform] {command : CreateWalletCommand} {t : Creating} {α β : Type}
  {P : Creating → β → Prop} {F : Creating → Failure → Prop}

theorem cameLate_domain (e : DomainError) : CameLate command t (.domain e) := by
  intro error h
  cases h

/-- Once the wallet is inserted, the rest of the transaction returns its view. -/
theorem recordOpening_testifies {wallet created : Wallet} {entry : WalletLedgerEntry} {id : Text}
    {money : Money} {now : Instant} (hasks : command.AsksFor wallet)
    (hcreated : t.created = some (wallet, created)) :
    (recordOpening command created entry id money now).Testifies creating
      (fun t view => Created command t (.wallet view)) (CameLate command) t := by
  unfold recordOpening
  refine testifies_domain (fun opening _ => ?_) cameLate_domain
  refine ⟨trivial, fun owned => testifies_domain (fun processed _ => ?_) cameLate_domain⟩
  refine ⟨trivial, fun _ => ⟨trivial, fun _ => ⟨trivial, fun eventId => ⟨trivial, fun changedId =>
    ⟨trivial, fun _ => ?_⟩⟩⟩⟩⟩
  exact ⟨wallet, created, hcreated, hasks, rfl⟩

theorem createWallet_testifies :
    (createWallet command).Testifies creating
      (fun t view => Created command t (.wallet view)) (CameLate command) .start := by
  unfold createWallet
  refine testifies_domain (fun money hmoney => ?_) cameLate_domain
  refine ⟨trivial, fun now => ⟨trivial, fun walletId => ⟨trivial, fun openingId =>
    ⟨trivial, fun entryId => testifies_domain (fun opening hopening => ?_) cameLate_domain⟩⟩⟩⟩
  obtain ⟨zero, -, -, hopen⟩ := Wallet.open_eq (Money.from_spec hmoney).1 walletId command.playerId
    now entryId openingId
  have heq := congrArg WalletOpening.wallet (Except.ok.inj (hopening.symm.trans hopen))
  have hasks : command.AsksFor opening.wallet := by
    rw [heq]
    exact ⟨rfl, hmoney, rfl, rfl⟩
  have hcurrency : money.currency = opening.wallet.currency := by rw [heq]
  have hfresh : opening.wallet.id ∈ [entryId, openingId, walletId] := by rw [heq]; simp
  refine ⟨trivial, fun answer => ?_⟩
  cases answer with
  | none =>
    rw [hcurrency, ← hasks.playerId]
    refine ⟨trivial, fun found error herror => ?_⟩
    cases herror
    have hlate : (true && decide (opening.wallet.id ∈ [entryId, openingId, walletId])) = true :=
      decide_eq_true hfresh
    exact ⟨opening.wallet, found, hasks, if_pos hlate, rfl, rfl, rfl⟩
  | some created =>
    cases hentry : opening.openingEntry with
    | none => exact ⟨opening.wallet, created, rfl, hasks, rfl⟩
    | some entry => exact recordOpening_testifies hasks rfl

/-- Every entry point testifies; only a wallet creation has something to say. -/
theorem units_testify [Driver] (entry : Entry) :
    (units entry).Testifies creating entry.Created entry.CameLate := by
  cases entry with
  | createWallet command =>
    exact ⟨Program.testifies_map createWallet_testifies, fun _ _ => trivial⟩
  | submit command => exact Job.testifies_nothing (fun _ _ => trivial) _
  | consume delivery command => exact Job.testifies_nothing (fun _ _ => trivial) _
  | resolvePending => exact Job.testifies_nothing (fun _ _ => trivial) _

end Text

/-! ## What it means for the tables -/

section Ties

variable [Platform] {sh sh' : Shared} {others : List Local} {l l' : Local} {t : Creating}

/-- A wallet of the player in the currency. -/
def Database.HasWallet (db : Database) (playerId currency : Text) (wallet : WalletRow) : Prop :=
  wallet ∈ db.wallets ∧ wallet.playerId = Text.stored playerId ∧ wallet.currency = currency

/-- What the typestate says of the tables and of the open transaction. -/
structure Creating.Tied (sh : Shared) (l : Local) (t : Creating) : Prop where
  ids : ∀ id ∈ t.ids, id ∈ l.ids
  clean : t.clean = true → l.log = []
  late : ∀ playerId currency, t.late = some (playerId, currency) →
    t.clean = true ∧ ∃ row, sh.db.HasWallet playerId currency row
  created : ∀ wallet created, t.created = some (wallet, created) →
    Write.insertWallet (toWalletRow wallet).stored ∈ l.log ∧
      toWallet (toWalletRow wallet).stored = .ok created
  sought : ∀ playerId currency found, t.late = some (playerId, currency) →
    t.sought = some (playerId, currency, found) →
    ∃ other, found = some other ∧ ∃ row, sh.db.HasWallet playerId currency row ∧ row.id = other.id

theorem Creating.Tied.start (sh : Shared) : Creating.Tied sh .start .start where
  ids := fun _ h => by cases h
  clean := fun _ => rfl
  late := fun _ _ h => by cases h
  created := fun _ _ h => by cases h
  sought := fun _ _ _ h => by cases h

omit [Platform] in
/-- A wallet stays its player's. -/
theorem Rely.hasWallet (hr : Rely l sh sh') {playerId currency : Text} {row : WalletRow}
    (h : sh.db.HasWallet playerId currency row) :
    ∃ row', sh'.db.HasWallet playerId currency row' ∧ row'.id = row.id := by
  obtain ⟨hmem, hplayer, hcurrency⟩ := h
  obtain ⟨row', hmem', same⟩ := hr.wallets row hmem
  exact ⟨row', ⟨hmem', same.playerId ▸ hplayer, same.currency ▸ hcurrency⟩, same.id.symm⟩

theorem Creating.Tied.rely (h : t.Tied sh l) (hr : Rely l sh sh') : t.Tied sh' l := by
  refine { h with late := fun playerId currency hlate => ?late,
                  sought := fun playerId currency found hlate hsought => ?sought }
  case late =>
    obtain ⟨hclean, row, hrow⟩ := h.late playerId currency hlate
    obtain ⟨row', hrow', -⟩ := hr.hasWallet hrow
    exact ⟨hclean, row', hrow'⟩
  case sought =>
    obtain ⟨other, rfl, row, hrow, hid⟩ := h.sought playerId currency found hlate hsought
    obtain ⟨row', hrow', hid'⟩ := hr.hasWallet hrow
    exact ⟨other, rfl, row', hrow', hid'.trans hid⟩

omit [Platform] in
/-- A call takes nothing back from its transaction. -/
theorem Effect.grows (h : Effect sh sh' others l l') :
    (∀ id ∈ l.ids, id ∈ l'.ids) ∧ ∀ write ∈ l.log, write ∈ l'.log := by
  cases h with
  | quiet log locks ids => exact ⟨fun id h => ids ▸ h, fun write h => log ▸ h⟩
  | identified => exact ⟨fun id h => List.mem_cons_of_mem _ h, fun write h => h⟩
  | locked log ids => exact ⟨fun id h => ids ▸ h, fun write h => log ▸ h⟩
  | wrote => exact ⟨fun id h => h, fun write h => List.mem_append_left _ h⟩

/-- A call that nothing is said of. -/
theorem Creating.Tied.other (h : t.Tied sh l) (heffect : Effect sh sh' others l l') :
    { t with clean := false, late := none : Creating }.Tied sh' l' where
  ids := fun id hid => heffect.grows.1 id (h.ids id hid)
  clean := fun hclean => by cases hclean
  late := fun _ _ hlate => by cases hlate
  created := fun wallet created hcreated => by
    obtain ⟨hmem, hread⟩ := h.created wallet created hcreated
    exact ⟨heffect.grows.2 _ hmem, hread⟩
  sought := fun _ _ _ hlate => by cases hlate

omit [Platform] in
theorem walletPlayer_mem_iff {db : Database} {playerId currency : Text} :
    .walletPlayer playerId currency ∈ db.uniqueKeys ↔
      ∃ row ∈ db.wallets, row.playerId = playerId ∧ row.currency = currency := by
  simp [Database.uniqueKeys, WalletRow.uniqueKeys, WagerTransactionRow.uniqueKeys,
    WalletLedgerEntryRow.uniqueKeys, OutboxMessageRow.uniqueKeys, eq_comm]

/-- An insertion that came too late, before anything was written: another wallet
of the player was committed. -/
theorem Creating.Tied.tooLate (h : t.Tied sh l) (ho : Own sh l) {wallet : Wallet}
    (hconflict : ∃ k ∈ (toWalletRow wallet).stored.uniqueKeys, k ∈ (l.view sh.db).uniqueKeys) :
    (t.next (.insertIfAbsent wallet) none).Tied sh { l with lostAt := some sh.db } := by
  refine
    { ids := h.ids
      clean := h.clean
      late := fun playerId currency hlate => ?late
      created := h.created
      sought := fun _ _ _ _ hsought => by cases hsought }
  have hfresh : (t.clean && decide (wallet.id ∈ t.ids)) = true := by
    by_contra hnot
    rw [Creating.next, if_neg hnot] at hlate
    cases hlate
  rw [Creating.next, if_pos hfresh] at hlate
  obtain ⟨rfl, rfl⟩ := Prod.mk.inj (Option.some.inj hlate)
  obtain ⟨hclean, hid⟩ := Bool.and_eq_true_iff.mp hfresh
  rw [Local.view, h.clean hclean] at hconflict
  refine ⟨hclean, ?_⟩
  obtain ⟨k, hk, hmem⟩ := hconflict
  rcases List.mem_cons.mp hk with rfl | hk
  -- the identifier is new, so it is the player's currency that is taken
  · have hnew := (ho.ids wallet.id (h.ids _ (of_decide_eq_true hid))).2 _ hmem
    exact absurd rfl hnew
  · rw [List.mem_singleton.mp hk] at hmem
    obtain ⟨row, hrow, hplayer, hcurrency⟩ := walletPlayer_mem_iff.mp hmem
    exact ⟨row, hrow, hplayer, hcurrency⟩

/-- What a wallet creation looks up once it came too late. -/
theorem Creating.Tied.find (h : t.Tied sh l) {playerId currency : Text}
    {found : Option Wallet}
    (hread : ∀ row, (l.view sh.db).walletByPlayer playerId currency = some row →
      ∃ other, found = some other ∧ other.id = row.id) :
    (t.next (.findByPlayerAndCurrency playerId currency) found).Tied sh l := by
  refine
    { ids := h.ids
      clean := h.clean
      late := h.late
      created := h.created
      sought := fun playerId' currency' found' hlate hsought => ?sought }
  obtain ⟨hclean, row, hmem, hplayer, hcurrency⟩ := h.late _ _ hlate
  simp only [Creating.next, hclean, if_true, Option.some.injEq, Prod.mk.injEq] at hsought
  obtain ⟨rfl, rfl, rfl⟩ := hsought
  rw [Local.view, h.clean hclean] at hread
  have hlookup : ∃ row', sh.db.walletByPlayer playerId currency = some row' := by
    cases hnone : sh.db.walletByPlayer playerId currency with
    | some row' => exact ⟨row', rfl⟩
    | none =>
      exact absurd (Prod.ext hplayer hcurrency) (Keyed.lookup_eq_none.mp hnone row hmem)
  obtain ⟨row', hrow'⟩ := hlookup
  obtain ⟨other, rfl, hid⟩ := hread row' hrow'
  obtain ⟨hplayer', hcurrency'⟩ := Prod.mk.inj (@Keyed.key_of_lookup _ _
    (fun row : WalletRow => (row.playerId, row.currency)) _ _ _ _ hrow')
  exact ⟨other, rfl, row', ⟨Keyed.mem_of_lookup hrow', hplayer', hcurrency'⟩, hid.symm⟩

/-- What an insertion that went through adds. -/
theorem Creating.Tied.insert (h : t.Tied sh l) {wallet created : Wallet}
    (hread : toWallet (toWalletRow wallet).stored = .ok created) :
    (t.next (.insertIfAbsent wallet) (some created)).Tied sh
      (l.push (.insertWallet (toWalletRow wallet).stored)) where
  ids := h.ids
  clean := fun hclean => by cases hclean
  late := fun _ _ hlate => by cases hlate
  created := fun wallet' created' hcreated => by
    obtain ⟨rfl, rfl⟩ := Prod.mk.inj (Option.some.inj hcreated)
    exact ⟨List.mem_append_right _ (List.mem_singleton.mpr rfl), hread⟩
  sought := fun _ _ _ hlate => by cases hlate

/-- Every call keeps the tie. -/
theorem Creating.Tied.exec (h : t.Tied sh l) (ho : Own sh l) {op : Op} {input : Input}
    {a : op.Answer} (hexec : exec sh others l op input = some (sh', .ok (a, l'))) :
    (t.next op a).Tied sh' l' := by
  obtain ⟨-, -, -, heffect⟩ := exec_effect hexec
  have hother := h.other (heffect a l' rfl)
  cases op
  case now =>
    cases input with
    | instant at_ =>
      simp only [Wagering.exec] at hexec
      split at hexec
      · cases hexec
        exact ⟨h.ids, h.clean, h.late, h.created, h.sought⟩
      · cases hexec
    | step => cases hexec
    | identity id => cases hexec
    | jitter numerator => cases hexec
  case nextId =>
    cases input with
    | identity id =>
      simp only [Wagering.exec] at hexec
      split at hexec
      · cases hexec
        exact { h with ids := fun id' hid' => List.mem_cons.mpr
                        ((List.mem_cons.mp hid').imp_right (h.ids id')) }
      · cases hexec
    | step => cases hexec
    | instant at_ => cases hexec
    | jitter numerator => cases hexec
  case insertIfAbsent wallet =>
    cases input with
    | step =>
      obtain ⟨rfl, ⟨e, -, hr⟩ | ⟨-, hconflict, hr⟩ | ⟨-, -, ⟨e, -, hr⟩ | ⟨created, hread, hr⟩⟩⟩ :=
        insertOrIgnore_cases hexec
      · cases hr
      · cases hr
        exact h.tooLate ho hconflict
      · cases hr
      · cases hr
        exact h.insert hread
    | identity id => cases hexec
    | instant at_ => cases hexec
    | jitter numerator => cases hexec
  case findByPlayerAndCurrency playerId currency =>
    cases input with
    | step =>
      obtain ⟨rfl, rfl, hread⟩ := found_ok hexec
      apply h.find
      intro row hrow
      rcases hread with ⟨hnone, -⟩ | ⟨row', other, hrow', hother, rfl⟩
      · rw [hnone] at hrow
        cases hrow
      · obtain rfl := Option.some.inj (hrow.symm.trans hrow')
        exact ⟨other, rfl, toWallet_ok hother⟩
    | identity id => cases hexec
    | instant at_ => cases hexec
    | jitter numerator => cases hexec
  all_goals exact hother

/-- The ties of a wallet creation. -/
def Creating.ties [Driver] : Ties discipline creating units Service.start where
  Tied := fun _ u => Creating.Tied u.shared
  start := fun {_ u} _ _ => Creating.Tied.start u.shared
  rely := fun _ _ _ _ _ h hr => h.rely hr
  exec := fun _ _ _ ho h _ hexec => h.exec ho hexec

end Ties

end Wagering
