import Wagering.Correctness.History
import Wagering.Correctness.Sighting

/-!
# What a sighting means for the tables

A wallet in hand is a row that the transaction holds, as the transaction sees
it; the transaction it works on is a row that it holds and alone has written.
Nobody else changes either before the commit, so what the unit has seen is what
its commit leaves behind.
-/

namespace Wagering

open Interleave

variable {sh sh' : Shared} {l l' : Local} {db db' : Database} {log : List Write}

/-! ## Rows that the transaction holds -/

/-- The statement is about wallets. -/
def Write.isWallet : Write → Bool
  | .insertWallet _ | .updateWallet _ => true
  | _ => false

/-- The statement is about transactions. -/
def Write.isWager : Write → Bool
  | .insertWager _ | .updateWager _ => true
  | _ => false

theorem wallets_apply {write : Write} (h : write.isWallet = false) (db : Database) :
    (write.apply db).wallets = db.wallets := by
  cases write with
  | insertWallet row => cases h
  | updateWallet row => cases h
  | _ => rfl

theorem wagers_apply {write : Write} (h : write.isWager = false) (db : Database) :
    (write.apply db).wagers = db.wagers := by
  cases write with
  | insertWager row => cases h
  | updateWager row => cases h
  | _ => rfl

theorem wallets_after_none (h : ∀ write ∈ log, write.isWallet = false) (db : Database) :
    (db.after log).wallets = db.wallets := by
  induction log generalizing db with
  | nil => rfl
  | cons write log ih =>
    rw [Database.after_cons, ih (fun w hw => h w (List.mem_cons_of_mem _ hw)),
      wallets_apply (h write List.mem_cons_self)]

theorem wagers_after_none (h : ∀ write ∈ log, write.isWager = false) (db : Database) :
    (db.after log).wagers = db.wagers := by
  induction log generalizing db with
  | nil => rfl
  | cons write log ih =>
    rw [Database.after_cons, ih (fun w hw => h w (List.mem_cons_of_mem _ hw)),
      wagers_apply (h write List.mem_cons_self)]

/-- A wallet is seen alike over tables that have the same row of it. -/
theorem mem_wallets_after_mono {v : WalletRow} (hv : v ∈ (db.after log).wallets)
    (h : ∀ u ∈ db.wallets, u.id = v.id → u ∈ db'.wallets) : v ∈ (db'.after log).wallets := by
  induction log generalizing db db' with
  | nil => exact h v hv rfl
  | cons write log ih =>
    rw [Database.after_cons] at hv ⊢
    refine ih hv fun u hu hid => ?_
    cases write with
    | insertWallet row =>
      exact List.mem_append.mpr ((List.mem_append.mp hu).imp_left fun hu => h u hu hid)
    | updateWallet row =>
      refine Keyed.mem_adjust.mpr ((Keyed.mem_adjust.mp hu).imp ?_ ?_)
      · rintro ⟨old, hold, holdid, rfl⟩
        exact ⟨old, h old hold hid, holdid, rfl⟩
      · rintro ⟨hu, hne⟩
        exact ⟨h u hu hid, hne⟩
    | _ => exact h u hu hid

/-- A transaction is seen alike over tables that have the same row of it. -/
theorem mem_wagers_after_mono {r : WagerTransactionRow} (hr : r ∈ (db.after log).wagers)
    (h : ∀ u ∈ db.wagers, u.id = r.id → u ∈ db'.wagers) : r ∈ (db'.after log).wagers := by
  induction log generalizing db db' with
  | nil => exact h r hr rfl
  | cons write log ih =>
    rw [Database.after_cons] at hr ⊢
    refine ih hr fun u hu hid => ?_
    cases write with
    | insertWager row =>
      exact List.mem_append.mpr ((List.mem_append.mp hu).imp_left fun hu => h u hu hid)
    | updateWager row =>
      refine Keyed.mem_adjust.mpr ((Keyed.mem_adjust.mp hu).imp ?_ ?_)
      · rintro ⟨old, hold, holdid, rfl⟩
        exact ⟨old, h old hold hid, holdid, rfl⟩
      · rintro ⟨hu, hne⟩
        exact ⟨h u hu hid, hne⟩
    | _ => exact h u hu hid

/-- Nobody changes a wallet that the transaction holds. -/
theorem Rely.held_wallet (hr : Rely l sh sh') (ho : Own sh l) {v : WalletRow}
    (hheld : .walletId v.id ∈ l.holds) (hv : v ∈ (l.view sh.db).wallets) :
    v ∈ (l.view sh'.db).wallets := by
  refine mem_wallets_after_mono hv fun u hu hid => ?_
  rcases List.mem_append.mp hheld with hlock | hkey
  · rcases Local.mem_locks.mp hlock with ⟨id, hmem, heq⟩ | ⟨id, -, heq⟩
    · cases heq
      exact (hr.lockedWallets u (hid ▸ hmem)).mpr hu
    · cases heq
  · exact absurd (hid ▸ walletId_mem_uniqueKeys hu) (ho.free _ hkey)

/-- Nobody changes a transaction that the transaction holds. -/
theorem Rely.held_wager (hr : Rely l sh sh') (ho : Own sh l) {r : WagerTransactionRow}
    (hheld : .wagerId r.id ∈ l.holds) (hmem : r ∈ (l.view sh.db).wagers) :
    r ∈ (l.view sh'.db).wagers := by
  refine mem_wagers_after_mono hmem fun u hu hid => ?_
  rcases List.mem_append.mp hheld with hlock | hkey
  · rcases Local.mem_locks.mp hlock with ⟨id, -, heq⟩ | ⟨id, hmem', heq⟩
    · cases heq
    · cases heq
      exact (hr.lockedWagers u (hid ▸ hmem')).mpr hu
  · exact absurd (hid ▸ wagerId_mem_uniqueKeys hu) (ho.free _ hkey)

theorem Local.holds_push {k : UniqueKey} (h : k ∈ l.holds) (write : Write) :
    k ∈ (l.push write).holds := by
  rw [Local.holds, Local.push_locks, Local.push_keys]
  exact (List.mem_append.mp h).elim (fun h => List.mem_append_left _ h) fun h =>
    List.mem_append_right _ (List.mem_append_left _ h)

theorem Local.holds_frame (hlog : l'.log = l.log) (hlocks : ∀ k ∈ l.locks, k ∈ l'.locks)
    {k : UniqueKey} (h : k ∈ l.holds) : k ∈ l'.holds := by
  rw [Local.holds, Local.keys_eq, hlog]
  exact List.mem_append.mpr ((List.mem_append.mp h).imp_left (hlocks k))

theorem Local.view_push (write : Write) (db : Database) :
    (l.push write).view db = write.apply (l.view db) := by
  rw [Local.view, Local.push, Database.after_append]
  rfl

/-! ## The wallet in hand -/

section Ties

variable [Platform] {s : Sighting}

/-- The row of the wallet, by what the unit knows of it. -/
structure WalletRow.Holds (v : WalletRow) (w : Wallet) : Prop where
  id : v.id = w.id
  playerId : v.playerId = w.playerId
  stored : Text.stored v.playerId = v.playerId
  currency : v.currency = w.balance.currency
  balance : v.balance = w.balance.cents

theorem moneyColumn_ok {amount : Int} {currency : Text} {m : Money} (hnonneg : 0 ≤ amount)
    (hrange : amount.natAbs ≤ maxAbsolute) (h : moneyColumn amount currency = .ok m) :
    amount = m.cents ∧ currency = m.currency := by
  have hcurrency : m.currency = currency := (Money.from_spec h).2
  have hiso : isIsoCurrency currency = true := hcurrency ▸ m.isoCurrency
  have hread : moneyColumn amount currency = .ok ⟨amount, currency, hrange, hiso⟩ :=
    Money.from_toFixed hnonneg hrange hiso
  obtain rfl := Except.ok.inj (h.symm.trans hread)
  exact ⟨rfl, rfl⟩

/-- What was read of a row that keeps its rules. -/
theorem WalletRow.holds_of_rules {row : WalletRow} {w : Wallet}
    (hrules : ∀ rule ∈ walletRules row, rule.holds = true) (hread : toWallet row.stored = .ok w) :
    row.stored.Holds w := by
  simp only [walletRules, List.forall_mem_cons] at hrules
  obtain ⟨-, -, -, hrange, -, -, -, hnonneg, -⟩ := hrules
  simp only [moneyRule, check, decide_eq_true_eq] at hrange hnonneg
  obtain ⟨balance, hbalance, hread⟩ := bind_ok hread
  obtain ⟨hcents, hcurrency⟩ := moneyColumn_ok hnonneg hrange hbalance
  cases hread
  exact ⟨rfl, rfl, Text.stored_stored _, hcurrency, hcents⟩

/-- The wallet in hand is a row that the transaction holds, and the one that was
sought; while there is none, no wallet has been written. -/
structure HandTied (sh : Shared) (l : Local) (sought : Option Text) (hand : Option Wallet) :
    Prop where
  untouched : hand = none → ∀ write ∈ l.log, write.isWallet = false
  held : ∀ w ∈ hand, ∃ v ∈ (l.view sh.db).wallets, .walletId v.id ∈ l.holds ∧ v.Holds w ∧
    ∀ id ∈ sought, v.id = uuidText id

variable {sought : Option Text} {hand : Option Wallet}

theorem HandTied.rely (h : HandTied sh l sought hand) (ho : Own sh l) (hr : Rely l sh sh') :
    HandTied sh' l sought hand where
  untouched := h.untouched
  held := fun w hw => by
    obtain ⟨v, hv, hheld, hrest⟩ := h.held w hw
    exact ⟨v, hr.held_wallet ho hheld hv, hheld, hrest⟩

theorem HandTied.frame (h : HandTied sh l sought hand) (hlog : l'.log = l.log)
    (hlocks : ∀ k ∈ l.locks, k ∈ l'.locks) : HandTied sh l' sought hand where
  untouched := hlog ▸ h.untouched
  held := fun w hw => by
    obtain ⟨v, hv, hheld, hrest⟩ := h.held w hw
    rw [Local.view, hlog]
    exact ⟨v, hv, Local.holds_frame hlog hlocks hheld, hrest⟩

/-- A statement about something else. -/
theorem HandTied.push (h : HandTied sh l sought hand) {write : Write}
    (hwrite : write.isWallet = false) : HandTied sh (l.push write) sought hand where
  untouched := fun hnone w hw => by
    rcases List.mem_append.mp hw with hw | hw
    · exact h.untouched hnone w hw
    · rw [List.mem_singleton.mp hw]
      exact hwrite
  held := fun w hw => by
    obtain ⟨v, hv, hheld, hrest⟩ := h.held w hw
    rw [Local.view_push, wallets_apply hwrite]
    exact ⟨v, hv, Local.holds_push hheld write, hrest⟩

/-- A wallet that was inserted. -/
theorem HandTied.insert {row : WalletRow} {created : Wallet}
    (hrules : ∀ rule ∈ walletRules row, rule.holds = true)
    (hread : toWallet row.stored = .ok created) (hsought : ∀ id ∈ sought, row.id = uuidText id) :
    HandTied sh (l.push (.insertWallet row.stored)) sought (some created) where
  untouched := fun hnone => by cases hnone
  held := fun w hw => by
    obtain rfl := Option.some.inj hw
    refine ⟨row.stored, ?_, ?_, WalletRow.holds_of_rules hrules hread, hsought⟩
    · rw [Local.view_push]
      exact List.mem_append_right _ (List.mem_singleton.mpr rfl)
    · rw [Local.holds, Local.push_keys]
      exact List.mem_append_right _ (List.mem_append_right _ List.mem_cons_self)

/-- A wallet that was locked, before any was written. -/
theorem HandTied.lock (h : HandTied sh l sought none) (hs : Sound sh) {id : Text} {row : WalletRow}
    {wallet : Wallet} (hrow : (l.view sh.db).walletById (uuidText id) = some row)
    (hread : toWallet row = .ok wallet) :
    HandTied sh { l with wallets := row.id :: l.wallets } (some id) (some wallet) where
  untouched := fun hnone => by cases hnone
  held := fun w hw => by
    obtain rfl := Option.some.inj hw
    have hmem := Keyed.mem_of_lookup hrow
    have hvalid := hs.wallets row (wallets_after_none (h.untouched rfl) sh.db ▸ hmem)
    have hholds : row.Holds wallet := by
      rw [← hvalid.stored] at hread ⊢
      exact WalletRow.holds_of_rules hvalid.rules hread
    refine ⟨row, hmem, ?_, hholds, fun id' hid' => ?_⟩
    · simp [Local.holds, Local.locks]
    · rw [← Option.some.inj hid']
      exact Keyed.key_of_lookup hrow

/-- The wallet in hand, written again. -/
theorem HandTied.update (h : HandTied sh l sought hand) {wallet w : Wallet} (hw : hand = some w)
    (hid : wallet.id = w.id) (hcurrency : wallet.balance.currency = w.balance.currency)
    (hplayer : wallet.playerId = w.playerId) {old : WalletRow} (hold : old.id = wallet.id) :
    HandTied sh (l.push (.updateWallet ((toWalletRow wallet).set old))) sought (some wallet) where
  untouched := fun hnone => by cases hnone
  held := fun w' hw' => by
    obtain rfl := Option.some.inj hw'
    obtain ⟨v, hv, hheld, hholds, hsought⟩ := h.held w hw
    refine ⟨(toWalletRow wallet).set v, ?_, Local.holds_push hheld _, ?_, hsought⟩
    · rw [Local.view_push]
      exact Keyed.mem_adjust.mpr (.inl ⟨v, hv, (hholds.id.trans hid.symm).trans hold.symm, rfl⟩)
    · exact ⟨hholds.id.trans hid.symm, hholds.playerId.trans hplayer.symm, hholds.stored,
        hholds.currency.trans hcurrency.symm, rfl⟩

/-! ## The transaction at work -/

/-- The row shows the transaction's status and balance. -/
structure WagerTransactionRow.Shows (r : WagerTransactionRow) (t : WagerTransaction) : Prop where
  status : r.status = t.status
  amount : r.resultBalanceAmount = t.resultBalance.map Money.cents
  currency : r.resultBalanceCurrency = t.resultBalance.map Money.currency

/-- The transaction at work is the one row that the transaction has written; as
long as there is none, it has written no such row. -/
structure RowTied (sh : Shared) (l : Local) (asked row written : Option WagerTransaction) :
    Prop where
  untouched : row = none → written = none ∧ ∀ write ∈ l.log, write.isWager = false
  own : ∀ p ∈ row, ∀ r : WagerTransactionRow,
    .insertWager r ∈ l.log ∨ .updateWager r ∈ l.log → r.id = p.id
  held : ∀ p ∈ row, ∃ r ∈ (l.view sh.db).wagers, .wagerId r.id ∈ l.holds ∧ r.id = p.id ∧
    r.walletId = p.walletId ∧ r.playerId = p.playerId ∧ ∀ t ∈ written, r.Shows t
  named : ∀ a ∈ asked, ∀ p ∈ row, p.id = a.id ∧ p.walletId = uuidText a.walletId ∧
    p.playerId = Text.stored a.playerId
  locked : asked = none → ∀ p ∈ row, ∃ r ∈ sh.db.wagers, r.id ∈ l.wagers ∧
    toWagerTransaction r = .ok p

variable {asked row written : Option WagerTransaction}

theorem RowTied.rely (h : RowTied sh l asked row written) (ho : Own sh l) (hr : Rely l sh sh') :
    RowTied sh' l asked row written :=
  { h with
    held := fun p hp => by
      obtain ⟨r, hmem, hheld, hrest⟩ := h.held p hp
      exact ⟨r, hr.held_wager ho hheld hmem, hheld, hrest⟩
    locked := fun hasked p hp => by
      obtain ⟨r, hmem, hlocked, hread⟩ := h.locked hasked p hp
      exact ⟨r, (hr.lockedWagers r hlocked).mpr hmem, hlocked, hread⟩ }

theorem RowTied.frame (h : RowTied sh l asked row written) (hlog : l'.log = l.log)
    (hlocks : ∀ k ∈ l.locks, k ∈ l'.locks) : RowTied sh l' asked row written where
  untouched := hlog ▸ h.untouched
  own := hlog ▸ h.own
  held := fun p hp => by
    obtain ⟨r, hmem, hheld, hrest⟩ := h.held p hp
    rw [Local.view, hlog]
    exact ⟨r, hmem, Local.holds_frame hlog hlocks hheld, hrest⟩
  named := h.named
  locked := fun hasked p hp => by
    obtain ⟨r, hmem, hlocked, hread⟩ := h.locked hasked p hp
    have hlock := hlocks (.wagerId r.id) (Local.mem_locks.mpr (.inr ⟨r.id, hlocked, rfl⟩))
    rcases Local.mem_locks.mp hlock with ⟨id, -, heq⟩ | ⟨id, hid, heq⟩
    · cases heq
    · cases heq
      exact ⟨r, hmem, hid, hread⟩

/-- A statement about something else. -/
theorem RowTied.push (h : RowTied sh l asked row written) {write : Write}
    (hwrite : write.isWager = false) : RowTied sh (l.push write) asked row written where
  untouched := fun hnone => by
    obtain ⟨hwritten, hlog⟩ := h.untouched hnone
    refine ⟨hwritten, fun w hw => ?_⟩
    rcases List.mem_append.mp hw with hw | hw
    · exact hlog w hw
    · rw [List.mem_singleton.mp hw]
      exact hwrite
  own := fun p hp r hr => by
    rcases hr with hr | hr
    all_goals
      rcases List.mem_append.mp hr with hr | hr
    · exact h.own p hp r (.inl hr)
    · rw [← List.mem_singleton.mp hr] at hwrite
      cases hwrite
    · exact h.own p hp r (.inr hr)
    · rw [← List.mem_singleton.mp hr] at hwrite
      cases hwrite
  held := fun p hp => by
    obtain ⟨r, hmem, hheld, hrest⟩ := h.held p hp
    rw [Local.view_push, wagers_apply hwrite]
    exact ⟨r, hmem, Local.holds_push hheld write, hrest⟩
  named := h.named
  locked := h.locked

/-- The columns of a transaction that was read. -/
theorem toWagerTransaction_columns {row : WagerTransactionRow} {t : WagerTransaction}
    (h : toWagerTransaction row = .ok t) :
    t.id = row.id ∧ t.walletId = row.walletId ∧ t.playerId = row.playerId := by
  unfold toWagerTransaction at h
  simp only at h
  split at h
  all_goals
    obtain ⟨resultBalance, -, h⟩ := bind_ok h
    obtain ⟨money, -, h⟩ := bind_ok h
    cases h
    exact ⟨rfl, rfl, rfl⟩

/-- A transaction that was reserved, before any was written. -/
theorem RowTied.reserve (h : RowTied sh l asked none written) {t owned : WagerTransaction}
    (hread : toWagerTransaction (toWagerTransactionRow t).stored = .ok owned) :
    RowTied sh (l.push (.insertWager (toWagerTransactionRow t).stored)) (some t) (some owned)
      written := by
  obtain ⟨hwritten, hlog⟩ := h.untouched rfl
  obtain ⟨hid, hwallet, hplayer⟩ := toWagerTransaction_columns hread
  refine
    { untouched := fun hnone => by cases hnone
      own := fun p hp r hr => ?own
      held := fun p hp => ?held
      named := fun a ha p hp => ?named
      locked := fun hnone => by cases hnone }
  case own =>
    obtain rfl := Option.some.inj hp
    rcases hr with hr | hr
    all_goals
      rcases List.mem_append.mp hr with hr | hr
    · cases hlog _ hr
    · cases List.mem_singleton.mp hr
      exact hid.symm
    · cases hlog _ hr
    · cases List.mem_singleton.mp hr
  case held =>
    obtain rfl := Option.some.inj hp
    refine ⟨(toWagerTransactionRow t).stored, ?_, ?_, hid.symm, hwallet.symm, hplayer.symm, ?_⟩
    · rw [Local.view_push]
      exact List.mem_append_right _ (List.mem_singleton.mpr rfl)
    · rw [Local.holds, Local.push_keys]
      exact List.mem_append_right _ (List.mem_append_right _ List.mem_cons_self)
    · intro t' ht'
      rw [hwritten] at ht'
      cases ht'
  case named =>
    obtain rfl := Option.some.inj ha
    obtain rfl := Option.some.inj hp
    exact ⟨hid, hwallet, hplayer⟩

/-- A transaction that was locked, before any was written. -/
theorem RowTied.lock (h : RowTied sh l asked none written) {r : WagerTransactionRow}
    {t : WagerTransaction} (hmem : r ∈ (l.view sh.db).wagers)
    (hread : toWagerTransaction r = .ok t) :
    RowTied sh { l with wagers := r.id :: l.wagers } none (some t) written := by
  obtain ⟨hwritten, hlog⟩ := h.untouched rfl
  obtain ⟨hid, hwallet, hplayer⟩ := toWagerTransaction_columns hread
  refine
    { untouched := fun hnone => by cases hnone
      own := fun p hp r hr => ?own
      held := fun p hp => ?held
      named := fun a ha => by cases ha
      locked := fun _ p hp => ?locked }
  case own =>
    rcases hr with hr | hr
    all_goals cases hlog _ hr
  case held =>
    obtain rfl := Option.some.inj hp
    refine ⟨r, hmem, ?_, hid.symm, hwallet.symm, hplayer.symm, ?_⟩
    · simp [Local.holds, Local.locks]
    · intro t' ht'
      rw [hwritten] at ht'
      cases ht'
  case locked =>
    obtain rfl := Option.some.inj hp
    exact ⟨r, wagers_after_none hlog sh.db ▸ hmem, List.mem_cons_self, hread⟩

/-- The transaction at work, written with its result. -/
theorem RowTied.update {p t : WagerTransaction} (h : RowTied sh l asked (some p) written)
    (hid : t.id = p.id) {old : WagerTransactionRow} (hold : old.id = t.id) :
    RowTied sh (l.push (.updateWager ((toWagerTransactionRow t).set old))) asked (some p)
      (some t) where
  untouched := fun hnone => by cases hnone
  own := fun q hq r hr => by
    obtain rfl := Option.some.inj hq
    rcases hr with hr | hr
    all_goals
      rcases List.mem_append.mp hr with hr | hr
    · exact h.own p rfl r (.inl hr)
    · cases List.mem_singleton.mp hr
    · exact h.own p rfl r (.inr hr)
    · cases List.mem_singleton.mp hr
      exact hold.trans hid
  held := fun q hq => by
    obtain rfl := Option.some.inj hq
    obtain ⟨r, hmem, hheld, hrid, hwallet, hplayer, -⟩ := h.held p rfl
    refine ⟨(toWagerTransactionRow t).set r, ?_, Local.holds_push hheld _, hrid, hwallet, hplayer,
      fun t' ht' => ?_⟩
    · rw [Local.view_push]
      exact Keyed.mem_adjust.mpr (.inl ⟨r, hmem, (hrid.trans hid.symm).trans hold.symm, rfl⟩)
    · obtain rfl := Option.some.inj ht'
      exact ⟨rfl, rfl, rfl⟩
  named := h.named
  locked := h.locked

/-! ## The tie -/

/-- What a sighting says of the tables. -/
structure Sighting.Tied (sh : Shared) (l : Local) (s : Sighting) : Prop where
  ids : ∀ id ∈ s.ids, uuidText id = id ∧ id ∈ l.ids
  hand : HandTied sh l s.sought s.hand
  row : RowTied sh l s.asked s.row s.written

theorem Sighting.Tied.start (sh : Shared) : Sighting.Tied sh .start .start where
  ids := fun _ h => by cases h
  hand := ⟨fun _ _ h => (List.not_mem_nil h).elim, fun _ h => by cases h⟩
  row :=
    { untouched := fun _ => ⟨rfl, fun _ h => (List.not_mem_nil h).elim⟩
      own := fun _ h => by cases h
      held := fun _ h => by cases h
      named := fun _ h => by cases h
      locked := fun _ _ h => by cases h }

theorem Sighting.Tied.rely (h : s.Tied sh l) (ho : Own sh l) (hr : Rely l sh sh') :
    s.Tied sh' l :=
  ⟨h.ids, h.hand.rely ho hr, h.row.rely ho hr⟩

/-- A call that writes nothing. -/
theorem Sighting.Tied.frame (h : s.Tied sh l) (hlog : l'.log = l.log)
    (hlocks : ∀ k ∈ l.locks, k ∈ l'.locks) (hids : ∀ id ∈ l.ids, id ∈ l'.ids) : s.Tied sh l' :=
  ⟨fun id hid => ⟨(h.ids id hid).1, hids id (h.ids id hid).2⟩, h.hand.frame hlog hlocks,
    h.row.frame hlog hlocks⟩

/-- A statement about neither. -/
theorem Sighting.Tied.push (h : s.Tied sh l) {write : Write} (hwallet : write.isWallet = false)
    (hwager : write.isWager = false) : s.Tied sh (l.push write) :=
  ⟨h.ids, h.hand.push hwallet, h.row.push hwager⟩

/-- The wallet that was inserted carries an identifier that was generated. -/
theorem Sighting.Tied.insertWallet (h : s.Tied sh l) {wallet created : Wallet}
    (hrules : ∀ rule ∈ walletRules (toWalletRow wallet), rule.holds = true)
    (hread : toWallet (toWalletRow wallet).stored = .ok created) :
    (s.next (.insertIfAbsent wallet) (some created)).Tied sh
      (l.push (.insertWallet (toWalletRow wallet).stored)) := by
  refine ⟨h.ids, HandTied.insert hrules hread fun id hid => ?_, h.row.push rfl⟩
  have hcreated : created.id = wallet.id := toWallet_ok hread
  simp only [Sighting.next] at hid
  have hmem : wallet.id ∈ s.ids := by
    by_contra hnot
    rw [if_neg hnot] at hid
    cases hid
  rw [if_pos hmem] at hid
  rw [← Option.some.inj hid, hcreated]
  exact (h.ids wallet.id hmem).1.symm

/-- The update of a transaction is that of the one at work. -/
theorem Sighting.Tied.updateWager (h : s.Tied sh l) (ho : Own sh l) {t : WagerTransaction}
    {old : WagerTransactionRow} (hallows : s.Allows (.updateWager t))
    (hold : (l.view sh.db).wagerById t.id = some old) :
    (s.next (.updateWager t) ()).Tied sh
      (l.push (.updateWager ((toWagerTransactionRow t).set old))) := by
  have hid : old.id = t.id := Keyed.key_of_lookup hold
  rcases hallows with ⟨p, hp, his⟩ | ⟨hnone, hgenerated⟩
  · have hsame : t.id = p.id := by
      rcases his with hsame | ⟨a, ha, hsame⟩
      · exact hsame
      · exact hsame.trans (h.row.named a ha p hp).1.symm
    have hrow : s.row = some p := hp
    refine ⟨h.ids, h.hand.push rfl, ?_⟩
    rw [show (s.next (.updateWager t) ()).row = some p from hrow]
    exact (hrow ▸ h.row).update hsame hid
  -- an identifier that was generated and not inserted is nobody's
  · have hmem := Keyed.mem_of_lookup hold
    rw [Local.view, wagers_after_none (h.row.untouched hnone).2] at hmem
    exact absurd hid (ho.wager_fresh (h.ids _ hgenerated).2 old hmem)

theorem Sighting.Tied.lockWager (h : s.Tied sh l) (hnone : s.row = none) {r : WagerTransactionRow}
    {t : WagerTransaction} (hmem : r ∈ (l.view sh.db).wagers)
    (hread : toWagerTransaction r = .ok t) :
    { s with asked := none, row := some t : Sighting }.Tied sh
      { l with wagers := r.id :: l.wagers } := by
  refine ⟨h.ids, h.hand.frame rfl fun k hk => ?_, (hnone ▸ h.row).lock hmem hread⟩
  exact List.mem_append.mpr ((List.mem_append.mp hk).imp_right (List.mem_cons_of_mem _))

omit [Platform] in
/-- An update that went through found its row. -/
theorem updateRow_found {ρ : Type} {table : String} {id : Text} {locked : Bool} {old? : Option ρ}
    {rules : ρ → List Rule} {write : ρ → Write} {a : Unit}
    (h : updateRow table id locked old? rules write sh l = some (sh', .ok (a, l'))) :
    sh' = sh ∧ ∃ old, old? = some old ∧ l' = l.push (write old) := by
  obtain ⟨hsh, hl⟩ := @updateRow_grants sh l ρ table id locked old? rules write
    (fun l' => ∃ old, old? = some old ∧ l' = l.push (write old))
    (fun old hold _ => ⟨old, hold, rfl⟩) sh' _ h
  exact ⟨hsh, hl a l' rfl⟩

/-- Every call keeps the tie. -/
theorem Sighting.Tied.exec {others : List Local} (h : s.Tied sh l) (hs : Sound sh) (ho : Own sh l)
    {op : Op} {input : Input} {a : op.Answer} (hallows : s.Allows op)
    (hexec : exec sh others l op input = some (sh', .ok (a, l'))) : (s.next op a).Tied sh' l' := by
  cases input with
  | instant at_ =>
    cases op
    case now =>
      simp only [Wagering.exec] at hexec
      split at hexec
      · cases hexec
        exact h.frame rfl (fun _ hk => hk) fun _ hid => hid
      · cases hexec
    all_goals cases hexec
  | identity id =>
    cases op
    case nextId =>
      simp only [Wagering.exec] at hexec
      split at hexec
      · rename_i hnew
        cases hexec
        rw [Bool.and_eq_true, isCanonicalUuid_iff] at hnew
        refine ⟨List.forall_mem_cons.mpr ⟨⟨hnew.1.2, List.mem_cons_self⟩, fun id' hid' => ?_⟩,
          ⟨h.hand.untouched, h.hand.held⟩, { h.row with }⟩
        exact ⟨(h.ids id' hid').1, List.mem_cons_of_mem _ (h.ids id' hid').2⟩
      · cases hexec
    all_goals cases hexec
  | jitter numerator =>
    cases op
    case jitter =>
      simp only [Wagering.exec] at hexec
      split at hexec
      · cases hexec
        exact h
      · cases hexec
    all_goals cases hexec
  | step =>
    cases op with
    | now => cases hexec
    | nextId => cases hexec
    | jitter => cases hexec
    | attempt id =>
      cases hexec
      exact h.frame rfl (fun _ hk => hk) fun _ hid => hid
    | insertIfAbsent wallet =>
      obtain ⟨rfl, ⟨e, -, hr⟩ | ⟨-, -, hr⟩ | ⟨hrules, -, ⟨e, -, hr⟩ | ⟨created, hread, hr⟩⟩⟩ :=
        insertOrIgnore_cases hexec
      · cases hr
      · cases hr
        exact h.frame rfl (fun _ hk => hk) fun _ hid => hid
      · cases hr
      · cases hr
        exact h.insertWallet (refusal_eq_none.mp hrules) hread
    | findByPlayerAndCurrency playerId currency =>
      obtain ⟨rfl, rfl, -⟩ := found_ok hexec
      exact h
    | lockWallet id =>
      simp only [Wagering.exec] at hexec
      split at hexec
      · cases hexec
      · split at hexec
        · cases hexec
        · split at hexec
          · cases hexec
            exact h
          · rename_i row hrow
            obtain ⟨rfl, rfl, ⟨hnone, -⟩ | ⟨r, wallet, hr, hread, rfl⟩⟩ := found_ok hexec
            · cases hnone
            · cases hr
              have hhand : s.hand = none := hallows
              refine ⟨h.ids, (hhand ▸ h.hand).lock hs hrow hread, h.row.frame rfl fun k hk => ?_⟩
              exact List.mem_append.mpr ((List.mem_append.mp hk).imp_left (List.mem_cons_of_mem _))
    | updateWallet wallet =>
      obtain ⟨w, hw, hid, hplayer, hcurrency⟩ := hallows
      obtain ⟨rfl, old, hold, rfl⟩ := updateRow_found hexec
      exact ⟨h.ids, h.hand.update hw hid hcurrency hplayer (Keyed.key_of_lookup hold),
        h.row.push rfl⟩
    | reserve transaction =>
      simp only [Wagering.exec] at hexec
      split at hexec
      · cases hexec
      · obtain ⟨rfl, ⟨rfl, rfl⟩ | ⟨owned, hread, rfl, rfl⟩⟩ := insertOrIgnore_ok hexec
        · exact h.frame rfl (fun _ hk => hk) fun _ hid => hid
        · have hrow : s.row = none := hallows
          exact ⟨h.ids, h.hand.push rfl, (hrow ▸ h.row).reserve hread⟩
    | findByIdempotencyKey providerId idempotencyKey =>
      obtain ⟨rfl, rfl, -⟩ := found_ok hexec
      exact h.frame rfl (fun _ hk => hk) fun _ hid => hid
    | findByExternalId providerId externalTransactionId =>
      obtain ⟨rfl, rfl, -⟩ := found_ok hexec
      exact h
    | hasActiveReversal referenceTransactionId =>
      cases hexec
      exact h
    | lockWager id =>
      have hnone : s.row = none := hallows
      simp only [Wagering.exec] at hexec
      split at hexec
      · cases hexec
      · split at hexec
        · cases hexec
          exact h
        · rename_i row hrow
          obtain ⟨rfl, rfl, ⟨hnone', -⟩ | ⟨r, t, hr, hread, rfl⟩⟩ := found_ok hexec
          · cases hnone'
          · cases hr
            exact h.lockWager hnone (Keyed.mem_of_lookup hrow) hread
    | lockDuePendingReference now =>
      have hnone : s.row = none := hallows
      simp only [Wagering.exec] at hexec
      split at hexec
      · cases hexec
        exact h
      · rename_i row hrow
        obtain ⟨rfl, rfl, ⟨hnone', -⟩ | ⟨r, t, hr, hread, rfl⟩⟩ := found_ok hexec
        · cases hnone'
        · cases hr
          exact h.lockWager hnone (List.mem_filter.mp (Keyed.least_mem hrow)).1 hread
    | updateWager transaction =>
      obtain ⟨rfl, old, hold, rfl⟩ := updateRow_found hexec
      exact h.updateWager ho hallows hold
    | insertLedger entry =>
      obtain ⟨rfl, rfl⟩ := insertPlain_ok hexec
      exact h.push rfl rfl
    | reserveInbox message =>
      obtain ⟨rfl, ⟨-, rfl⟩ | ⟨x, -, -, rfl⟩⟩ := insertOrIgnore_ok hexec
      · exact h
      · exact h.push rfl rfl
    | findInbox key =>
      obtain ⟨rfl, rfl, -⟩ := found_ok hexec
      exact h
    | markInboxProcessed key processedAt =>
      obtain ⟨rfl, old, rfl⟩ := updateRow_ok hexec
      exact h.push rfl rfl
    | enqueue events now =>
      simp only [Wagering.exec] at hexec
      split at hexec
      · cases hexec
        exact h
      · obtain ⟨rfl, rfl⟩ := insertPlain_ok hexec
        exact h.push rfl rfl

end Ties

end Wagering
