import Wagering.Correctness.Judging
import Wagering.Correctness.Observing
import Wagering.Lib.Moments

/-!
# What the answers mean for the tables

All that a unit was answered held together in one state of the run after its
session began: a wallet is locked when it is read, a settled transaction stays,
and whatever else may change was the last answer.  What the unit has written of
transactions and entries can be read off where it stands.
-/

namespace Wagering

open Interleave

variable [Platform]

/-! ## Rows and what is read of them -/

section Rows

variable {row : WagerTransactionRow} {t : WagerTransaction}

/-- Writing what was read of a row that keeps its rules gives it back. -/
theorem toWagerTransaction_row (hcolumns : ∀ rule ∈ wagerColumnRules row, rule.holds = true)
    (hchecks : ∀ rule ∈ wagerCheckRules row, rule.holds = true)
    (h : toWagerTransaction row = .ok t) : toWagerTransactionRow t = row := by
  simp only [wagerColumnRules, wagerCheckRules, List.forall_mem_cons] at hcolumns hchecks
  obtain ⟨-, -, -, -, -, -, -, -, -, -, -, -, -, -, -, -, hamount, -, -, hresult, -⟩ := hcolumns
  obtain ⟨hpos, -, -, -, -, -, -, hpair, hnonneg, -⟩ := hchecks
  simp only [check, moneyRule, decide_eq_true_eq, Option.all_eq_true] at hpos hamount hpair hnonneg
  have hmoney : ∀ {m : Money}, moneyColumn row.amount row.currency = .ok m →
      row.amount = m.cents ∧ row.currency = m.currency :=
    fun hm => moneyColumn_ok (Int.le_of_lt hpos) hamount hm
  unfold toWagerTransaction at h
  simp only at h
  split at h
  · rename_i amount currency ha hc
    obtain ⟨balance, hbalance, hrest⟩ := bind_ok h
    obtain ⟨money, hm, ht⟩ := bind_ok hrest
    obtain ⟨hcents, hcurrency⟩ := hmoney hm
    rw [ha] at hresult
    cases hread : moneyColumn amount currency with
    | error e =>
      rw [hread] at hbalance
      cases hbalance
    | ok m =>
      rw [hread] at hbalance
      cases hbalance
      obtain ⟨rfl, rfl⟩ := moneyColumn_ok (by simpa using hnonneg amount ha)
        (by simpa [optional, moneyRule] using hresult) hread
      cases ht
      simp only [toWagerTransactionRow, Option.map_some, ← hcents, ← hcurrency, ← ha, ← hc]
  · rename_i hnot
    obtain ⟨balance, hbalance, hrest⟩ := bind_ok h
    obtain ⟨money, hm, ht⟩ := bind_ok hrest
    obtain ⟨hcents, hcurrency⟩ := hmoney hm
    -- the balance is there with its currency, or neither is
    obtain ⟨ha, hc⟩ : row.resultBalanceAmount = none ∧ row.resultBalanceCurrency = none := by
      cases ha : row.resultBalanceAmount with
      | none =>
        cases hc : row.resultBalanceCurrency with
        | none => exact ⟨rfl, rfl⟩
        | some c =>
          rw [ha, hc] at hpair
          cases hpair
      | some a =>
        cases hc : row.resultBalanceCurrency with
        | none =>
          rw [ha, hc] at hpair
          cases hpair
        | some c => exact (hnot a c ha hc).elim
    cases hbalance
    cases ht
    cases row
    cases ha
    cases hc
    cases hcents
    cases hcurrency
    rfl

end Rows

/-! ## What the unit has written -/

namespace Judging

/-- The row that the unit has reserved. -/
def reserved (s : Judging) : List WagerTransactionRow :=
  (s.asked.map fun t => (toWagerTransactionRow t).stored).toList

/-- The tables, with that row. -/
def seen (s : Judging) (db : Database) : Database :=
  { db with wagers := db.wagers ++ s.reserved }

/-- What the unit leaves of the transactions. -/
def leaves (s : Judging) (db : Database) : List WagerTransactionRow :=
  match s.written with
  | none => (s.seen db).wagers
  | some t =>
    Keyed.adjust WagerTransactionRow.id t.id (toWagerTransactionRow t).set (s.seen db).wagers

/-- The statements of the unit, by what it has done. -/
structure Wrote (s : Judging) (l : Local) : Prop where
  readings : l.readings = s.readings
  wallets : s.written = none → ∀ write ∈ l.log, write.isWallet = false
  wagers : ∀ db, (l.view db).wagers = s.leaves db
  ledger : ∀ db, (l.view db).ledger = db.ledger ++ s.entries.map toLedgerEntryRow

end Judging

/-- A row that a transaction has reserved. -/
structure WagerTransactionRow.Reserved (r : WagerTransactionRow) (l : Local) : Prop where
  status : r.status = .pending
  keys : ∀ k ∈ r.uniqueKeys, k ∈ l.keys
  columns : ∀ rule ∈ wagerColumnRules r, rule.holds = true
  checks : ∀ rule ∈ wagerCheckRules r, rule.holds = true

namespace Judging

/-- The rows that the unit has to itself. -/
structure HoldsRows (s : Judging) (sh : Shared) (l : Local) : Prop where
  reserved : ∀ r ∈ s.reserved, r.Reserved l
  read : ∀ r ∈ s.reserved, ∀ p ∈ s.row, toWagerTransactionRow p = r
  locked : s.asked = none → ∀ p ∈ s.row,
    toWagerTransactionRow p ∈ sh.db.wagers ∧ p.id ∈ l.wagers ∧ p.status = .pendingReference
  wallets : ∀ id w, .wallet id (some w) ∈ s.facts → uuidText id ∈ l.wallets

variable [Driver]

/-- A state of the run after session `i` has begun, in which its transaction is
still new, or still waits. -/
structure Begun (s : Judging) (i : Nat) (m : Service) : Prop where
  reachable : Reachable m
  session : ∃ x, m.sessions[i]? = some x
  fresh : ∀ r ∈ s.reserved, ∀ k ∈ r.uniqueKeys, k ∉ m.shared.db.uniqueKeys
  waiting : s.asked = none → ∀ p ∈ s.row, toWagerTransactionRow p ∈ m.shared.db.wagers

/-- The facts held together, and those that last still do. -/
abbrev Gathered (s : Judging) (i : Nat) (u : Service) : Prop :=
  Moments.Gathered (World.Next units) (fun m f => (s.seen m.shared.db).snapshot.Shows f)
    Finding.lasts (s.Begun i) s.facts u

/-- What a state of the typestate says of the world. -/
structure Tied (s : Judging) (i : Nat) (u : Service) (l : Local) : Prop where
  wrote : s.Wrote l
  rows : s.HoldsRows u.shared l
  gathered : s.Gathered i u

/-! ### Steps of the others -/

variable {s : Judging} {i : Nat} {u u' : Service} {l l' : Local} {sh sh' : Shared} {f : Finding}

omit [Driver] in
theorem HoldsRows.rely (h : s.HoldsRows sh l) (hr : Rely l sh sh') : s.HoldsRows sh' l :=
  { h with
    locked := fun hasked p hp => by
      obtain ⟨hmem, hheld, hstatus⟩ := h.locked hasked p hp
      exact ⟨(hr.lockedWagers _ hheld).mpr hmem, hheld, hstatus⟩ }

omit [Driver] in
/-- What lasts is not changed by others. -/
theorem HoldsRows.shows (hrows : s.HoldsRows sh l) (hs' : Sound sh') (hr : Rely l sh sh')
    (hf : f ∈ s.facts) (hlasts : f.lasts = true) (h : (s.seen sh.db).snapshot.Shows f) :
    (s.seen sh'.db).snapshot.Shows f := by
  cases f with
  | wallet id found =>
    obtain ⟨w, rfl⟩ := Option.isSome_iff_exists.mp hlasts
    obtain ⟨hwallet, hstorable⟩ := h
    refine ⟨?_, hstorable⟩
    have hlookup : sh.db.walletById (uuidText id) = some (toWalletRow w) := hwallet
    have hid : (toWalletRow w).id = uuidText id := Keyed.key_of_lookup hlookup
    have hheld := hrows.wallets id w hf
    have hmem := (hr.lockedWallets _ (hid ▸ hheld)).mpr (Keyed.mem_of_lookup hlookup)
    exact (Keyed.Distinct.lookup_eq_some hs'.books.walletIds).mpr ⟨hmem, hid⟩
  | transaction providerId external found =>
    obtain ⟨t, rfl⟩ : ∃ t, found = some t := by
      cases found with
      | none => cases hlasts
      | some t => exact ⟨t, rfl⟩
    have hterminal : (toWagerTransactionRow t).status.isTerminal = true := hlasts
    have hlookup : Keyed.lookup (fun row : WagerTransactionRow =>
        (row.providerId, row.externalTransactionId)) (Text.stored providerId, Text.stored external)
        (sh.db.wagers ++ s.reserved) = some (toWagerTransactionRow t) := h
    have hkey := Keyed.key_of_lookup hlookup
    -- a row that is reserved is not settled
    have hmem : toWagerTransactionRow t ∈ sh.db.wagers := by
      rcases List.mem_append.mp (Keyed.mem_of_lookup hlookup) with hmem | hmem
      · exact hmem
      · rw [(hrows.reserved _ hmem).status] at hterminal
        cases hterminal
    have hmem' := hr.terminal _ hmem hterminal
    change Keyed.lookup _ _ (sh'.db.wagers ++ s.reserved) = _
    rw [Keyed.lookup_append]
    cases hfound : Keyed.lookup (fun row : WagerTransactionRow =>
        (row.providerId, row.externalTransactionId)) (Text.stored providerId, Text.stored external)
        sh'.db.wagers with
    | none => exact absurd hkey (Keyed.lookup_eq_none.mp hfound _ hmem')
    | some r =>
      have hsame := Prod.mk.inj ((Keyed.key_of_lookup hfound).trans hkey.symm)
      have heq : r = toWagerTransactionRow t := by
        refine hs'.wager_eq (Keyed.mem_of_lookup hfound) hmem'
          (.wagerExternal r.providerId r.externalTransactionId) ?_ ?_
        · simp [WagerTransactionRow.uniqueKeys]
        · simp [WagerTransactionRow.uniqueKeys, hsame.1, hsame.2]
      rw [heq]
      rfl
  | reversed id found => cases hlasts

theorem Tied.rely (h : s.Tied i u l) (hnext : World.Next units u u') (hs' : Sound u'.shared)
    (hr : Rely l u.shared u'.shared) : s.Tied i u' l where
  wrote := h.wrote
  rows := h.rows.rely hr
  gathered := h.gathered.move hnext fun _ hf hlasts hshows =>
    h.rows.shows hs' hr hf hlasts hshows

/-! ### Steps of its own -/

omit [Driver] in
theorem leaves_none (h : s.written = none) (db : Database) :
    s.leaves db = db.wagers ++ s.reserved := by
  unfold leaves
  rw [h]
  rfl

omit [Driver] in
/-- As long as nothing is written, the unit sees the tables with its own row. -/
theorem Wrote.seen (h : s.Wrote l) (hnone : s.written = none) (db : Database) :
    (l.view db).wallets = (s.seen db).wallets ∧ (l.view db).wagers = (s.seen db).wagers :=
  ⟨wallets_after_none (h.wallets hnone) db, (h.wagers db).trans (leaves_none hnone db)⟩

omit [Driver] in
/-- A call that writes nothing. -/
theorem Wrote.frame (h : s.Wrote l) (hlog : l'.log = l.log) (hreadings : l'.readings = l.readings) :
    s.Wrote l' where
  readings := hreadings.trans h.readings
  wallets := fun hnone => hlog ▸ h.wallets hnone
  wagers := fun db => by
    rw [Local.view, hlog]
    exact h.wagers db
  ledger := fun db => by
    rw [Local.view, hlog]
    exact h.ledger db

omit [Platform] [Driver] in
theorem mem_log_push {write w : Write} {P : Write → Prop} (h : ∀ w ∈ l.log, P w) (hw : P write)
    (hmem : w ∈ (l.push write).log) : P w := by
  rcases List.mem_append.mp hmem with hmem | hmem
  · exact h w hmem
  · rw [List.mem_singleton.mp hmem]
    exact hw

omit [Driver] in
/-- A statement about something else. -/
theorem Wrote.push (h : s.Wrote l) {write : Write}
    (hwallet : write.isWallet = true → s.written.isSome = true) (hwager : write.isWager = false)
    (hledger : ∀ db, (write.apply db).ledger = db.ledger) : s.Wrote (l.push write) where
  readings := h.readings
  wallets := fun hnone w hw => mem_log_push (h.wallets hnone) (by
    rw [hnone] at hwallet
    cases hwrite : write.isWallet with
    | false => rfl
    | true => cases hwallet hwrite) hw
  wagers := fun db => by
    rw [Local.view_push, wagers_apply hwager]
    exact h.wagers db
  ledger := fun db => by
    rw [Local.view_push, hledger]
    exact h.ledger db

/-- The unit has learned nothing, and stays with its transaction. -/
theorem Tied.stay {s' : Judging} (h : s.Tied i u l) (hasked : s'.asked = s.asked)
    (hrow : s'.row = s.row) (hfacts : s'.facts = s.facts) (hwrote : s'.Wrote l')
    (hkeys : ∀ k ∈ l.keys, k ∈ l'.keys) (hwagers : l'.wagers = l.wagers)
    (hwallets : l'.wallets = l.wallets) : s'.Tied i u l' := by
  have hreserved : s'.reserved = s.reserved := by rw [reserved, hasked, reserved]
  obtain ⟨⟨m, hm, hsteps, hheld⟩, hlasting⟩ := h.gathered
  refine
    { wrote := hwrote
      rows :=
        { reserved := fun r hr => ?_
          read := by
            rw [hreserved, hrow]
            exact h.rows.read
          locked := by
            rw [hasked, hrow, hwagers]
            exact h.rows.locked
          wallets := by
            rw [hfacts, hwallets]
            exact h.rows.wallets }
      gathered := ?_ }
  · rw [hreserved] at hr
    obtain ⟨hstatus, hheld, hcolumns, hchecks⟩ := h.rows.reserved r hr
    exact ⟨hstatus, fun k hk => hkeys k (hheld k hk), hcolumns, hchecks⟩
  · have hseen : s'.seen = s.seen := by
      funext db
      rw [seen, hreserved, seen]
    rw [Gathered, hfacts, hseen]
    refine ⟨⟨m, ⟨hm.reachable, hm.session, ?_, ?_⟩, hsteps, hheld⟩, hlasting⟩
    · rw [hreserved]
      exact hm.fresh
    · rw [hasked, hrow]
      exact hm.waiting

omit [Platform] [Driver] in
theorem keys_push (l : Local) (write : Write) : ∀ k ∈ l.keys, k ∈ (l.push write).keys := by
  intro k hk
  rw [Local.push_keys]
  exact List.mem_append_left _ hk

/-- A call that writes nothing and answers nothing of interest. -/
theorem Tied.frame (h : s.Tied i u l) (hlog : l'.log = l.log) (hreadings : l'.readings = l.readings)
    (hwagers : l'.wagers = l.wagers) (hwallets : l'.wallets = l.wallets) : s.Tied i u l' :=
  h.stay rfl rfl rfl (h.wrote.frame hlog hreadings) (fun k hk => by rwa [Local.keys, hlog]) hwagers
    hwallets

/-- A statement about something else. -/
theorem Tied.push (h : s.Tied i u l) {write : Write}
    (hwallet : write.isWallet = true → s.written.isSome = true) (hwager : write.isWager = false)
    (hledger : ∀ db, (write.apply db).ledger = db.ledger) : s.Tied i u (l.push write) :=
  h.stay rfl rfl rfl (h.wrote.push hwallet hwager hledger) (keys_push l write) rfl rfl

/-- The world has moved, but not its tables. -/
theorem Tied.same (h : s.Tied i u l) (hnext : World.Next units u u')
    (hdb : u'.shared.db = u.shared.db) : s.Tied i u' l where
  wrote := h.wrote
  rows := { h.rows with locked := hdb ▸ h.rows.locked }
  gathered := h.gathered.move hnext fun _ _ _ hshows => hdb ▸ hshows

/-- The world is one that the session has reached with its transaction. -/
theorem Tied.begun (h : s.Tied i u l) (hu : Reachable u) (hi : ∃ x, u.sessions[i]? = some x)
    (ho : Own u.shared l) : s.Begun i u where
  reachable := hu
  session := hi
  fresh := fun r hr k hk => ho.free k ((h.rows.reserved r hr).keys k hk)
  waiting := fun hasked p hp => (h.rows.locked hasked p hp).1

/-- A new answer. -/
theorem Tied.learn (h : s.Tied i u l) (hbegun : s.Begun i u)
    (hf : (s.seen u.shared.db).snapshot.Shows f)
    (hwallet : ∀ id w, f = .wallet id (some w) → uuidText id ∈ l.wallets) :
    (s.learn f).Tied i u l where
  wrote := ⟨h.wrote.readings, h.wrote.wallets, h.wrote.wagers, h.wrote.ledger⟩
  rows :=
    { reserved := h.rows.reserved
      read := h.rows.read
      locked := h.rows.locked
      wallets := fun id w hmem => by
        rcases List.mem_cons.mp hmem with rfl | hmem
        · exact hwallet id w rfl
        · exact h.rows.wallets id w (List.mem_filter.mp hmem).1 }
  gathered := by
    obtain ⟨⟨m, hm, hsteps, hfacts⟩, hall⟩ := h.gathered.read hbegun hf
    exact ⟨⟨m, ⟨hm.reachable, hm.session, hm.fresh, hm.waiting⟩, hsteps, hfacts⟩, hall⟩

/-! ### The calls -/

variable {others : List Local}

theorem Tied.now (h : s.Tied i u l) (at_ : Instant) :
    (s.next .now at_).Tied i u { l with readings := at_ :: l.readings } :=
  h.stay rfl rfl rfl
    ⟨congrArg (List.cons at_) h.wrote.readings, h.wrote.wallets, h.wrote.wagers, h.wrote.ledger⟩
    (fun _ hk => hk) rfl rfl

/-- The unit has its transaction, and has asked nothing about it. -/
theorem Blank.take (hblank : s.Blank) {asked : Option WagerTransaction}
    {p : WagerTransaction}
    (hwrote : { s with asked, row := some p : Judging }.Wrote l')
    (hreserved : ∀ r ∈ { s with asked, row := some p : Judging }.reserved,
      r.Reserved l' ∧ toWagerTransactionRow p = r ∧ ∀ k ∈ r.uniqueKeys, k ∉ u.shared.db.uniqueKeys)
    (hlocked : asked = none → toWagerTransactionRow p ∈ u.shared.db.wagers ∧ p.id ∈ l'.wagers ∧
      p.status = .pendingReference)
    (hu : Reachable u) (hi : ∃ x, u.sessions[i]? = some x) :
    { s with asked, row := some p : Judging }.Tied i u l' where
  wrote := hwrote
  rows :=
    { reserved := fun r hr => (hreserved r hr).1
      read := fun r hr q hq => Option.some.inj hq ▸ (hreserved r hr).2.1
      locked := fun hasked q hq => Option.some.inj hq ▸ hlocked hasked
      wallets := fun id w hf => by
        rw [show ({ s with asked, row := some p : Judging }).facts = [] from hblank.facts] at hf
        cases hf }
  gathered := by
    rw [Gathered, show ({ s with asked, row := some p : Judging }).facts = [] from hblank.facts]
    exact Moments.Gathered.nothing ⟨hu, hi, fun r hr => (hreserved r hr).2.2,
      fun hasked q hq => Option.some.inj hq ▸ (hlocked hasked).1⟩

omit [Driver] in
theorem Blank.reserved (h : s.Blank) : s.reserved = [] := by
  unfold Judging.reserved
  rw [h.asked]
  rfl

theorem Tied.reserve (h : s.Tied i u l) (hblank : s.Blank) {t owned : WagerTransaction}
    (hstatus : t.status = .pending)
    (hrules : ∀ rule ∈ wagerColumnRules (toWagerTransactionRow t) ++
      wagerCheckRules (toWagerTransactionRow t), rule.holds = true)
    (hfree : ∀ k ∈ (toWagerTransactionRow t).stored.uniqueKeys,
      k ∉ (l.view u.shared.db).uniqueKeys)
    (hread : toWagerTransaction (toWagerTransactionRow t).stored = .ok owned)
    (hu : Reachable u) (hi : ∃ x, u.sessions[i]? = some x) :
    (s.next (.reserve t) (some owned)).Tied i u
      (l.push (.insertWager (toWagerTransactionRow t).stored)) := by
  rw [List.forall_mem_append] at hrules
  have hcolumns := stored_columns hrules.1
  have hchecks := stored_checks hrules.2
  refine hblank.take ?wrote ?reserved (fun hnone => by cases hnone) hu hi
  case wrote =>
    refine
      { readings := h.wrote.readings
        wallets := fun hnone w hw => mem_log_push (h.wrote.wallets hnone) rfl hw
        wagers := fun db => ?_
        ledger := fun db => by
          rw [Local.view_push]
          exact h.wrote.ledger db }
    have hnone : (s.next (.reserve t) (some owned)).written = none := hblank.written
    refine Eq.trans ?_ (leaves_none hnone db).symm
    rw [Local.view_push]
    change (l.view db).wagers ++ [_] = _
    rw [(h.wrote.wagers db).trans (leaves_none hblank.written db), hblank.reserved, List.append_nil]
    rfl
  case reserved =>
    intro r hr
    obtain rfl := List.mem_singleton.mp hr
    refine ⟨⟨hstatus, fun k hk => ?_, hcolumns, hchecks⟩,
      toWagerTransaction_row hcolumns hchecks hread, fun k hk hdb => ?_⟩
    · rw [Local.push_keys]
      exact List.mem_append_right _ hk
    · exact hfree k hk (mem_uniqueKeys_view.mpr (.inl hdb))

/-- A call that only locks a transaction. -/
theorem Tied.lockDue (h : s.Tied i u l) (hblank : s.Blank) (hs : Sound u.shared)
    {r : WagerTransactionRow} {p : WagerTransaction} (hr : r ∈ (l.view u.shared.db).wagers)
    (hwaits : r.status = .pendingReference) (hread : toWagerTransaction r = .ok p)
    (hu : Reachable u) (hi : ∃ x, u.sessions[i]? = some x) :
    { s with row := some p : Judging }.Tied i u { l with wagers := r.id :: l.wagers } := by
  rw [(h.wrote.wagers _).trans (leaves_none hblank.written _), hblank.reserved,
    List.append_nil] at hr
  obtain ⟨p', hload, hrow, -⟩ := (hs.wagers r hr).load
  obtain rfl := Except.ok.inj (hread.symm.trans hload)
  refine hblank.take ⟨h.wrote.readings, h.wrote.wallets, h.wrote.wagers, h.wrote.ledger⟩
    (fun r hmem => ?_) (fun _ => ⟨hrow.symm ▸ hr, ?_, ?_⟩) hu hi
  · rw [show ({ s with row := some p : Judging }).reserved = [] from hblank.reserved] at hmem
    cases hmem
  · rw [← hrow]
    exact List.mem_cons_self
  · rw [← hwaits, ← hrow]
    rfl

theorem Tied.updateWager (h : s.Tied i u l) (hnone : s.written = none) {t : WagerTransaction}
    {old : WagerTransactionRow} (hold : old.id = t.id) :
    (s.next (.updateWager t) ()).Tied i u
      (l.push (.updateWager ((toWagerTransactionRow t).set old))) := by
  refine h.stay rfl rfl rfl ?_ (keys_push l _) rfl rfl
  refine
    { readings := h.wrote.readings
      wallets := fun hnone => by cases hnone
      wagers := fun db => ?_
      ledger := fun db => by
        rw [Local.view_push]
        exact h.wrote.ledger db }
  rw [Local.view_push]
  change Keyed.adjust WagerTransactionRow.id old.id _ (l.view db).wagers = _
  rw [(h.wrote.wagers db).trans (leaves_none hnone db), hold]
  rfl

theorem Tied.insertLedger (h : s.Tied i u l) (entry : WalletLedgerEntry) :
    (s.next (.insertLedger entry) ()).Tied i u
      (l.push (.insertLedger (toLedgerEntryRow entry))) := by
  refine h.stay rfl rfl rfl ?_ (keys_push l _) rfl rfl
  refine
    { readings := h.wrote.readings
      wallets := fun hnone w hw => mem_log_push (h.wrote.wallets hnone) rfl hw
      wagers := fun db => by
        rw [Local.view_push]
        exact h.wrote.wagers db
      ledger := fun db => ?_ }
  rw [Local.view_push]
  change (l.view db).ledger ++ [_] = db.ledger ++ (s.entries ++ [entry]).map toLedgerEntryRow
  rw [h.wrote.ledger db, List.append_assoc, List.map_append, List.map_singleton]

/-- A wallet that is not there. -/
theorem Tied.missWallet (h : s.Tied i u l) (hnone : s.written = none) (hbegun : s.Begun i u)
    {id : Text} (hlookup : (l.view u.shared.db).walletById (uuidText id) = none) :
    (s.learn (.wallet id none)).Tied i u l := by
  refine h.learn hbegun ⟨?_, fun w hw => by cases hw⟩ fun id' w heq => by cases heq
  rw [Database.walletById, (h.wrote.seen hnone _).1] at hlookup
  exact hlookup

/-- A wallet that was locked, before any was written. -/
theorem Tied.lockWallet (h : s.Tied i u l) (hnone : s.written = none) (hs : Sound u.shared)
    (hbegun : s.Begun i u) {id : Text} {row : WalletRow} {w : Wallet}
    (hlookup : (l.view u.shared.db).walletById (uuidText id) = some row)
    (hread : toWallet row = .ok w) :
    (s.learn (.wallet id (some w))).Tied i u { l with wallets := row.id :: l.wallets } := by
  rw [Database.walletById, (h.wrote.seen hnone _).1] at hlookup
  obtain ⟨w', hload, hrow, hstorable⟩ := (hs.wallets row (Keyed.mem_of_lookup hlookup)).load
  obtain rfl := Except.ok.inj (hread.symm.trans hload)
  have hlocked : s.Tied i u { l with wallets := row.id :: l.wallets } :=
    { wrote := h.wrote.frame rfl rfl
      rows :=
        { h.rows with
          reserved := fun r hr => { h.rows.reserved r hr with }
          wallets := fun id' w' hf => List.mem_cons_of_mem _ (h.rows.wallets id' w' hf) }
      gathered := h.gathered }
  refine hlocked.learn hbegun ⟨?_, fun w' hw' => ?_⟩ fun id' w' heq => ?_
  · rw [Option.map_some, hrow]
    exact hlookup
  · obtain rfl := Option.some.inj hw'
    exact hstorable
  · cases heq
    rw [← Keyed.key_of_lookup hlookup]
    exact List.mem_cons_self

/-- A transaction that was looked up, before any was written. -/
theorem Tied.lookup (h : s.Tied i u l) (hnone : s.written = none) (hs : Sound u.shared)
    (hbegun : s.Begun i u) {providerId external : Text} {found : Option WagerTransaction}
    (hfound : (l.view u.shared.db).wagerByExternal providerId external = none ∧ found = none ∨
      ∃ row t, (l.view u.shared.db).wagerByExternal providerId external = some row ∧
        toWagerTransaction row = .ok t ∧ found = some t) :
    (s.learn (.transaction providerId external found)).Tied i u l := by
  refine h.learn hbegun ?_ fun id w heq => by cases heq
  rw [Database.wagerByExternal, (h.wrote.seen hnone _).2] at hfound
  rcases hfound with ⟨hlookup, rfl⟩ | ⟨row, t, hlookup, hread, rfl⟩
  · exact hlookup
  · have hrow : toWagerTransactionRow t = row := by
      rcases List.mem_append.mp (Keyed.mem_of_lookup hlookup) with hmem | hmem
      · have hvalid := hs.wagers row hmem
        exact toWagerTransaction_row hvalid.columns hvalid.checks hread
      · have hreserved := h.rows.reserved row hmem
        exact toWagerTransaction_row hreserved.columns hreserved.checks hread
    change (s.seen u.shared.db).wagerByExternal providerId external = some (toWagerTransactionRow t)
    rw [hrow]
    exact hlookup

/-- Every call keeps the tie. -/
theorem Tied.exec (h : s.Tied i u l) (hs : Sound u.shared) (ho : Own u.shared l)
    (hu : Reachable u) (hi : ∃ x, u.sessions[i]? = some x) {op : Op} {input : Input}
    {a : op.Answer} (hdb : u.shared.db = sh.db) (haside : (s.next op a).aside = false)
    (hallows : s.Allows op)
    (hexec : Wagering.exec sh others l op input = some (sh', .ok (a, l'))) :
    (s.next op a).Tied i u l' := by
  have hbegun := h.begun hu hi ho
  cases input with
  | instant at_ =>
    cases op
    case now =>
      simp only [Wagering.exec] at hexec
      split at hexec
      · cases hexec
        exact h.now at_
      · cases hexec
    all_goals cases hexec
  | identity id =>
    cases op
    case nextId =>
      simp only [Wagering.exec] at hexec
      split at hexec
      · cases hexec
        exact h.frame rfl rfl rfl rfl
      · cases hexec
    all_goals cases hexec
  | jitter numerator =>
    cases op
    case jitter =>
      simp only [Wagering.exec] at hexec
      split at hexec
      · cases hexec
        exact h
      · cases hexec
    all_goals cases hexec
  | step =>
    cases op with
    | now => cases hexec
    | nextId => cases hexec
    | jitter => cases hexec
    | attempt id =>
      cases hexec
      exact h.frame rfl rfl rfl rfl
    | insertIfAbsent wallet => cases haside
    | findByPlayerAndCurrency playerId currency =>
      obtain ⟨-, rfl, -⟩ := found_ok hexec
      exact h
    | lockWallet id =>
      have hnone : s.written = none :=
        hallows.resolve_left fun haside' => Bool.noConfusion (haside'.symm.trans haside)
      simp only [Wagering.exec, ← hdb] at hexec
      split at hexec
      · cases hexec
      · split at hexec
        · cases hexec
        · split at hexec
          · rename_i hlookup
            cases hexec
            exact h.missWallet hnone hbegun hlookup
          · rename_i row hlookup
            obtain ⟨-, rfl, ⟨hnone', -⟩ | ⟨r, w, hr, hread, rfl⟩⟩ := found_ok hexec
            · cases hnone'
            · cases hr
              exact h.lockWallet hnone hs hbegun hlookup hread
    | updateWallet wallet =>
      have hwritten : s.written.isSome = true :=
        hallows.resolve_left fun haside' => Bool.noConfusion (haside'.symm.trans haside)
      obtain ⟨-, old, rfl⟩ := updateRow_ok hexec
      exact h.push (fun _ => hwritten) rfl fun _ => rfl
    | reserve transaction =>
      simp only [Wagering.exec] at hexec
      split at hexec
      · cases hexec
      · rename_i hstatus
        obtain ⟨-, ⟨e, -, hr⟩ | ⟨-, -, hr⟩ | ⟨hrules, hfree, ⟨e, -, hr⟩ | ⟨owned, hread, hr⟩⟩⟩ :=
          insertOrIgnore_cases hexec
        · cases hr
        · cases hr
          exact h.frame rfl rfl rfl rfl
        · cases hr
        · cases hr
          have hblank : s.Blank :=
            hallows.resolve_left fun haside' => Bool.noConfusion (haside'.symm.trans haside)
          exact h.reserve hblank (not_not.mp hstatus) (refusal_eq_none.mp hrules) (hdb ▸ hfree) hread
            hu hi
    | findByIdempotencyKey providerId idempotencyKey =>
      obtain ⟨-, rfl, -⟩ := found_ok hexec
      exact h.frame rfl rfl rfl rfl
    | findByExternalId providerId external =>
      have hnone : s.written = none :=
        hallows.resolve_left fun haside' => Bool.noConfusion (haside'.symm.trans haside)
      simp only [Wagering.exec, ← hdb] at hexec
      obtain ⟨-, rfl, hfound⟩ := found_ok hexec
      exact h.lookup hnone hs hbegun hfound
    | hasActiveReversal id =>
      have hnone : s.written = none :=
        hallows.resolve_left fun haside' => Bool.noConfusion (haside'.symm.trans haside)
      simp only [Wagering.exec, ← hdb] at hexec
      cases hexec
      refine h.learn hbegun ?_ fun id' w heq => by cases heq
      rw [(h.wrote.seen hnone _).2]
      rfl
    | lockWager id => cases haside
    | lockDuePendingReference now =>
      simp only [Wagering.exec, ← hdb] at hexec
      split at hexec
      · cases hexec
        exact h
      · rename_i row hrow
        obtain ⟨-, rfl, ⟨hnone', -⟩ | ⟨r, t, hr, hread, rfl⟩⟩ := found_ok hexec
        · cases hnone'
        · cases hr
          have hblank : s.Blank :=
            hallows.resolve_left fun haside' => Bool.noConfusion (haside'.symm.trans haside)
          obtain ⟨hmem, hdue⟩ := List.mem_filter.mp (Keyed.least_mem hrow)
          simp only [Bool.and_eq_true, isDue, decide_eq_true_eq] at hdue
          exact h.lockDue hblank hs hmem hdue.1.1 hread hu hi
    | updateWager transaction =>
      obtain ⟨hnone, -⟩ :=
        hallows.resolve_left fun haside' => Bool.noConfusion (haside'.symm.trans haside)
      obtain ⟨-, old, hold, rfl⟩ := updateRow_found hexec
      exact h.updateWager hnone (Keyed.key_of_lookup hold)
    | insertLedger entry =>
      obtain ⟨-, rfl⟩ := insertPlain_ok hexec
      exact h.insertLedger entry
    | reserveInbox message =>
      obtain ⟨-, ⟨-, rfl⟩ | ⟨x, -, -, rfl⟩⟩ := insertOrIgnore_ok hexec
      · exact h
      · exact h.push (fun hw => by cases hw) rfl fun _ => rfl
    | findInbox key =>
      obtain ⟨-, rfl, -⟩ := found_ok hexec
      exact h
    | markInboxProcessed key processedAt =>
      obtain ⟨-, old, rfl⟩ := updateRow_ok hexec
      exact h.push (fun hw => by cases hw) rfl fun _ => rfl
    | enqueue events now =>
      simp only [Wagering.exec] at hexec
      split at hexec
      · cases hexec
        exact h
      · obtain ⟨-, rfl⟩ := insertPlain_ok hexec
        exact h.push (fun hw => by cases hw) rfl fun _ => rfl

/-! ## The tie -/

/-- The session has begun, and the tables that its transaction remembers are those
of a state since then. -/
structure Present (i : Nat) (u : Service) (l : Local) : Prop where
  session : ∃ x, u.sessions[i]? = some x
  remembered : ∀ db, l.lostAt = some db ∨ l.lookedAt = some db → ∃ m, Reachable m ∧
    (∃ x, m.sessions[i]? = some x) ∧ World.Steps units m u ∧ m.shared.db = db

theorem Present.next (h : Present i u l) (hnext : World.Next units u u') : Present i u' l where
  session := by
    obtain ⟨x, hx⟩ := h.session
    obtain ⟨x', hx', -⟩ := (World.Steps.extends (.single hnext)).entries hx
    exact ⟨x', hx'⟩
  remembered := fun db hdb => by
    obtain ⟨m, hm, hi, hsteps, heq⟩ := h.remembered db hdb
    exact ⟨m, hm, hi, hsteps.tail hnext, heq⟩

/-- A call remembers nothing but the tables that it meets. -/
theorem Present.exec (h : Present i u l) (hu : Reachable u)
    (hremembers : Remembers u.shared l l') : Present i u l' where
  session := h.session
  remembered := fun db hdb => by
    have hnow : some u.shared.db = some db → ∃ m, Reachable m ∧
        (∃ x, m.sessions[i]? = some x) ∧ World.Steps units m u ∧ m.shared.db = db :=
      fun heq => ⟨u, hu, h.session, .refl, Option.some.inj heq⟩
    rcases hdb with hdb | hdb
    · rcases hremembers.lostAt with hold | hnew
      · exact h.remembered db (.inl (hold ▸ hdb))
      · exact hnow (hnew.symm.trans hdb)
    · rcases hremembers.lookedAt with hold | hnew
      · exact h.remembered db (.inr (hold ▸ hdb))
      · exact hnow (hnew.symm.trans hdb)

/-- The ties of a unit that judges. -/
def ties : Ties discipline judging units Service.start where
  Tied := fun i u l s => Present i u l ∧ (s.aside = false → s.Tied i u l)
  start := fun {i u} hu hi => by
    refine ⟨⟨hi, fun _ hdb => hdb.elim (fun h => by cases h) fun h => by cases h⟩, fun _ => ?_⟩
    exact
      { wrote := ⟨rfl, fun _ _ hw => (List.not_mem_nil hw).elim, fun _ => (List.append_nil _).symm,
          fun _ => (List.append_nil _).symm⟩
        rows :=
          { reserved := fun _ hr => (List.not_mem_nil hr).elim
            read := fun _ hr => (List.not_mem_nil hr).elim
            locked := fun _ _ hp => by cases hp
            wallets := fun _ _ hf => (List.not_mem_nil hf).elim }
        gathered := .nothing
          { reachable := hu
            session := hi
            fresh := fun _ hr => (List.not_mem_nil hr).elim
            waiting := fun _ _ hp => by cases hp } }
  rely := fun _ hnext _ _ hs' h hr => ⟨h.1.next hnext, fun haside => (h.2 haside).rely hnext hs' hr⟩
  exec := fun {i u u' _ l op input _ _ s} hu hnext hs ho h hallows hexec => by
    obtain ⟨hdb, -, hissued, heffect⟩ := exec_effect hexec
    have hremembers := (heffect _ _ rfl).remembers
    have hpresent := h.1.next hnext
    refine ⟨hpresent.exec (hu.tail hnext) ⟨?_, ?_⟩, fun haside => ?_⟩
    · rw [hdb]
      exact hremembers.lostAt
    · rw [hdb]
      exact hremembers.lookedAt
    have hbefore : s.aside = false :=
      Bool.eq_false_iff.mpr fun ht => Bool.noConfusion ((next_aside ht).symm.trans haside)
    exact ((h.2 hbefore).same hnext hdb).exec (hs.of_same hdb hissued)
      (ho.rely (.of_same hdb hissued)) (hu.tail hnext) hpresent.session hdb haside hallows hexec

end Judging

end Wagering
