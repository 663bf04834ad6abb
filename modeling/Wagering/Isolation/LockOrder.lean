import Wagering.Application.Units
import Wagering.Isolation.Discipline
import Wagering.Lib.Typestate

/-!
# The order of locks

The stages in which a unit of work takes its locks: the inbox row, the identity
of its transaction, the pending row of the worker, the wallet, the link to the
reference, and the rest.  The stage that a unit has reached is a typestate, and
every unit follows it.
-/

namespace Wagering

open Interleave

/-! ## Stages -/

/-- The stage in which a key is taken. -/
def UniqueKey.stage : UniqueKey → Nat
  | .walletId _ | .walletPlayer _ _ | .inbox _ => 1
  | .wagerId _ | .wagerIdempotency _ _ | .wagerExternal _ _ => 2
  | .ledgerId _ | .ledgerTransaction _ _ | .outboxId _ => 6

/-- The reference that a statement links, which the foreign key locks FOR KEY SHARE. -/
def Write.links : Write → List Text
  | .updateWager row => row.referenceTransactionId.toList
  | _ => []

/-- The rows that the transaction holds FOR KEY SHARE. -/
def Local.shares (l : Local) : List Text := l.log.flatMap Write.links

section Order

variable [Platform]

/-- The stage that a call belongs to; reads belong to none. -/
def Op.stage : Op → Nat
  | .insertIfAbsent _ | .reserveInbox _ => 1
  | .reserve _ => 2
  | .lockDuePendingReference _ | .lockWager _ => 3
  | .lockWallet _ => 4
  | .updateWager _ => 5
  | .insertLedger _ | .enqueue _ _ => 6
  | _ => 0

/-- The call waits for the other transaction: for an entry of a unique index, for
a row that it holds FOR UPDATE, or for one that it holds FOR KEY SHARE.  Ledger
entries and events carry identifiers of their own and wait for nobody. -/
def Op.awaits (op : Op) (o : Local) : Bool :=
  match op with
  | .insertIfAbsent wallet => (toWalletRow wallet).stored.uniqueKeys.any fun k => k ∈ o.keys
  | .reserveInbox message => UniqueKey.inbox message.stored.key ∈ o.keys
  | .reserve transaction =>
    (toWagerTransactionRow transaction).stored.uniqueKeys.any fun k => k ∈ o.keys
  | .lockWager id => id ∈ o.wagers || id ∈ o.shares
  | .lockWallet id => uuidText id ∈ o.wallets
  | .updateWallet wallet => wallet.id ∈ o.wallets
  | .updateWager transaction =>
    transaction.id ∈ o.wagers || transaction.referenceTransactionId.any fun id => id ∈ o.wagers
  | _ => false

/-- What a unit of work has done: the stage that it has reached, the transactions
that it knows to be terminal, the identifiers that it generated, and the rows
that it inserted or locked. -/
structure LockState : Type where
  reached : Nat
  settled : List Text
  generated : List Text
  mine : List UniqueKey

namespace LockState

/-- A transaction that was read tells whether it is terminal, and so is its reference. -/
def learn (s : LockState) (t : WagerTransaction) : LockState :=
  { s with settled := t.referenceTransactionId.toList ++
      (if t.isTerminal then t.id :: s.settled else s.settled) }

/-- A row that was inserted or locked. -/
def own (s : LockState) (key : UniqueKey) : LockState := { s with mine := key :: s.mine }

/-- A stage that was reached. -/
def reach (s : LockState) (stage : Nat) : LockState := { s with reached := stage }

/-- The calls that keep to the order. -/
def Allows (s : LockState) : Op → Prop
  | .insertIfAbsent _ | .reserveInbox _ => s.reached < 1
  | .reserve t => s.reached < 2 ∧ t.referenceTransactionId = none ∧ t.id ∈ s.generated
  | .lockDuePendingReference _ | .lockWager _ => s.reached < 3
  | .lockWallet _ => s.reached < 4
  | .findByExternalId _ _ => s.reached < 5
  | .updateWager t => s.reached < 5 ∧ (.wagerId t.id ∈ s.mine ∨ t.id ∈ s.generated) ∧
      ∀ id ∈ t.referenceTransactionId, id ∈ s.settled
  | .updateWallet wallet => .walletId wallet.id ∈ s.mine
  | .insertLedger _ | .enqueue _ _ => 5 ≤ s.reached ∧ s.reached ≤ 6
  | _ => True

/-- What a call adds. -/
def next (s : LockState) : (op : Op) → op.Answer → LockState
  | .nextId, id => { s with generated := id :: s.generated }
  | .insertIfAbsent _, _ => s.reach 1
  | .reserveInbox _, _ => s.reach 1
  | .reserve _, some t => ((s.reach 2).own (.wagerId t.id)).learn t
  | .reserve _, none => s.reach 2
  | .lockDuePendingReference _, some t => ((s.reach 3).own (.wagerId t.id)).learn t
  | .lockDuePendingReference _, none => s.reach 3
  | .lockWager _, some t => ((s.reach 3).own (.wagerId t.id)).learn t
  | .lockWager _, none => s.reach 3
  | .lockWallet _, some wallet => (s.reach 4).own (.walletId wallet.id)
  | .lockWallet _, none => s.reach 4
  | .findByExternalId _ _, some t => s.learn t
  | .updateWager _, _ => s.reach 5
  | .insertLedger _, _ => s.reach 6
  | .enqueue _ _, _ => s.reach 6
  | _, _ => s

end LockState

/-- The order of locks, as a typestate. -/
abbrev lockOrder : Typestate ports where
  State := LockState
  start := ⟨0, [], [], []⟩
  Allows := LockState.Allows
  next := LockState.next

/-- What the typestate says of the open transaction and of the committed state. -/
structure Tied (sh : Shared) (l : Local) (s : LockState) : Prop where
  keys : ∀ k ∈ l.keys, k.stage ≤ s.reached
  wagers : ∀ id ∈ l.wagers, 3 ≤ s.reached
  wallets : ∀ id ∈ l.wallets, 4 ≤ s.reached
  updates : ∀ row, .updateWager row ∈ l.log → 5 ≤ s.reached
  inserted : ∀ row, .insertWager row ∈ l.log →
    row.status = .pending ∧ row.referenceTransactionId = none ∧ row.id ∈ l.ids
  waiting : ∀ id ∈ l.wagers, ∀ row ∈ sh.db.wagers, row.id = id → row.status.isTerminal = false
  settled : ∀ id ∈ s.settled, ∃ row ∈ sh.db.wagers, row.id = id ∧ row.status.isTerminal = true
  generated : ∀ id ∈ s.generated, id ∈ l.ids
  mine : ∀ k ∈ s.mine, k ∈ l.holds

end Order

/-! ## What a call keeps -/

variable {sh sh' : Shared} {others : List Local} {l l' : Local} {s : LockState}

theorem tied_start (sh : Shared) : Tied sh .start ⟨0, [], [], []⟩ := by
  constructor <;> intro x hx <;> cases hx

/-- Nobody else settles a transaction that is locked, or takes back a result. -/
theorem Tied.rely (h : Tied sh l s) (hr : Rely l sh sh') : Tied sh' l s :=
  { h with
    waiting := fun id hid row hrow heq =>
      h.waiting id hid row ((hr.lockedWagers row (heq ▸ hid)).mp hrow) heq
    settled := fun id hid => by
      obtain ⟨row, hrow, heq, hterminal⟩ := h.settled id hid
      exact ⟨row, hr.terminal row hrow hterminal, heq, hterminal⟩ }

theorem Tied.reach (h : Tied sh l s) {stage : Nat} (hstage : s.reached ≤ stage) :
    Tied sh l (s.reach stage) :=
  { h with
    keys := fun k hk => Nat.le_trans (h.keys k hk) hstage
    wagers := fun id hid => Nat.le_trans (h.wagers id hid) hstage
    wallets := fun id hid => Nat.le_trans (h.wallets id hid) hstage
    updates := fun row hrow => Nat.le_trans (h.updates row hrow) hstage }

theorem Tied.own (h : Tied sh l s) {k : UniqueKey} (hk : k ∈ l.holds) : Tied sh l (s.own k) :=
  { h with mine := List.forall_mem_cons.mpr ⟨hk, h.mine⟩ }

/-- A transaction that is read before anything is updated. -/
theorem Tied.view (h : Tied sh l s) (hreached : s.reached < 5) {row : WagerTransactionRow}
    (hrow : row ∈ (l.view sh.db).wagers) : row ∈ sh.db.wagers ∨ .insertWager row ∈ l.log := by
  rcases mem_wagers_after hrow with hold | hinserted | ⟨new, old, hupdated, -⟩
  · exact .inl hold
  · exact .inr hinserted
  · have := h.updates new hupdated
    omega

/-- A statement of stage `stage`. -/
theorem Tied.push (h : Tied sh l s) {write : Write} {stage : Nat} (hstage : s.reached ≤ stage)
    (hkeys : ∀ k ∈ write.uniqueKeys, k.stage ≤ stage)
    (hupdate : ∀ row, write = .updateWager row → 5 ≤ stage)
    (hinsert : ∀ row, write = .insertWager row →
      row.status = .pending ∧ row.referenceTransactionId = none ∧ row.id ∈ l.ids) :
    Tied sh (l.push write) (s.reach stage) := by
  have hreach := h.reach hstage
  refine
    { hreach with
      keys := fun k hk => ?keys
      updates := fun row hrow => ?updates
      inserted := fun row hrow => ?inserted
      mine := fun k hk => ?mine }
  case keys =>
    rw [Local.push_keys] at hk
    exact (List.mem_append.mp hk).elim (hreach.keys k) (hkeys k)
  case updates =>
    rcases List.mem_append.mp hrow with hrow | hrow
    · exact hreach.updates row hrow
    · exact hupdate row (List.mem_singleton.mp hrow).symm
  case inserted =>
    rcases List.mem_append.mp hrow with hrow | hrow
    · exact h.inserted row hrow
    · exact hinsert row (List.mem_singleton.mp hrow).symm
  case mine =>
    have hmem := h.mine k hk
    rw [Local.holds, List.mem_append] at hmem ⊢
    rw [Local.push_locks, Local.push_keys, List.mem_append]
    exact hmem.imp_right .inl

/-- A row lock of stage 3. -/
theorem Tied.lockWager (h : Tied sh l s) (hreached : s.reached ≤ 3) {id : Text}
    (hwaiting : ∀ row ∈ sh.db.wagers, row.id = id → row.status.isTerminal = false) :
    Tied sh { l with wagers := id :: l.wagers } ((s.reach 3).own (.wagerId id)) := by
  have hreach := h.reach hreached
  refine
    { hreach with
      wagers := fun _ _ => Nat.le_refl 3
      waiting := List.forall_mem_cons.mpr ⟨hwaiting, h.waiting⟩
      mine := List.forall_mem_cons.mpr ⟨?_, fun k hk => ?_⟩ }
  · simp [Local.holds, Local.locks]
  · have hmem := h.mine k hk
    simp only [Local.holds, Local.locks, List.mem_append, List.map_cons, List.mem_cons] at hmem ⊢
    rcases hmem with (hmem | hmem) | hmem
    · exact .inl (.inl hmem)
    · exact .inl (.inr (.inr hmem))
    · exact .inr hmem

/-- The lock of a wallet. -/
theorem Tied.lockWallet (h : Tied sh l s) (hreached : s.reached ≤ 4) {id : Text} :
    Tied sh { l with wallets := id :: l.wallets } ((s.reach 4).own (.walletId id)) := by
  have hreach := h.reach hreached
  refine
    { hreach with
      wallets := fun _ _ => Nat.le_refl 4
      mine := List.forall_mem_cons.mpr ⟨?_, fun k hk => ?_⟩ }
  · simp [Local.holds, Local.locks]
  · have hmem := h.mine k hk
    simp only [Local.holds, Local.locks, List.mem_append, List.map_cons, List.mem_cons] at hmem ⊢
    rcases hmem with (hmem | hmem) | hmem
    · exact .inl (.inl (.inr hmem))
    · exact .inl (.inr hmem)
    · exact .inr hmem

section Calls

variable [Platform]

/-- What was read of a transaction is so in the committed state. -/
theorem Tied.learn (h : Tied sh l s) (hs : Sound sh) (hreached : s.reached < 5)
    {row : WagerTransactionRow} {t : WagerTransaction} (hrow : row ∈ (l.view sh.db).wagers)
    (hid : t.id = row.id) (hstatus : t.status = row.status)
    (hreference : t.referenceTransactionId = row.referenceTransactionId) :
    Tied sh l (s.learn t) := by
  refine { h with settled := fun id hmem => ?_ }
  simp only [LockState.learn, List.mem_append, Option.mem_toList] at hmem
  rcases h.view hreached hrow with hold | hnew
  · rcases hmem with hmem | hmem
    · obtain ⟨-, r, hr, hrid, hprocessed⟩ :=
        (hs.books.wagers row hold).linked id (hreference ▸ hmem)
      exact ⟨r, hr, hrid, by rw [hprocessed]; rfl⟩
    · split at hmem
      · rename_i hterminal
        rcases List.mem_cons.mp hmem with rfl | hmem
        · exact ⟨row, hold, hid.symm, hstatus ▸ hterminal⟩
        · exact h.settled id hmem
      · exact h.settled id hmem
  · obtain ⟨hpending, hnone, -⟩ := h.inserted row hnew
    rcases hmem with hmem | hmem
    · rw [hreference, hnone] at hmem
      cases hmem
    · rw [if_neg (by rw [WagerTransaction.isTerminal, hstatus, hpending]; decide)] at hmem
      exact h.settled id hmem

/-! ## What a call answers -/

section Answers

variable {α ρ : Type} {mapper : ρ → Except DomainError α} {rules : List Rule}

omit [Platform] in
theorem found_ok {row : Option ρ} {a : Option α}
    (h : Result.found sh l mapper row = some (sh', .ok (a, l'))) :
    sh' = sh ∧ l' = l ∧ (row = none ∧ a = none ∨
      ∃ r x, row = some r ∧ mapper r = .ok x ∧ a = some x) := by
  cases row with
  | none =>
    cases h
    exact ⟨rfl, rfl, .inl ⟨rfl, rfl⟩⟩
  | some r =>
    cases hr : mapper r with
    | error e =>
      simp only [Result.found, Result.mapped, hr, Functor.map, Except.map] at h
      cases h
    | ok x =>
      simp only [Result.found, Result.mapped, hr, Functor.map, Except.map] at h
      cases h
      exact ⟨rfl, rfl, .inr ⟨r, x, rfl, hr, rfl⟩⟩

omit [Platform] in
theorem insertOrIgnore_ok {keys : List UniqueKey} {row : ρ} {write : ρ → Write} {a : Option α}
    {lost : Local}
    (h : insertOrIgnore rules keys row write mapper sh others l lost = some (sh', .ok (a, l'))) :
    sh' = sh ∧ (a = none ∧ l' = lost ∨
      ∃ x, mapper row = .ok x ∧ a = some x ∧ l' = l.push (write row)) := by
  unfold insertOrIgnore at h
  split at h
  · cases h
  · split at h
    · cases h
    · split at h
      · cases h
        exact ⟨rfl, .inl ⟨rfl, rfl⟩⟩
      · obtain ⟨rfl, rfl, ⟨hnone, -⟩ | ⟨r, x, hr, hx, rfl⟩⟩ := found_ok h
        · cases hnone
        · cases hr
          exact ⟨rfl, .inr ⟨x, hx, rfl, rfl⟩⟩

omit [Platform] in
theorem insertPlain_ok {keys : List UniqueKey} {foreignKeys : List Rule} {write : Write}
    {a : Unit} (h : insertPlain rules keys foreignKeys write sh others l = some (sh', .ok (a, l'))) :
    sh' = sh ∧ l' = l.push write := by
  obtain ⟨hsh, hl⟩ := @insertPlain_grants sh others l rules keys foreignKeys write
    (fun l' => l' = l.push write) (fun _ _ _ _ => rfl) sh' _ h
  exact ⟨hsh, hl a l' rfl⟩

omit [Platform] in
theorem updateRow_ok {table : String} {id : Text} {locked : Bool} {old? : Option ρ}
    {rules : ρ → List Rule} {write : ρ → Write} {a : Unit}
    (h : updateRow table id locked old? rules write sh l = some (sh', .ok (a, l'))) :
    sh' = sh ∧ ∃ old, l' = l.push (write old) := by
  obtain ⟨hsh, hl⟩ := @updateRow_grants sh l ρ table id locked old? rules write
    (fun l' => ∃ old, l' = l.push (write old)) (fun old _ _ => ⟨old, rfl⟩) sh' _ h
  exact ⟨hsh, hl a l' rfl⟩

/-- The columns of a transaction that was read. -/
theorem toWagerTransaction_ok {row : WagerTransactionRow} {t : WagerTransaction}
    (h : toWagerTransaction row = .ok t) :
    t.id = row.id ∧ t.status = row.status ∧
      t.referenceTransactionId = row.referenceTransactionId := by
  unfold toWagerTransaction at h
  simp only at h
  split at h
  all_goals
    obtain ⟨resultBalance, -, h⟩ := bind_ok h
    obtain ⟨money, -, h⟩ := bind_ok h
    cases h
    exact ⟨rfl, rfl, rfl⟩

theorem toWallet_ok {row : WalletRow} {wallet : Wallet} (h : toWallet row = .ok wallet) :
    wallet.id = row.id := by
  unfold toWallet at h
  obtain ⟨balance, -, h⟩ := bind_ok h
  cases h
  rfl

end Answers

/-- The row lock of a transaction, and what is read with it. -/
theorem Tied.lockedWager (h : Tied sh l s) (hs : Sound sh) (hreached : s.reached < 3)
    {row : WagerTransactionRow} {t : WagerTransaction} (hrow : row ∈ (l.view sh.db).wagers)
    (ht : toWagerTransaction row = .ok t)
    (hwaiting : ∀ r ∈ sh.db.wagers, r.id = row.id → r.status.isTerminal = false) :
    Tied sh { l with wagers := row.id :: l.wagers } (((s.reach 3).own (.wagerId t.id)).learn t) := by
  obtain ⟨hid, hstatus, hreference⟩ := toWagerTransaction_ok ht
  have hlocked := h.lockWager (Nat.le_of_lt hreached) hwaiting
  rw [← hid] at hlocked ⊢
  exact hlocked.learn hs (show 3 < 5 by decide) hrow hid hstatus hreference

/-- Whoever locks a transaction by its identifier finds that it is not terminal yet. -/
def Op.LocksWaiting (sh : Shared) : Op → Prop
  | .lockWager id => ∀ row ∈ sh.db.wagers, row.id = id → row.status.isTerminal = false
  | _ => True

/-- Every call that keeps to the order keeps the tie. -/
theorem exec_tied (h : Tied sh l s) (hs : Sound sh) {op : Op} {input : Input}
    {a : op.Answer} (hallows : s.Allows op) (hpermitted : op.LocksWaiting sh)
    (hop : exec sh others l op input = some (sh', .ok (a, l'))) : Tied sh' l' (s.next op a) := by
  cases input with
  | instant at_ =>
    cases op
    case now =>
      simp only [exec] at hop
      split at hop
      · cases hop
        exact { h with }
      · cases hop
    all_goals cases hop
  | identity id =>
    cases op
    case nextId =>
      simp only [exec] at hop
      split at hop
      · cases hop
        exact
          { h with
            inserted := fun row hrow => by
              obtain ⟨hpending, hnone, hid⟩ := h.inserted row hrow
              exact ⟨hpending, hnone, List.mem_cons_of_mem _ hid⟩
            generated := fun id' hid => by
              rcases List.mem_cons.mp hid with rfl | hid
              · exact List.mem_cons_self
              · exact List.mem_cons_of_mem _ (h.generated id' hid) }
      · cases hop
    all_goals cases hop
  | jitter numerator =>
    cases op
    case jitter =>
      simp only [exec] at hop
      split at hop
      · cases hop
        exact h
      · cases hop
    all_goals cases hop
  | step =>
    cases op with
    | now => cases hop
    | nextId => cases hop
    | jitter => cases hop
    | attempt id =>
      cases hop
      exact { h with }
    | insertIfAbsent wallet =>
      have hreached : s.reached < 1 := hallows
      obtain ⟨rfl, ⟨-, rfl⟩ | ⟨x, -, -, rfl⟩⟩ := insertOrIgnore_ok hop
      · exact { h.reach (Nat.le_of_lt hreached) with }
      · exact h.push (Nat.le_of_lt hreached) (by simp [Write.uniqueKeys, WalletRow.uniqueKeys,
          UniqueKey.stage]) (fun _ hw => by cases hw) fun _ hw => by cases hw
    | findByPlayerAndCurrency playerId currency =>
      obtain ⟨rfl, rfl, -⟩ := found_ok hop
      exact h
    | lockWallet id =>
      have hreached : s.reached ≤ 4 := Nat.le_of_lt hallows
      simp only [exec] at hop
      split at hop
      · cases hop
      · split at hop
        · cases hop
        · split at hop
          · cases hop
            exact h.reach hreached
          · rename_i row hrow
            obtain ⟨rfl, rfl, ⟨hnone, -⟩ | ⟨r, wallet, hr, hwallet, rfl⟩⟩ := found_ok hop
            · cases hnone
            · cases hr
              have hid : wallet.id = row.id := toWallet_ok hwallet
              exact hid ▸ h.lockWallet hreached
    | updateWallet wallet =>
      obtain ⟨rfl, old, rfl⟩ := updateRow_ok hop
      exact h.push (Nat.le_refl _) (fun k hk => by cases hk) (fun _ hw => by cases hw)
        fun _ hw => by cases hw
    | reserve transaction =>
      obtain ⟨hreached, hnone, hgenerated⟩ := hallows
      simp only [exec] at hop
      split at hop
      · cases hop
      · rename_i hpending
        obtain ⟨rfl, ⟨rfl, rfl⟩ | ⟨t, ht, rfl, rfl⟩⟩ := insertOrIgnore_ok hop
        · exact { h.reach (Nat.le_of_lt hreached) with }
        · obtain ⟨hid, hstatus, hreference⟩ := toWagerTransaction_ok ht
          have hrow : (toWagerTransactionRow transaction).stored.status = .pending :=
            Decidable.not_not.mp hpending
          have hpushed := @Tied.push sh' l s h
            (.insertWager (toWagerTransactionRow transaction).stored) 2 (Nat.le_of_lt hreached)
            (by simp [Write.uniqueKeys, WagerTransactionRow.uniqueKeys, UniqueKey.stage])
            (fun _ hw => by cases hw)
            (fun row hw => by cases hw; exact ⟨hrow, hnone, h.generated _ hgenerated⟩)
          have howned := @Tied.own sh' _ _ hpushed (.wagerId t.id) (by
            rw [hid]
            simp [Local.holds, Write.uniqueKeys, WagerTransactionRow.uniqueKeys])
          refine { howned with settled := fun id hmem => h.settled id ?_ }
          have hopen : t.isTerminal = false := by
            rw [WagerTransaction.isTerminal, hstatus, hrow]
            rfl
          have hunlinked : t.referenceTransactionId = none := hreference.trans hnone
          simp only [LockState.next, LockState.learn, hopen, hunlinked, Option.toList_none,
            List.nil_append, Bool.false_eq_true, if_false] at hmem
          exact hmem
    | findByIdempotencyKey providerId idempotencyKey =>
      obtain ⟨rfl, rfl, -⟩ := found_ok hop
      exact { h with }
    | findByExternalId providerId externalTransactionId =>
      obtain ⟨rfl, rfl, ⟨-, rfl⟩ | ⟨row, t, hrow, ht, rfl⟩⟩ := found_ok hop
      · exact h
      · obtain ⟨hid, hstatus, hreference⟩ := toWagerTransaction_ok ht
        exact h.learn hs hallows (Keyed.mem_of_lookup hrow) hid hstatus hreference
    | hasActiveReversal referenceTransactionId =>
      cases hop
      exact h
    | lockWager id =>
      have hreached : s.reached < 3 := hallows
      simp only [exec] at hop
      split at hop
      · cases hop
      · split at hop
        · cases hop
          exact h.reach (Nat.le_of_lt hreached)
        · rename_i row hrow
          obtain ⟨rfl, rfl, ⟨hnone, -⟩ | ⟨r, t, hr, ht, rfl⟩⟩ := found_ok hop
          · cases hnone
          · cases hr
            have hrowid : row.id = id := Keyed.key_of_lookup hrow
            exact h.lockedWager hs hreached (Keyed.mem_of_lookup hrow) ht (hrowid ▸ hpermitted)
    | lockDuePendingReference now =>
      have hreached : s.reached < 3 := hallows
      simp only [exec] at hop
      split at hop
      · cases hop
        exact h.reach (Nat.le_of_lt hreached)
      · rename_i row hrow
        obtain ⟨rfl, rfl, ⟨hnone, -⟩ | ⟨r, t, hr, ht, rfl⟩⟩ := found_ok hop
        · cases hnone
        · cases hr
          obtain ⟨hmem, hdue⟩ := List.mem_filter.mp (Keyed.least_mem hrow)
          simp only [isDue, Bool.and_eq_true, decide_eq_true_eq] at hdue
          refine h.lockedWager hs hreached hmem ht fun r hr heq => ?_
          rcases h.view (by omega) hmem with hold | hnew
          · rw [hs.books.eq_of_id hr hold heq, hdue.1.1]
            rfl
          · rw [(h.inserted row hnew).1] at hdue
            cases hdue.1.1
    | updateWager transaction =>
      obtain ⟨hreached, -, -⟩ := hallows
      obtain ⟨rfl, old, rfl⟩ := updateRow_ok hop
      exact h.push (Nat.le_of_lt hreached) (fun k hk => by cases hk)
        (fun _ _ => Nat.le_refl 5) fun _ hw => by cases hw
    | insertLedger entry =>
      obtain ⟨-, hreached⟩ := hallows
      obtain ⟨rfl, rfl⟩ := insertPlain_ok hop
      exact h.push hreached (by simp [Write.uniqueKeys, WalletLedgerEntryRow.uniqueKeys,
        UniqueKey.stage]) (fun _ hw => by cases hw) fun _ hw => by cases hw
    | reserveInbox message =>
      have hreached : s.reached < 1 := hallows
      obtain ⟨rfl, ⟨-, rfl⟩ | ⟨x, -, -, rfl⟩⟩ := insertOrIgnore_ok hop
      · exact h.reach (Nat.le_of_lt hreached)
      · exact h.push (Nat.le_of_lt hreached) (by simp [Write.uniqueKeys, UniqueKey.stage])
          (fun _ hw => by cases hw) fun _ hw => by cases hw
    | findInbox key =>
      obtain ⟨rfl, rfl, -⟩ := found_ok hop
      exact h
    | markInboxProcessed key processedAt =>
      obtain ⟨rfl, old, rfl⟩ := updateRow_ok hop
      exact h.push (Nat.le_refl _) (fun k hk => by cases hk) (fun _ hw => by cases hw)
        fun _ hw => by cases hw
    | enqueue events now =>
      obtain ⟨-, hreached⟩ := hallows
      simp only [exec] at hop
      split at hop
      · cases hop
        exact h.reach hreached
      · obtain ⟨rfl, rfl⟩ := insertPlain_ok hop
        refine h.push hreached (fun k hk => ?_) (fun _ hw => by cases hw) fun _ hw => by cases hw
        obtain ⟨row, -, hk⟩ := List.mem_flatMap.mp hk
        rw [List.mem_singleton.mp hk]
        exact Nat.le_refl 6

end Calls

end Wagering
