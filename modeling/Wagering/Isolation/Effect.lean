import Wagering.Persistence.Repositories
import Wagering.Persistence.Statements

/-!
# What one call can do

The inversion lemma of `exec`.  A call leaves the committed tables as they are;
to its own transaction it adds at most an identifier, a row lock, or a
statement, and it adds a lock or a statement only where no other open
transaction holds it.
-/

namespace Wagering

variable {sh sh' : Shared} {others : List Local} {l l' : Local} {α ρ : Type}

/-- The rows that the transaction holds FOR UPDATE, by their keys. -/
def Local.locks (l : Local) : List UniqueKey :=
  l.wallets.map .walletId ++ l.wagers.map .wagerId

/-- Everything the transaction keeps others away from. -/
def Local.holds (l : Local) : List UniqueKey := l.locks ++ l.keys

theorem Local.keys_eq (l : Local) : l.keys = keysOf l.log := rfl

@[simp] theorem Local.push_keys (l : Local) (write : Write) :
    (l.push write).keys = l.keys ++ write.uniqueKeys := by
  simp [Local.push, Local.keys]

@[simp] theorem Local.push_locks (l : Local) (write : Write) : (l.push write).locks = l.locks :=
  rfl

theorem Local.mem_locks {l : Local} {k : UniqueKey} :
    k ∈ l.locks ↔ (∃ id ∈ l.wallets, k = .walletId id) ∨ ∃ id ∈ l.wagers, k = .wagerId id := by
  simp [Local.locks, eq_comm]

theorem mem_uniqueKeys_view {db : Database} {k : UniqueKey} :
    k ∈ (l.view db).uniqueKeys ↔ k ∈ db.uniqueKeys ∨ k ∈ l.keys :=
  mem_uniqueKeys_after

/-- The tables that a call remembers are those committed at that moment. -/
structure Remembers (sh : Shared) (l l' : Local) : Prop where
  lostAt : l'.lostAt = l.lostAt ∨ l'.lostAt = some sh.db
  lookedAt : l'.lookedAt = l.lookedAt ∨ l'.lookedAt = some sh.db

theorem Remembers.refl (sh : Shared) (l : Local) : Remembers sh l l := ⟨.inl rfl, .inl rfl⟩

/-- What a successful call adds to its transaction. -/
inductive Effect (sh sh' : Shared) (others : List Local) (l : Local) : Local → Prop
  | quiet {l' : Local} (log : l'.log = l.log) (locks : l'.locks = l.locks)
    (ids : l'.ids = l.ids) (seen : Remembers sh l l') :
    Effect sh sh' others l l'
  | identified {id : Text} (fresh : id ∉ sh.issued) (issued : id ∈ sh'.issued) :
    Effect sh sh' others l { l with ids := id :: l.ids }
  | locked {l' : Local} {key : UniqueKey} (log : l'.log = l.log) (ids : l'.ids = l.ids)
    (locks : ∀ k, k ∈ l'.locks ↔ k = key ∨ k ∈ l.locks)
    (mem : key ∈ (l.view sh.db).uniqueKeys)
    (alone : ∀ o ∈ others, key ∉ o.locks) (seen : Remembers sh l l') :
    Effect sh sh' others l l'
  | wrote {write : Write} (nodup : write.uniqueKeys.Nodup)
    (free : ∀ k ∈ write.uniqueKeys, k ∉ (l.view sh.db).uniqueKeys)
    (alone : ∀ o ∈ others, ∀ k ∈ write.uniqueKeys, k ∉ o.keys) :
    Effect sh sh' others l (l.push write)

theorem Effect.remembers {l' : Local} (h : Effect sh sh' others l l') : Remembers sh l l' := by
  cases h with
  | quiet _ _ _ seen => exact seen
  | locked _ _ _ _ _ seen => exact seen
  | identified => exact ⟨.inl rfl, .inl rfl⟩
  | wrote => exact ⟨.inl rfl, .inl rfl⟩

/-- A result that leaves the shared state alone and grants only what `P` allows. -/
def Result.Grants (result : Result α) (sh : Shared) (P : Local → Prop) : Prop :=
  ∀ sh' r, result = some (sh', r) → sh' = sh ∧ ∀ a l', r = .ok (a, l') → P l'

theorem Result.grants_answer {a : α} {P : Local → Prop} (h : P l) :
    (Result.answer sh l a).Grants sh P := by
  intro sh' r heq
  cases heq
  exact ⟨rfl, fun a' l' hr => by cases hr; exact h⟩

theorem Result.grants_refuse {e : RepositoryError} {P : Local → Prop} :
    (Result.refuse sh e : Result α).Grants sh P := by
  intro sh' r heq
  cases heq
  exact ⟨rfl, fun a' l' hr => by cases hr⟩

theorem Result.grants_none {P : Local → Prop} : Result.Grants (none : Result α) sh P := by
  intro sh' r heq
  cases heq

theorem Result.grants_mapped {a : Except DomainError α} {P : Local → Prop} (h : P l) :
    (Result.mapped sh l a).Grants sh P := by
  cases a with
  | ok a => exact grants_answer h
  | error e =>
    intro sh' r heq
    cases heq
    exact ⟨rfl, fun a' l' hr => by cases hr⟩

theorem Result.grants_found {mapper : ρ → Except DomainError α} {row : Option ρ}
    {P : Local → Prop} (h : P l) : (Result.found sh l mapper row).Grants sh P := by
  cases row with
  | none => exact grants_answer h
  | some row => exact grants_mapped h

theorem Result.Grants.mono {result : Result α} {P Q : Local → Prop} (h : result.Grants sh P)
    (hPQ : ∀ l, P l → Q l) : result.Grants sh Q :=
  fun sh' r heq => ⟨(h sh' r heq).1, fun a l' hr => hPQ _ ((h sh' r heq).2 a l' hr)⟩

theorem insertOrIgnore_grants {rules : List Rule} {keys : List UniqueKey} {row : ρ}
    {write : ρ → Write} {mapper : ρ → Except DomainError α} {lost : Local} {P : Local → Prop}
    (hlost : P lost)
    (hwrote : refusal rules = none → (∀ k ∈ keys, k ∉ (l.view sh.db).uniqueKeys) →
      (∀ o ∈ others, ∀ k ∈ keys, k ∉ o.keys) → P (l.push (write row))) :
    (insertOrIgnore rules keys row write mapper sh others l lost).Grants sh P := by
  unfold insertOrIgnore
  split
  · exact Result.grants_refuse
  · rename_i hrules
    split
    · exact Result.grants_none
    · rename_i hothers
      split
      · exact Result.grants_answer hlost
      · rename_i hfree
        simp only [Bool.not_eq_true, List.any_eq_false, decide_eq_false_iff_not] at hothers hfree
        exact Result.grants_found
          (hwrote hrules (by simpa using hfree) (by simpa using hothers))

theorem insertPlain_grants {rules : List Rule} {keys : List UniqueKey} {foreignKeys : List Rule}
    {write : Write} {P : Local → Prop}
    (hwrote : refusal rules = none → keys.Nodup → (∀ k ∈ keys, k ∉ (l.view sh.db).uniqueKeys) →
      (∀ o ∈ others, ∀ k ∈ keys, k ∉ o.keys) → P (l.push write)) :
    (insertPlain rules keys foreignKeys write sh others l).Grants sh P := by
  unfold insertPlain
  split
  · exact Result.grants_refuse
  · rename_i hrules
    split
    · exact Result.grants_none
    · rename_i hothers
      split
      · exact Result.grants_refuse
      · rename_i hfree
        simp only [Bool.or_eq_true, not_or, Bool.not_eq_true, List.any_eq_false,
          Bool.not_eq_false', decide_eq_true_eq] at hothers hfree
        split
        · exact Result.grants_refuse
        · exact Result.grants_answer
            (hwrote hrules hfree.2 (by simpa using hfree.1) (by simpa using hothers))

theorem updateRow_grants {table : String} {id : Text} {locked : Bool} {old? : Option ρ}
    {rules : ρ → List Rule} {write : ρ → Write} {P : Local → Prop}
    (hwrote : ∀ old, old? = some old → refusal (rules old) = none → P (l.push (write old))) :
    (updateRow table id locked old? rules write sh l).Grants sh P := by
  unfold updateRow
  split
  · exact Result.grants_none
  · split
    · exact Result.grants_refuse
    · split
      · exact Result.grants_refuse
      · exact Result.grants_answer (hwrote _ rfl ‹_›)

/-- A statement that takes no key. -/
theorem Effect.updated {write : Write} (hkeys : write.uniqueKeys = []) :
    Effect sh sh' others l (l.push write) :=
  .wrote (by rw [hkeys]; exact .nil) (by simp [hkeys]) (by simp [hkeys])

theorem walletId_mem_uniqueKeys {db : Database} {row : WalletRow} (h : row ∈ db.wallets) :
    .walletId row.id ∈ db.uniqueKeys := by
  simp only [Database.uniqueKeys, List.mem_append, List.mem_flatMap]
  exact .inl (.inl (.inl (.inl ⟨row, h, by simp [WalletRow.uniqueKeys]⟩)))

theorem wagerId_mem_uniqueKeys {db : Database} {row : WagerTransactionRow}
    (h : row ∈ db.wagers) : .wagerId row.id ∈ db.uniqueKeys := by
  simp only [Database.uniqueKeys, List.mem_append, List.mem_flatMap]
  exact .inl (.inl (.inl (.inr ⟨row, h, by simp [WagerTransactionRow.uniqueKeys]⟩)))

theorem Effect.lockedWallet {row : WalletRow} (hrow : row ∈ (l.view sh.db).wallets)
    (halone : ∀ o ∈ others, row.id ∉ o.wallets) :
    Effect sh sh' others l { l with wallets := row.id :: l.wallets } :=
  .locked rfl rfl (fun k => by simp [Local.locks]) (walletId_mem_uniqueKeys hrow)
    (fun o ho hk => by simp [Local.locks, halone o ho] at hk) ⟨.inl rfl, .inl rfl⟩

theorem Effect.lockedWager {row : WagerTransactionRow} (hrow : row ∈ (l.view sh.db).wagers)
    (halone : ∀ o ∈ others, row.id ∉ o.wagers) :
    Effect sh sh' others l { l with wagers := row.id :: l.wagers } :=
  .locked rfl rfl (fun k => by simp [Local.locks, or_left_comm]) (wagerId_mem_uniqueKeys hrow)
    (fun o ho hk => by simp [Local.locks, halone o ho] at hk) ⟨.inl rfl, .inl rfl⟩

variable [Platform]

/-- The calls other than `nextId` leave the shared state alone. -/
theorem exec_grants {op : Op} {input : Input} (hop : op ≠ .nextId) :
    (exec sh others l op input).Grants sh (Effect sh sh others l) := by
  have hquiet : Effect sh sh others l l := .quiet rfl rfl rfl (.refl sh l)
  cases input with
  | instant at_ =>
    cases op
    case now =>
      simp only [exec]
      split
      · exact Result.grants_answer (.quiet rfl rfl rfl ⟨.inl rfl, .inl rfl⟩)
      · exact Result.grants_none
    all_goals exact Result.grants_none
  | identity id =>
    cases op
    case nextId => exact absurd rfl hop
    all_goals exact Result.grants_none
  | jitter numerator =>
    cases op
    case jitter =>
      simp only [exec]
      split
      · exact Result.grants_answer hquiet
      · exact Result.grants_none
    all_goals exact Result.grants_none
  | step =>
    cases op with
    | now => exact Result.grants_none
    | nextId => exact Result.grants_none
    | jitter => exact Result.grants_none
    | attempt id => exact Result.grants_answer (.quiet rfl rfl rfl ⟨.inl rfl, .inl rfl⟩)
    | insertIfAbsent wallet =>
      refine insertOrIgnore_grants (.quiet rfl rfl rfl ⟨.inr rfl, .inl rfl⟩) fun _ hfree halone =>
        .wrote ?_ hfree halone
      simp [Write.uniqueKeys, WalletRow.uniqueKeys]
    | findByPlayerAndCurrency playerId currency => exact Result.grants_found hquiet
    | lockWallet id =>
      simp only [exec]
      split
      · exact Result.grants_refuse
      · split
        · exact Result.grants_none
        · rename_i halone
          split
          · exact Result.grants_answer hquiet
          · rename_i row hrow
            refine Result.grants_found (.lockedWallet (Keyed.mem_of_lookup hrow) ?_)
            have hid : row.id = uuidText id := Keyed.key_of_lookup hrow
            simpa [hid] using halone
    | updateWallet wallet => exact updateRow_grants fun _ _ _ => .updated rfl
    | reserve transaction =>
      simp only [exec]
      split
      · exact Result.grants_refuse
      · refine insertOrIgnore_grants (.quiet rfl rfl rfl ⟨.inr rfl, .inl rfl⟩)
          fun _ hfree halone => .wrote ?_ hfree halone
        simp [Write.uniqueKeys, WagerTransactionRow.uniqueKeys]
    | findByIdempotencyKey providerId idempotencyKey =>
      exact Result.grants_found (.quiet rfl rfl rfl ⟨.inl rfl, .inr rfl⟩)
    | findByExternalId providerId externalTransactionId => exact Result.grants_found hquiet
    | hasActiveReversal referenceTransactionId => exact Result.grants_answer hquiet
    | lockWager id =>
      simp only [exec]
      split
      · exact Result.grants_none
      · rename_i halone
        split
        · exact Result.grants_answer hquiet
        · rename_i row hrow
          refine Result.grants_found (.lockedWager (Keyed.mem_of_lookup hrow) ?_)
          have hid : row.id = id := Keyed.key_of_lookup hrow
          simpa [hid] using halone
    | lockDuePendingReference now =>
      simp only [exec]
      split
      · exact Result.grants_answer hquiet
      · rename_i row hrow
        have hmem := Keyed.least_mem hrow
        simp only [List.mem_filter, Bool.and_eq_true, decide_eq_true_eq, List.mem_flatMap,
          not_exists, not_and] at hmem
        exact Result.grants_found (.lockedWager hmem.1 hmem.2.2)
    | updateWager transaction => exact updateRow_grants fun _ _ _ => .updated rfl
    | insertLedger entry =>
      exact insertPlain_grants fun _ hnodup hfree halone => .wrote hnodup hfree halone
    | reserveInbox message =>
      exact insertOrIgnore_grants hquiet fun _ hfree halone =>
        .wrote (List.nodup_singleton _) hfree halone
    | findInbox key => exact Result.grants_found hquiet
    | markInboxProcessed key processedAt => exact updateRow_grants fun _ _ _ => .updated rfl
    | enqueue events now =>
      simp only [exec]
      split
      · exact Result.grants_answer hquiet
      · exact insertPlain_grants fun _ hnodup hfree halone => .wrote hnodup hfree halone

/-- What any call does. -/
theorem exec_effect {op : Op} {input : Input} {r : Except Failure (op.Answer × Local)}
    (h : exec sh others l op input = some (sh', r)) :
    sh'.db = sh.db ∧ sh'.publishing = sh.publishing ∧ (∀ id ∈ sh.issued, id ∈ sh'.issued) ∧
      ∀ a l', r = .ok (a, l') → Effect sh sh' others l l' := by
  by_cases hop : op = .nextId
  · subst hop
    cases input with
    | identity id =>
      simp only [exec] at h
      split at h
      · rename_i hid
        simp only [Bool.and_eq_true, decide_eq_true_eq] at hid
        cases h
        refine ⟨rfl, rfl, fun id' h' => List.mem_cons_of_mem _ h', fun a l' hr => ?_⟩
        cases hr
        exact .identified hid.2 List.mem_cons_self
      · cases h
    | step => cases h
    | instant at_ => cases h
    | jitter numerator => cases h
  · obtain ⟨rfl, heffect⟩ := exec_grants hop sh' r h
    exact ⟨rfl, rfl, fun id h => h, heffect⟩

end Wagering
