import Wagering.Application.SubmitWager
import Wagering.Isolation.Discipline

/-!
# Proof rules for the calls

One rule for each operation: what is left to show after the call, from the
committed state that it meets.  A rule's hypothesis starts from any state that
the discipline lets the others leave, so facts about the committed state are
carried across a call by showing that `Rely` keeps them.
-/

namespace Wagering

open Interleave

variable {α β ρ : Type} {sh sh' : Shared} {others : List Local} {l : Local}
  {P : Shared → Local → β → Prop} {F : Shared → Local → Failure → Prop}

/-! ## What a result can be -/

theorem insertOrIgnore_cases {rules : List Rule} {keys : List UniqueKey} {row : ρ}
    {write : ρ → Write} {mapper : ρ → Except DomainError α}
    {r : Except Failure (Option α × Local)}
    {lost : Local} (h : insertOrIgnore rules keys row write mapper sh others l lost = some (sh', r)) :
    sh' = sh ∧
      ((∃ e, refusal rules = some e ∧ r = .error (.repository e)) ∨
        (refusal rules = none ∧ (∃ k ∈ keys, k ∈ (l.view sh.db).uniqueKeys) ∧
          r = .ok (none, lost)) ∨
        (refusal rules = none ∧ (∀ k ∈ keys, k ∉ (l.view sh.db).uniqueKeys) ∧
          ((∃ e, mapper row = .error e ∧ r = .error (.domain e)) ∨
            ∃ a, mapper row = .ok a ∧ r = .ok (some a, l.push (write row))))) := by
  unfold insertOrIgnore at h
  split at h
  · rename_i e he
    cases h
    exact ⟨rfl, .inl ⟨e, he, rfl⟩⟩
  · rename_i he
    split at h
    · cases h
    · split at h
      · rename_i hk
        cases h
        exact ⟨rfl, .inr (.inl ⟨he, by simpa using hk, rfl⟩)⟩
      · rename_i hk
        cases hm : mapper row with
        | error e =>
          simp only [Result.found, hm, Functor.map, Except.map, Result.mapped] at h
          cases h
          exact ⟨rfl, .inr (.inr ⟨he, by simpa using hk, .inl ⟨e, rfl, rfl⟩⟩)⟩
        | ok a =>
          simp only [Result.found, hm, Functor.map, Except.map, Result.mapped] at h
          cases h
          exact ⟨rfl, .inr (.inr ⟨he, by simpa using hk, .inr ⟨a, rfl, rfl⟩⟩)⟩

theorem insertPlain_cases {rules foreignKeys : List Rule} {keys : List UniqueKey}
    {write : Write} {r : Except Failure (Unit × Local)}
    (h : insertPlain rules keys foreignKeys write sh others l = some (sh', r))
    (hfree : ∀ k ∈ keys, k ∉ (l.view sh.db).uniqueKeys) (hnodup : keys.Nodup)
    (hforeign : ∀ rule ∈ foreignKeys, rule.holds = true) :
    sh' = sh ∧
      ((∃ e, refusal rules = some e ∧ r = .error (.repository e)) ∨
        (refusal rules = none ∧ r = .ok ((), l.push write))) := by
  unfold insertPlain at h
  split at h
  · rename_i e he
    cases h
    exact ⟨rfl, .inl ⟨e, he, rfl⟩⟩
  · rename_i he
    split at h
    · cases h
    · split at h
      · rename_i hk
        simp only [Bool.or_eq_true, List.any_eq_true, decide_eq_true_eq, Bool.not_eq_true',
          decide_eq_false_iff_not] at hk
        rcases hk with ⟨k, hk, hmem⟩ | hk
        · exact absurd hmem (hfree k hk)
        · exact absurd hnodup hk
      · rw [refusal_eq_none.mpr hforeign] at h
        cases h
        exact ⟨rfl, .inr ⟨he, rfl⟩⟩

theorem updateRow_cases {table : String} {id : Text} {locked : Bool} {old? : Option ρ}
    {rules : ρ → List Rule} {write : ρ → Write} {r : Except Failure (Unit × Local)} {old : ρ}
    (h : updateRow table id locked old? rules write sh l = some (sh', r)) (hold : old? = some old) :
    sh' = sh ∧
      ((∃ e, refusal (rules old) = some e ∧ r = .error (.repository e)) ∨
        (refusal (rules old) = none ∧ r = .ok ((), l.push (write old)))) := by
  subst hold
  unfold updateRow at h
  split at h
  · cases h
  · simp only at h
    split at h
    · rename_i e he
      cases h
      exact ⟨rfl, .inl ⟨e, he, rfl⟩⟩
    · rename_i he
      cases h
      exact ⟨rfl, .inr ⟨he, rfl⟩⟩

theorem outboxKeys_eq (now : Instant) (events : List IntegrationEvent) :
    (events.map (toOutboxRow now)).flatMap OutboxMessageRow.uniqueKeys =
      (events.map IntegrationEvent.eventId).map UniqueKey.outboxId := by
  induction events with
  | nil => rfl
  | cons ev events ih =>
    simp only [List.map_cons, List.flatMap_cons, ih]
    rfl

variable [Platform]

/-! ## The environment's answers -/

theorem wp_now {f : Instant → Code β}
    (h : ∀ sh', Rely l sh sh' → Sound sh' → Own sh' l → ∀ at_ : Instant,
      at_.isReading = true →
        (f at_).wp discipline P F sh' { l with readings := at_ :: l.readings }) :
    (call .now >>= f).wp discipline P F sh l := by
  intro sh' hr hi ho others input sh'' r hexec
  cases input with
  | instant at_ =>
    simp only [exec] at hexec
    split at hexec
    · cases hexec
      exact h sh' hr hi ho at_ ‹_›
    · cases hexec
  | step => cases hexec
  | identity id => cases hexec
  | jitter numerator => cases hexec

theorem wp_nextId {f : Text → Code β}
    (h : ∀ sh', Rely l sh sh' → Sound sh' → Own sh' l → ∀ id : Text,
      isCanonicalUuid id = true → id ∉ sh'.issued →
        (f id).wp discipline P F sh' { l with ids := id :: l.ids }) :
    (call .nextId >>= f).wp discipline P F sh l := by
  intro sh' hr hi ho others input sh'' r hexec
  cases input with
  | identity id =>
    simp only [exec] at hexec
    split at hexec
    · rename_i hid
      simp only [Bool.and_eq_true, decide_eq_true_eq] at hid
      cases hexec
      refine Program.wp_rely (h sh' hr hi ho id hid.1 hid.2) ?_
      exact .of_same rfl fun id' h' => List.mem_cons_of_mem _ h'
    · cases hexec
  | step => cases hexec
  | instant at_ => cases hexec
  | jitter numerator => cases hexec

theorem wp_jitter {f : Nat → Code β}
    (h : ∀ sh', Rely l sh sh' → Sound sh' → Own sh' l → ∀ numerator < 2 ^ 53,
      (f numerator).wp discipline P F sh' l) :
    (call .jitter >>= f).wp discipline P F sh l := by
  intro sh' hr hi ho others input sh'' r hexec
  cases input with
  | jitter numerator =>
    simp only [exec] at hexec
    split at hexec
    · cases hexec
      exact h sh' hr hi ho numerator ‹_›
    · cases hexec
  | step => cases hexec
  | identity id => cases hexec
  | instant at_ => cases hexec

theorem wp_attempt {id : Text} {f : Unit → Code β}
    (h : ∀ sh', Rely l sh sh' → Sound sh' → Own sh' l →
      (f ()).wp discipline P F sh' { l with attempted := some id }) :
    (call (.attempt id) >>= f).wp discipline P F sh l := by
  intro sh' hr hi ho others input sh'' r hexec
  cases input with
  | step =>
    cases hexec
    exact h sh' hr hi ho
  | identity id => cases hexec
  | instant at_ => cases hexec
  | jitter numerator => cases hexec

/-! ## Queries -/

/-- The answer is the row, as the mapper reads it. -/
structure Reads (answer : Option WagerTransaction) (row : Option WagerTransactionRow) : Prop where
  row : answer.map toWagerTransactionRow = row
  storable : ∀ t ∈ answer, t.Storable

theorem reads_of_valid {row : Option WagerTransactionRow} (h : ∀ r ∈ row, r.Valid)
    {r : Except Failure (Option WagerTransaction × Local)}
    (hexec : Result.found sh l toWagerTransaction row = some (sh', r)) :
    sh' = sh ∧ ∃ answer, Reads answer row ∧ r = .ok (answer, l) := by
  cases row with
  | none =>
    cases hexec
    exact ⟨rfl, none, ⟨rfl, fun t ht => by cases ht⟩, rfl⟩
  | some row =>
    obtain ⟨t, hload, hrow, hstorable⟩ := (h row rfl).load
    simp only [Result.found, hload, Functor.map, Except.map, Result.mapped] at hexec
    cases hexec
    exact ⟨rfl, some t, ⟨by simp [hrow], fun t' ht' => by cases ht'; exact hstorable⟩, rfl⟩

theorem wp_findByIdempotencyKey {providerId idempotencyKey : Text}
    {f : Option WagerTransaction → Code β}
    (h : ∀ sh', Rely l sh sh' → Sound sh' → Own sh' l →
      (∀ row ∈ (l.view sh'.db).wagers, row.Valid) ∧
      ∀ answer, Reads answer ((l.view sh'.db).wagerByKey providerId idempotencyKey) →
        (f answer).wp discipline P F sh' { l with lookedAt := some sh'.db }) :
    (call (.findByIdempotencyKey providerId idempotencyKey) >>= f).wp discipline P F sh l := by
  intro sh' hr hi ho others input sh'' r hexec
  obtain ⟨hvalid, hnext⟩ := h sh' hr hi ho
  cases input with
  | step =>
    obtain ⟨rfl, answer, hreads, rfl⟩ := reads_of_valid
      (fun row hrow => hvalid row (Keyed.mem_of_lookup hrow)) hexec
    exact hnext answer hreads
  | identity id => cases hexec
  | instant at_ => cases hexec
  | jitter numerator => cases hexec

theorem wp_findByExternalId {providerId external : Text} {f : Option WagerTransaction → Code β}
    (h : ∀ sh', Rely l sh sh' → Sound sh' → Own sh' l →
      (∀ row ∈ (l.view sh'.db).wagers, row.Valid) ∧
      ∀ answer, Reads answer ((l.view sh'.db).wagerByExternal providerId external) →
        (f answer).wp discipline P F sh' l) :
    (call (.findByExternalId providerId external) >>= f).wp discipline P F sh l := by
  intro sh' hr hi ho others input sh'' r hexec
  obtain ⟨hvalid, hnext⟩ := h sh' hr hi ho
  cases input with
  | step =>
    obtain ⟨rfl, answer, hreads, rfl⟩ := reads_of_valid
      (fun row hrow => hvalid row (Keyed.mem_of_lookup hrow)) hexec
    exact hnext answer hreads
  | identity id => cases hexec
  | instant at_ => cases hexec
  | jitter numerator => cases hexec

theorem wp_hasActiveReversal {referenceId : Text} {f : Bool → Code β}
    (h : ∀ sh', Rely l sh sh' → Sound sh' → Own sh' l →
      (f (hasActiveReversal (l.view sh'.db).wagers referenceId)).wp discipline P F sh' l) :
    (call (.hasActiveReversal referenceId) >>= f).wp discipline P F sh l := by
  intro sh' hr hi ho others input sh'' r hexec
  cases input with
  | step =>
    cases hexec
    exact h sh' hr hi ho
  | identity id => cases hexec
  | instant at_ => cases hexec
  | jitter numerator => cases hexec

theorem wp_findInbox {key : InboxKey} {f : Option InboxMessageRow → Code β}
    (h : ∀ sh', Rely l sh sh' → Sound sh' → Own sh' l →
      (f ((l.view sh'.db).inboxByKey key)).wp discipline P F sh' l) :
    (call (.findInbox key) >>= f).wp discipline P F sh l := by
  intro sh' hr hi ho others input sh'' r hexec
  have hnext := h sh' hr hi ho
  cases input with
  | step =>
    simp only [exec, Result.found] at hexec
    split at hexec
    · rename_i hnone
      cases hexec
      rwa [hnone] at hnext
    · rename_i row hrow
      cases hexec
      rwa [hrow] at hnext
  | identity id => cases hexec
  | instant at_ => cases hexec
  | jitter numerator => cases hexec

theorem wp_findByPlayerAndCurrency {playerId currency : Text} {f : Option Wallet → Code β}
    (h : ∀ sh', Rely l sh sh' → Sound sh' → Own sh' l →
      (∀ row ∈ (l.view sh'.db).wallets, row.Valid) ∧
      ∀ answer, (f answer).wp discipline P F sh' l) :
    (call (.findByPlayerAndCurrency playerId currency) >>= f).wp discipline P F sh l := by
  intro sh' hr hi ho others input sh'' r hexec
  obtain ⟨hvalid, hnext⟩ := h sh' hr hi ho
  cases input with
  | step =>
    simp only [exec, Result.found] at hexec
    split at hexec
    · cases hexec
      exact hnext none
    · rename_i row hrow
      obtain ⟨w, hload, -⟩ := (hvalid row (Keyed.mem_of_lookup hrow)).load
      simp only [hload, Functor.map, Except.map, Result.mapped] at hexec
      cases hexec
      exact hnext (some w)
  | identity id => cases hexec
  | instant at_ => cases hexec
  | jitter numerator => cases hexec

/-! ## Locks -/

theorem wp_lockWallet {id : Text} {f : Option Wallet → Code β} (huuid : isUuid id = true)
    (h : ∀ sh', Rely l sh sh' → Sound sh' → Own sh' l →
      (∀ row ∈ (l.view sh'.db).wallets, row.Valid) ∧
      ((∀ row ∈ (l.view sh'.db).wallets, row.id ≠ uuidText id) →
        (f none).wp discipline P F sh' l) ∧
      ∀ w : Wallet, w.Storable → toWalletRow w ∈ (l.view sh'.db).wallets → w.id = uuidText id →
        (f (some w)).wp discipline P F sh' { l with wallets := w.id :: l.wallets }) :
    (call (.lockWallet id) >>= f).wp discipline P F sh l := by
  intro sh' hr hi ho others input sh'' r hexec
  obtain ⟨hvalid, hnone, hsome⟩ := h sh' hr hi ho
  cases input with
  | step =>
    simp only [exec, huuid, Bool.not_true, Bool.false_eq_true, if_false] at hexec
    split at hexec
    · cases hexec
    · split at hexec
      · rename_i hlookup
        cases hexec
        exact hnone (Keyed.lookup_eq_none.mp hlookup)
      · rename_i row hlookup
        have hmem := Keyed.mem_of_lookup hlookup
        obtain ⟨w, hload, hrow, hstorable⟩ := (hvalid row hmem).load
        have hid : w.id = row.id := congrArg WalletRow.id hrow
        simp only [Result.found, hload, Functor.map, Except.map, Result.mapped] at hexec
        cases hexec
        rw [← hid]
        exact hsome w hstorable (hrow ▸ hmem) (hid.trans (Keyed.key_of_lookup hlookup))
  | identity id => cases hexec
  | instant at_ => cases hexec
  | jitter numerator => cases hexec

theorem wp_lockWager {id : Text} {f : Option WagerTransaction → Code β}
    (h : ∀ sh', Rely l sh sh' → Sound sh' → Own sh' l →
      (∀ row ∈ (l.view sh'.db).wagers, row.Valid) ∧ (f none).wp discipline P F sh' l ∧
      ∀ t : WagerTransaction, t.Storable → toWagerTransactionRow t ∈ (l.view sh'.db).wagers →
        t.id = id →
        (f (some t)).wp discipline P F sh' { l with wagers := t.id :: l.wagers }) :
    (call (.lockWager id) >>= f).wp discipline P F sh l := by
  intro sh' hr hi ho others input sh'' r hexec
  obtain ⟨hvalid, hnone, hsome⟩ := h sh' hr hi ho
  cases input with
  | step =>
    simp only [exec] at hexec
    split at hexec
    · cases hexec
    · split at hexec
      · cases hexec
        exact hnone
      · rename_i row hlookup
        have hmem := Keyed.mem_of_lookup hlookup
        obtain ⟨t, hload, hrow, hstorable⟩ := (hvalid row hmem).load
        have hid : t.id = row.id := congrArg WagerTransactionRow.id hrow
        simp only [Result.found, hload, Functor.map, Except.map, Result.mapped] at hexec
        cases hexec
        rw [← hid]
        exact hsome t hstorable (hrow ▸ hmem) (hid.trans (Keyed.key_of_lookup hlookup))
  | identity id => cases hexec
  | instant at_ => cases hexec
  | jitter numerator => cases hexec

theorem wp_lockDuePendingReference {now : Instant} {f : Option WagerTransaction → Code β}
    (h : ∀ sh', Rely l sh sh' → Sound sh' → Own sh' l →
      (∀ row ∈ (l.view sh'.db).wagers, row.Valid) ∧ (f none).wp discipline P F sh' l ∧
      ∀ t : WagerTransaction, t.Storable → toWagerTransactionRow t ∈ (l.view sh'.db).wagers →
        isDue now (toWagerTransactionRow t) = true →
        (f (some t)).wp discipline P F sh' { l with wagers := t.id :: l.wagers }) :
    (call (.lockDuePendingReference now) >>= f).wp discipline P F sh l := by
  intro sh' hr hi ho others input sh'' r hexec
  obtain ⟨hvalid, hnone, hsome⟩ := h sh' hr hi ho
  cases input with
  | step =>
    simp only [exec] at hexec
    split at hexec
    · cases hexec
      exact hnone
    · rename_i row hlookup
      obtain ⟨hmem, hdue⟩ := List.mem_filter.mp (Keyed.least_mem hlookup)
      obtain ⟨t, hload, hrow, hstorable⟩ := (hvalid row hmem).load
      have hid : t.id = row.id := congrArg WagerTransactionRow.id hrow
      simp only [Result.found, hload, Functor.map, Except.map, Result.mapped] at hexec
      cases hexec
      rw [← hid]
      refine hsome t hstorable (hrow ▸ hmem) ?_
      rw [hrow]
      exact (Bool.and_eq_true _ _ ▸ hdue).1
  | identity id => cases hexec
  | instant at_ => cases hexec
  | jitter numerator => cases hexec

/-! ## Statements -/

theorem wp_updateWallet {w : Wallet} {f : Unit → Code β}
    (h : ∀ sh', Rely l sh sh' → Sound sh' → Own sh' l →
      ∃ old, (l.view sh'.db).walletById w.id = some old ∧
        (∀ e, refusal (walletRules ((toWalletRow w).set old)) = some e →
          F sh' l (.repository e)) ∧
        (refusal (walletRules ((toWalletRow w).set old)) = none →
          (f ()).wp discipline P F sh' (l.push (.updateWallet ((toWalletRow w).set old))))) :
    (call (.updateWallet w) >>= f).wp discipline P F sh l := by
  intro sh' hr hi ho others input sh'' r hexec
  obtain ⟨old, hold, hrefuse, hnext⟩ := h sh' hr hi ho
  cases input with
  | step =>
    obtain ⟨rfl, ⟨e, he, rfl⟩ | ⟨he, rfl⟩⟩ := updateRow_cases hexec hold
    · exact hrefuse e he
    · exact hnext he
  | identity id => cases hexec
  | instant at_ => cases hexec
  | jitter numerator => cases hexec

theorem wp_updateWager {t : WagerTransaction} {f : Unit → Code β}
    (h : ∀ sh', Rely l sh sh' → Sound sh' → Own sh' l →
      ∃ old, (l.view sh'.db).wagerById t.id = some old ∧
        (∀ rule ∈ wagerUpdateRules (l.view sh'.db) old ((toWagerTransactionRow t).set old),
          rule.holds = true) ∧
        (f ()).wp discipline P F sh' (l.push (.updateWager ((toWagerTransactionRow t).set old)))) :
    (call (.updateWager t) >>= f).wp discipline P F sh l := by
  intro sh' hr hi ho others input sh'' r hexec
  obtain ⟨old, hold, hrules, hnext⟩ := h sh' hr hi ho
  cases input with
  | step =>
    obtain ⟨rfl, ⟨e, he, rfl⟩ | ⟨he, rfl⟩⟩ := updateRow_cases hexec hold
    · rw [refusal_eq_none.mpr hrules] at he
      cases he
    · exact hnext
  | identity id => cases hexec
  | instant at_ => cases hexec
  | jitter numerator => cases hexec

theorem wp_insertLedger {entry : WalletLedgerEntry} {f : Unit → Code β}
    (h : ∀ sh', Rely l sh sh' → Sound sh' → Own sh' l →
      (∀ rule ∈ ledgerRules (toLedgerEntryRow entry), rule.holds = true) ∧
      (∀ k ∈ (toLedgerEntryRow entry).uniqueKeys, k ∉ (l.view sh'.db).uniqueKeys) ∧
      (∃ w ∈ (l.view sh'.db).wallets, w.id = entry.walletId ∧
        w.currency = entry.money.currency) ∧
      (∃ t ∈ (l.view sh'.db).wagers, t.id = entry.transactionId) ∧
      (f ()).wp discipline P F sh' (l.push (.insertLedger (toLedgerEntryRow entry)))) :
    (call (.insertLedger entry) >>= f).wp discipline P F sh l := by
  intro sh' hr hi ho others input sh'' r hexec
  obtain ⟨hrules, hfree, ⟨w, hw, hwid, hcur⟩, ⟨t, ht, htid⟩, hnext⟩ := h sh' hr hi ho
  have hforeign : ∀ rule ∈
      [walletForeignKey "ledger_wallet_fk" (l.view sh'.db) (toLedgerEntryRow entry).walletId
          (toLedgerEntryRow entry).currency,
        check "ledger_transaction_fk" ((l.view sh'.db).wagers.any fun t =>
          t.id = (toLedgerEntryRow entry).transactionId)], rule.holds = true := by
    simp only [List.forall_mem_cons, List.not_mem_nil, false_imp_iff, implies_true, and_true,
      walletForeignKey, check, List.any_eq_true, Bool.and_eq_true, decide_eq_true_eq]
    exact ⟨⟨w, hw, hwid, hcur⟩, t, ht, htid⟩
  cases input with
  | step =>
    obtain ⟨rfl, ⟨e, he, rfl⟩ | ⟨he, rfl⟩⟩ :=
      insertPlain_cases hexec hfree (by simp [WalletLedgerEntryRow.uniqueKeys]) hforeign
    · rw [refusal_eq_none.mpr hrules] at he
      cases he
    · exact hnext
  | identity id => cases hexec
  | instant at_ => cases hexec
  | jitter numerator => cases hexec

theorem wp_enqueue {events : List IntegrationEvent} {now : Instant} {f : Unit → Code β}
    (hne : events ≠ []) (hnodup : (events.map IntegrationEvent.eventId).Nodup)
    (h : ∀ sh', Rely l sh sh' → Sound sh' → Own sh' l →
      (∀ ev ∈ events, .outboxId ev.eventId ∉ (l.view sh'.db).uniqueKeys) ∧
      (∀ e, refusal ((events.map (toOutboxRow now)).flatMap outboxRules) = some e →
        F sh' l (.repository e)) ∧
      (f ()).wp discipline P F sh' (l.push (.insertOutbox (events.map (toOutboxRow now))))) :
    (call (.enqueue events now) >>= f).wp discipline P F sh l := by
  intro sh' hr hi ho others input sh'' r hexec
  obtain ⟨hfree, hrefuse, hnext⟩ := h sh' hr hi ho
  cases input with
  | step =>
    have hempty : (events.map (toOutboxRow now)).isEmpty = false := by simpa using hne
    simp only [exec, hempty, Bool.false_eq_true, if_false, outboxKeys_eq] at hexec
    obtain ⟨rfl, ⟨e, he, rfl⟩ | ⟨he, rfl⟩⟩ := insertPlain_cases hexec
      (by simpa using hfree) (hnodup.map fun a b hab => UniqueKey.outboxId.inj hab) (by simp)
    · exact hrefuse e he
    · exact hnext
  | identity id => cases hexec
  | instant at_ => cases hexec
  | jitter numerator => cases hexec

theorem wp_reserve {t : WagerTransaction} {f : Option WagerTransaction → Code β}
    (hpending : t.status = .pending)
    (h : ∀ sh', Rely l sh sh' → Sound sh' → Own sh' l →
      let row := toWagerTransactionRow t
      let rules := wagerColumnRules row ++ wagerCheckRules row
      (∀ e, refusal rules = some e → F sh' l (.repository e)) ∧
      (refusal rules = none → (∃ k ∈ row.stored.uniqueKeys, k ∈ (l.view sh'.db).uniqueKeys) →
        (f none).wp discipline P F sh' { l with lostAt := some sh'.db }) ∧
      (refusal rules = none → (∀ k ∈ row.stored.uniqueKeys, k ∉ (l.view sh'.db).uniqueKeys) →
        ∃ owned, toWagerTransaction row.stored = .ok owned ∧
          (f (some owned)).wp discipline P F sh' (l.push (.insertWager row.stored)))) :
    (call (.reserve t) >>= f).wp discipline P F sh l := by
  intro sh' hr hi ho others input sh'' r hexec
  obtain ⟨hrefuse, hlost, howned⟩ := h sh' hr hi ho
  cases input with
  | step =>
    simp only [exec, hpending, ne_eq, not_true, if_false] at hexec
    obtain ⟨rfl, ⟨e, he, rfl⟩ | ⟨he, hk, rfl⟩ | ⟨he, hk, hload⟩⟩ := insertOrIgnore_cases hexec
    · exact hrefuse e he
    · exact hlost he hk
    · obtain ⟨owned, hok, hnext⟩ := howned he hk
      rcases hload with ⟨e, herr, -⟩ | ⟨a, ha, rfl⟩
      · rw [hok] at herr
        cases herr
      · rw [hok] at ha
        cases ha
        exact hnext
  | identity id => cases hexec
  | instant at_ => cases hexec
  | jitter numerator => cases hexec

theorem wp_insertIfAbsent {w : Wallet} {f : Option Wallet → Code β}
    (h : ∀ sh', Rely l sh sh' → Sound sh' → Own sh' l →
      let row := toWalletRow w
      (∀ e, refusal (walletRules row) = some e → F sh' l (.repository e)) ∧
      (f none).wp discipline P F sh' { l with lostAt := some sh'.db } ∧
      (refusal (walletRules row) = none →
        (∀ k ∈ row.stored.uniqueKeys, k ∉ (l.view sh'.db).uniqueKeys) →
        ∃ created, toWallet row.stored = .ok created ∧
          (f (some created)).wp discipline P F sh' (l.push (.insertWallet row.stored)))) :
    (call (.insertIfAbsent w) >>= f).wp discipline P F sh l := by
  intro sh' hr hi ho others input sh'' r hexec
  obtain ⟨hrefuse, hlost, hcreated⟩ := h sh' hr hi ho
  cases input with
  | step =>
    obtain ⟨rfl, ⟨e, he, rfl⟩ | ⟨he, hk, rfl⟩ | ⟨he, hk, hload⟩⟩ := insertOrIgnore_cases hexec
    · exact hrefuse e he
    · exact hlost
    · obtain ⟨created, hok, hnext⟩ := hcreated he hk
      rcases hload with ⟨e, herr, -⟩ | ⟨a, ha, rfl⟩
      · rw [hok] at herr
        cases herr
      · rw [hok] at ha
        cases ha
        exact hnext
  | identity id => cases hexec
  | instant at_ => cases hexec
  | jitter numerator => cases hexec

theorem wp_reserveInbox {message : InboxMessageRow} {f : Option InboxMessageRow → Code β}
    (h : ∀ sh', Rely l sh sh' → Sound sh' → Own sh' l →
      (∀ e, refusal (inboxRules message) = some e → F sh' l (.repository e)) ∧
      (.inbox message.stored.key ∈ (l.view sh'.db).uniqueKeys →
        (f none).wp discipline P F sh' l) ∧
      (refusal (inboxRules message) = none →
        .inbox message.stored.key ∉ (l.view sh'.db).uniqueKeys →
        (f (some message.stored)).wp discipline P F sh' (l.push (.insertInbox message.stored)))) :
    (call (.reserveInbox message) >>= f).wp discipline P F sh l := by
  intro sh' hr hi ho others input sh'' r hexec
  obtain ⟨hrefuse, hlost, hreserved⟩ := h sh' hr hi ho
  cases input with
  | step =>
    obtain ⟨rfl, ⟨e, he, rfl⟩ | ⟨he, ⟨k, hk, hmem⟩, rfl⟩ | ⟨he, hk, hload⟩⟩ :=
      insertOrIgnore_cases hexec
    · exact hrefuse e he
    · rw [List.mem_singleton] at hk
      exact hlost (hk ▸ hmem)
    · rcases hload with ⟨e, herr, -⟩ | ⟨a, ha, rfl⟩
      · cases herr
      · cases ha
        exact hreserved he (hk _ (List.mem_singleton.mpr rfl))
  | identity id => cases hexec
  | instant at_ => cases hexec
  | jitter numerator => cases hexec

theorem wp_markInboxProcessed {key : InboxKey} {processedAt : Instant} {f : Unit → Code β}
    (h : ∀ sh', Rely l sh sh' → Sound sh' → Own sh' l →
      ∃ old, (l.view sh'.db).inboxByKey key = some old ∧
        (∀ e, refusal (inboxUpdateRules old (old.mark processedAt)) = some e →
          F sh' l (.repository e)) ∧
        (f ()).wp discipline P F sh' (l.push (.markInbox key.stored processedAt))) :
    (call (.markInboxProcessed key processedAt) >>= f).wp discipline P F sh l := by
  intro sh' hr hi ho others input sh'' r hexec
  obtain ⟨old, hold, hrefuse, hnext⟩ := h sh' hr hi ho
  cases input with
  | step =>
    simp only [exec] at hexec
    obtain ⟨rfl, ⟨e, he, rfl⟩ | ⟨he, rfl⟩⟩ := updateRow_cases hexec hold
    · exact hrefuse e he
    · exact hnext
  | identity id => cases hexec
  | instant at_ => cases hexec
  | jitter numerator => cases hexec

/-! ## Code without calls -/

theorem wp_pure {b : β}
    (h : ∀ sh', Rely l sh sh' → Sound sh' → Own sh' l → P sh' l b) :
    (Program.pure b : Code β).wp discipline P F sh l := h

theorem wp_raise {e : Failure}
    (h : ∀ sh', Rely l sh sh' → Sound sh' → Own sh' l → F sh' l e) :
    (Program.raise e : Code β).wp discipline P F sh l := h

@[simp] theorem domain_ok (a : α) : (domain (.ok a) : Code α) = .pure a := rfl

@[simp] theorem domain_error (e : DomainError) :
    (domain (.error e) : Code α) = .raise (.domain e) := rfl

end Wagering
