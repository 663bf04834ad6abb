import Wagering.Correctness.Deciding

/-!
# Rows that the domain writes pass the schema

The domain's transitions and the schema's CHECKs are two statements of one
specification.  Here they are compared: every row that a transition of a valid
transaction leads to is valid, and so are the entries and events written with it.
-/

namespace Wagering

open Text

/-! ## Instants -/

theorem Instant.isTimestamp_iff (at_ : Int) :
    Instant.isTimestamp at_ = true ↔ -210866803200000 ≤ at_ ∧ at_ ≤ 8640000000000000 := by
  simp [Instant.isTimestamp]

theorem Instant.isReading_iff (at_ : Int) :
    Instant.isReading at_ = true ↔ -210866803200000 ≤ at_ ∧ at_ + 21600000 ≤ 8640000000000000 := by
  simp only [Instant.isReading, Bool.and_eq_true, Instant.isTimestamp_iff]
  omega

theorem Instant.isReading_timestamp {now : Instant} (h : now.isReading = true) {delay : Int}
    (hd : 0 ≤ delay) (hd' : delay ≤ 21600000) : Instant.isTimestamp (now + delay) = true := by
  rw [Instant.isReading_iff] at h
  exact (Instant.isTimestamp_iff _).mpr (by omega)

theorem Instant.isReading_isTimestamp {now : Instant} (h : now.isReading = true) :
    now.isTimestamp = true := by
  simp only [Instant.isReading, Bool.and_eq_true] at h
  exact h.1

theorem Instant.isReading_isFinite {now : Instant} (h : now.isReading = true) :
    now.isFinite = true := by
  rw [Instant.isReading_iff] at h
  simp only [Instant.isFinite, decide_eq_true_eq]
  omega

theorem characters_le_of_length {n : Nat} {t : Text} (h : t.length ≤ n) : characters t ≤ n :=
  (characters_le_length t).trans h

theorem optional_holds {α : Type} {rule : α → Rule} {value : Option α}
    (h : ∀ a ∈ value, (rule a).holds = true) : (optional rule value).holds = true := by
  cases value with
  | none => rfl
  | some a => exact h a rfl

theorem of_optional {α : Type} {rule : α → Rule} {value : Option α}
    (h : (optional rule value).holds = true) : ∀ a ∈ value, (rule a).holds = true := by
  cases value with
  | none => exact fun a ha => by cases ha
  | some b => exact fun a ha => by cases ha; exact h

theorem stored_set {old new : WagerTransactionRow} (h : old.stored = old) :
    (new.set old).stored = new.set old := by
  cases old
  simp only [WagerTransactionRow.stored, WagerTransactionRow.set,
    WagerTransactionRow.mk.injEq] at h ⊢
  tauto

theorem refusal_eq_some {rules : List Rule} {e : RepositoryError} (h : refusal rules = some e) :
    ∃ rule ∈ rules, rule.holds = false ∧ rule.error = e := by
  simp only [refusal, Option.map_eq_some_iff] at h
  obtain ⟨rule, hfind, rfl⟩ := h
  exact ⟨rule, List.mem_of_find?_eq_some hfind, by simpa using List.find?_some hfind, rfl⟩

/-- A text that `jsonb` takes and gives back unchanged. -/
def isPlain (t : Text) : Bool := !hasNul t && decide (Text.stored t = t)

theorem isPlain_uuid {id : Text} (h : isUuid id = true) : isPlain id = true := by
  obtain ⟨hnul, hstored, -⟩ := isUuid_plain h
  simp [isPlain, hnul, hstored]

/-- Only a text from outside can keep an event out of the outbox. -/
theorem event_rules {events : List IntegrationEvent} {now : Instant}
    (hnow : now.isTimestamp = true)
    (hevents : ∀ ev ∈ events, ev.aggregateId.length ≤ 128 ∧ ev.occurredAt.isTimestamp = true)
    {e : RepositoryError}
    (h : refusal ((events.map (toOutboxRow now)).flatMap outboxRules) = some e) :
    e = .malformedText (utf16 "payload") ∧
      ∃ ev ∈ events, ∃ t ∈ ev.foreignTexts, isPlain t = false := by
  obtain ⟨rule, hmem, hfalse, rfl⟩ := refusal_eq_some h
  simp only [List.mem_flatMap, List.mem_map] at hmem
  obtain ⟨row, ⟨ev, hev, rfl⟩, hmem⟩ := hmem
  obtain ⟨hagg, hocc⟩ := hevents ev hev
  have htype : characters ev.data.eventType ≤ 64 := by
    refine characters_le_of_length ?_
    cases ev.data <;> simp only [EventData.eventType] <;> decide
  have hothers : ∀ rule ∈ outboxRules (toOutboxRow now ev), rule.holds = true ∨
      rule = ⟨ev.foreignTexts.all fun t => !hasNul t && Text.stored t = t,
        .malformedText (utf16 "payload")⟩ := by
    simp only [outboxRules, List.forall_mem_cons]
    exact ⟨.inr rfl, .inl rfl, .inl rfl, .inl (decide_eq_true (characters_le_of_length hagg)),
      .inl (decide_eq_true htype), .inl hocc, .inl rfl, .inl hnow, .inl rfl, .inl rfl, .inl rfl,
      .inl rfl, .inl rfl, .inl rfl, .inl rfl, by simp⟩
  rcases hothers rule hmem with htrue | rfl
  · rw [htrue] at hfalse
    cases hfalse
  · refine ⟨rfl, ev, hev, ?_⟩
    simp only [List.all_eq_false] at hfalse
    obtain ⟨t, ht, hbad⟩ := hfalse
    exact ⟨t, ht, by simpa [isPlain] using hbad⟩

variable [Platform]

theorem isIsoCurrency_format {c : Text} (h : isIsoCurrency c = true) :
    isCurrencyFormat c = true ∧ characters c ≤ 3 := by
  simp only [isIsoCurrency, Bool.and_eq_true] at h
  refine ⟨h.1, characters_le_of_length ?_⟩
  simp only [isCurrencyFormat, Bool.and_eq_true, decide_eq_true_eq] at h
  omega

/-! ## The columns of a result -/

/-- The columns that an update sets, as far as their types go. -/
structure ResultColumns (row : WagerTransactionRow) : Prop where
  amount : ∀ a ∈ row.resultBalanceAmount, a.natAbs ≤ maxAbsolute
  currency : ∀ c ∈ row.resultBalanceCurrency, isIsoCurrency c = true
  attempts : 0 ≤ row.attempts ∧ row.attempts ≤ 100
  nextAttemptAt : ∀ at_ ∈ row.nextAttemptAt, at_.isTimestamp = true
  expiresAt : ∀ at_ ∈ row.expiresAt, at_.isTimestamp = true
  processedAt : ∀ at_ ∈ row.processedAt, at_.isTimestamp = true

theorem columns_set {old new : WagerTransactionRow}
    (h : ∀ rule ∈ wagerColumnRules old, rule.holds = true) (hnew : ResultColumns new) :
    ∀ rule ∈ wagerColumnRules (new.set old), rule.holds = true := by
  simp only [wagerColumnRules, List.forall_mem_cons] at h ⊢
  obtain ⟨h1, h2, h3, h4, h5, h6, h7, h8, h9, h10, h11, h12, h13, h14, h15, h16, h17, h18, h19,
    -, -, -, -, -, h25, h26, -, h28⟩ := h
  refine ⟨h1, h2, h3, h4, h5, h6, h7, h8, h9, h10, h11, h12, h13, h14, h15, h16, h17, h18, h19,
    ?_, ?_, ?_, ?_, ?_, h25, h26, ?_, h28⟩
  · exact optional_holds fun a ha => by simpa [moneyRule] using hnew.amount a ha
  · exact optional_holds fun c hc => by
      simpa [lengthRule] using (isIsoCurrency_format (hnew.currency c hc)).2
  · have hattempts := hnew.attempts
    change (integerRule "attempts" new.attempts).holds = true
    simp only [integerRule, Bool.and_eq_true, decide_eq_true_eq]
    omega
  · exact optional_holds hnew.nextAttemptAt
  · exact optional_holds hnew.expiresAt
  · exact optional_holds hnew.processedAt

/-- Setting the result columns of a valid row, within the CHECKs. -/
theorem WagerTransactionRow.Valid.set {old new : WagerTransactionRow} (h : old.Valid)
    (hcolumns : ResultColumns new)
    (hchecks : ∀ rule ∈ wagerCheckRules (new.set old), rule.holds = true) :
    (new.set old).Valid where
  columns := columns_set h.columns hcolumns
  checks := hchecks
  stored := stored_set h.stored
  attempts := hcolumns.attempts.2
  uuid := h.uuid
  isoCurrency := h.isoCurrency
  resultCurrency := hcolumns.currency
  internal := h.internal

/-- The result columns of a valid row. -/
theorem WagerTransactionRow.Valid.result {row : WagerTransactionRow} (h : row.Valid) :
    ResultColumns row := by
  have hcolumns := h.columns
  have hchecks := h.checks
  simp only [wagerColumnRules, wagerCheckRules, List.forall_mem_cons] at hcolumns hchecks
  obtain ⟨-, -, -, -, -, -, -, -, -, -, -, -, -, -, -, -, -, -, -, hamount, -, -, hnext, hexpires,
    -, -, hprocessed, -⟩ := hcolumns
  obtain ⟨-, -, hattempts, -⟩ := hchecks
  exact
    { amount := fun a ha => by simpa [moneyRule] using of_optional hamount a ha
      currency := h.resultCurrency
      attempts := ⟨by simpa [check] using hattempts, h.attempts⟩
      nextAttemptAt := of_optional hnext
      expiresAt := of_optional hexpires
      processedAt := of_optional hprocessed }

/-- The CHECKs on the columns that no update changes, and what a row that is not
yet terminal has in the others. -/
theorem WagerTransactionRow.Valid.waiting {row : WagerTransactionRow} (h : row.Valid)
    (hs : row.status.isTerminal = false) :
    row.failureCode = none ∧ row.processedAt = none ∧
      (match row.kind with
        | .refund | .rollback => row.referenceExternalTransactionId.isSome
        | .win => true
        | _ => row.referenceExternalTransactionId.isNone) = true := by
  have hchecks := h.checks
  simp only [wagerCheckRules, List.forall_mem_cons] at hchecks
  obtain ⟨-, -, -, -, hcode, -, hprocessed, -, -, -, -, hkind, -⟩ := hchecks
  simp only [check] at hcode hprocessed hkind
  refine ⟨?_, ?_, hkind⟩
  · cases hst : row.status <;> simp_all [WagerTransactionStatus.isTerminal]
  · simpa [hs] using hprocessed

/-! ## Transitions -/

variable {t : WagerTransaction}

/-- What stays of a transaction that is not terminal yet, in the form the CHECKs use. -/
structure Waiting (t : WagerTransaction) : Prop where
  valid : (toWagerTransactionRow t).Valid
  open_ : t.status.isTerminal = false

namespace Waiting

/-- A transition leads to a valid row if the columns that it sets pass the CHECKs. -/
theorem transition (h : Waiting t) {t' : WagerTransaction}
    (same : t'.toCreateWagerTransactionProps = t.toCreateWagerTransactionProps)
    (hattempts : t'.attempts = t.attempts ∨ t'.attempts = t.attempts + 1 ∧ t.attempts < 100)
    (hnext : ∀ at_ ∈ t'.nextAttemptAt, t.nextAttemptAt = some at_ ∨ at_.isTimestamp = true)
    (hexpires : ∀ at_ ∈ t'.expiresAt, t.expiresAt = some at_ ∨ at_.isTimestamp = true)
    (hprocessed : ∀ at_ ∈ t'.processedAt, t.processedAt = some at_ ∨ at_.isTimestamp = true)
    (hchecks : ∀ rule ∈ wagerCheckRules (toWagerTransactionRow t'), rule.holds = true) :
    (toWagerTransactionRow t').Valid := by
  have hold := h.valid.result
  have hset : (toWagerTransactionRow t').set (toWagerTransactionRow t) =
      toWagerTransactionRow t' := by
    simp [WagerTransactionRow.set, toWagerTransactionRow, same]
  refine hset ▸ h.valid.set
    { amount := fun a ha => ?amount
      currency := fun c hc => ?currency
      attempts := ?attempts
      nextAttemptAt := fun at_ ha => (hnext at_ ha).elim (hold.nextAttemptAt at_) id
      expiresAt := fun at_ ha => (hexpires at_ ha).elim (hold.expiresAt at_) id
      processedAt := fun at_ ha => (hprocessed at_ ha).elim (hold.processedAt at_) id }
    (hset.symm ▸ hchecks)
  case amount =>
    simp only [toWagerTransactionRow, Option.mem_def, Option.map_eq_some_iff] at ha
    obtain ⟨m, -, rfl⟩ := ha
    exact m.inRange
  case currency =>
    simp only [toWagerTransactionRow, Option.mem_def, Option.map_eq_some_iff] at hc
    obtain ⟨m, -, rfl⟩ := hc
    exact m.isoCurrency
  case attempts =>
    have := hold.attempts
    simp only [toWagerTransactionRow] at this ⊢
    omega

/-- A transaction that is marked processed. -/
theorem processed (h : Waiting t) (reference : Option Text) (balance : Money) {now : Instant}
    (hself : reference ≠ some t.id) (hrev : t.kind.isReversal = true → reference.isSome = true)
    (hnonneg : 0 ≤ balance.cents) (hnow : now.isTimestamp = true) :
    (toWagerTransactionRow { t with
      status := .processed, referenceTransactionId := reference, resultBalance := some balance,
      processedAt := some now }).Valid := by
  obtain ⟨hcode, -, hkind⟩ := h.valid.waiting h.open_
  obtain ⟨hpos, -⟩ := h.valid.amounts
  have hattempts := h.valid.result.attempts.1
  have hformat := (isIsoCurrency_format h.valid.isoCurrency).1
  refine h.transition rfl (.inl rfl) (fun _ ha => .inl ha) (fun _ ha => .inl ha)
    (fun at_ ha => .inr (by cases ha; exact hnow)) ?_
  simp only [toWagerTransactionRow] at hcode hkind hpos hattempts hformat
  simp only [wagerCheckRules, check, toWagerTransactionRow, hcode,
    List.forall_mem_cons]
  refine ⟨by simpa using hpos, hformat, by simpa using hattempts, by simpa using hself, rfl, rfl,
    rfl, rfl, by simpa using hnonneg, rfl, by simp, hkind, ?_, by simp, by simp⟩
  cases hk : t.kind.isReversal with
  | false => simp
  | true => simp [hrev hk]

/-- A transaction that is rejected. -/
theorem rejected (h : Waiting t) {code : FailureCode} {balance : Option Money} {now : Instant}
    (hinfra : code ≠ .infrastructureFailure) (hdisclosed : code.disclosesNoBalance = balance.isNone)
    (hunresolved : t.referenceTransactionId = none)
    (hnonneg : ∀ m ∈ balance, 0 ≤ m.cents)
    (hcurrency : ∀ m ∈ balance, m.currency = t.money.currency ∨ code = .currencyMismatch)
    (hnow : now.isTimestamp = true) :
    (toWagerTransactionRow { t with
      status := .rejected, failureCode := some code, resultBalance := balance,
      processedAt := some now }).Valid := by
  obtain ⟨-, -, hkind⟩ := h.valid.waiting h.open_
  obtain ⟨hpos, -⟩ := h.valid.amounts
  have hattempts := h.valid.result.attempts.1
  have hformat := (isIsoCurrency_format h.valid.isoCurrency).1
  refine h.transition rfl (.inl rfl) (fun _ ha => .inl ha) (fun _ ha => .inl ha)
    (fun at_ ha => .inr (by cases ha; exact hnow)) ?_
  simp only [toWagerTransactionRow] at hkind hpos hattempts hformat
  simp only [wagerCheckRules, check, toWagerTransactionRow, hunresolved,
    List.forall_mem_cons]
  refine ⟨by simpa using hpos, hformat, by simpa using hattempts, by simp, by simp,
    by simpa using hinfra, by simp [WagerTransactionStatus.isTerminal], by simp, ?_, ?_, ?_, hkind,
    by simp, by simp, by simp⟩
  · cases balance with
    | none => rfl
    | some m => simpa using hnonneg m rfl
  · cases balance <;> cases code <;> simp_all [FailureCode.disclosesNoBalance]
  · cases balance with
    | none => simp
    | some m => rcases hcurrency m rfl with hc | hc <;> simp [hc]

/-- A reversal that begins to wait for its reference. -/
theorem pendingReference (h : Waiting t) {balance : Money} {next expires : Instant}
    (hkind : t.kind.isReversal = true) (hunresolved : t.referenceTransactionId = none)
    (hnonneg : 0 ≤ balance.cents) (hnext : next.isTimestamp = true)
    (hexpires : expires.isTimestamp = true) :
    (toWagerTransactionRow { t with
      status := .pendingReference, resultBalance := some balance, nextAttemptAt := some next,
      expiresAt := some expires }).Valid := by
  obtain ⟨hcode, hprocessed, href⟩ := h.valid.waiting h.open_
  obtain ⟨hpos, -⟩ := h.valid.amounts
  have hattempts := h.valid.result.attempts.1
  have hformat := (isIsoCurrency_format h.valid.isoCurrency).1
  refine h.transition rfl (.inl rfl) (fun at_ ha => .inr (by cases ha; exact hnext))
    (fun at_ ha => .inr (by cases ha; exact hexpires)) (fun _ ha => .inl ha) ?_
  simp only [toWagerTransactionRow] at hcode hprocessed href hpos hattempts hformat
  simp only [wagerCheckRules, check, toWagerTransactionRow, hunresolved,
    hcode, hprocessed, List.forall_mem_cons]
  exact ⟨by simpa using hpos, hformat, by simpa using hattempts, by simp, by simp, by simp,
    by simp [WagerTransactionStatus.isTerminal], by simp, by simpa using hnonneg, by simp, by simp,
    href, by simp, by simp [hkind], by simp⟩

/-- A pending reversal whose settlement keeps failing. -/
theorem failed (h : Waiting t) {balance : Money} {now : Instant}
    (hunresolved : t.referenceTransactionId = none) (hnonneg : 0 ≤ balance.cents)
    (hcurrency : balance.currency = t.money.currency) (hnow : now.isTimestamp = true) :
    (toWagerTransactionRow { t with
      status := .failed, failureCode := some .infrastructureFailure,
      resultBalance := some balance, processedAt := some now }).Valid := by
  obtain ⟨-, -, hkind⟩ := h.valid.waiting h.open_
  obtain ⟨hpos, -⟩ := h.valid.amounts
  have hattempts := h.valid.result.attempts.1
  have hformat := (isIsoCurrency_format h.valid.isoCurrency).1
  refine h.transition rfl (.inl rfl) (fun _ ha => .inl ha) (fun _ ha => .inl ha)
    (fun at_ ha => .inr (by cases ha; exact hnow)) ?_
  simp only [toWagerTransactionRow] at hkind hpos hattempts hformat
  simp only [wagerCheckRules, check, toWagerTransactionRow, hunresolved,
    List.forall_mem_cons]
  exact ⟨by simpa using hpos, hformat, by simpa using hattempts, by simp, by simp, by simp,
    by simp [WagerTransactionStatus.isTerminal], by simp, by simpa using hnonneg, by simp,
    by simp [hcurrency], hkind, by simp, by simp, by simp⟩

/-- A pending reversal that is tried again later. -/
theorem retried (h : Waiting t) {next : Instant} (hstatus : t.status = .pendingReference)
    (hattempts : t.attempts < 100) (hnext : next.isTimestamp = true) :
    (toWagerTransactionRow { t with
      attempts := t.attempts + 1, nextAttemptAt := some next }).Valid := by
  have hold := h.valid.result.attempts.1
  have hchecks := h.valid.checks
  refine h.transition rfl (.inr ⟨rfl, hattempts⟩)
    (fun at_ ha => .inr (by cases ha; exact hnext)) (fun _ ha => .inl ha) (fun _ ha => .inl ha) ?_
  simp only [toWagerTransactionRow] at hold
  simp only [wagerCheckRules, check, toWagerTransactionRow,
    List.forall_mem_cons] at hchecks ⊢
  obtain ⟨h1, h2, -, h4, h5, h6, h7, h8, h9, h10, h11, h12, h13, h14, h15⟩ := hchecks
  refine ⟨h1, h2, ?_, h4, h5, h6, h7, h8, h9, h10, h11, h12, h13, ?_, h15⟩
  · exact decide_eq_true (by omega : (0 : Int) ≤ t.attempts + 1)
  · have hwaits : (decide (t.status ≠ .pendingReference) || (t.kind.isReversal &&
        t.referenceTransactionId.isNone && t.nextAttemptAt.isSome && t.expiresAt.isSome)) = true :=
      h14
    change (decide (t.status ≠ .pendingReference) || (t.kind.isReversal &&
      t.referenceTransactionId.isNone && true && t.expiresAt.isSome)) = true
    simp only [hstatus, ne_eq, not_true_eq_false, decide_false, Bool.false_or, Bool.and_eq_true]
      at hwaits ⊢
    exact ⟨⟨hwaits.1.1, trivial⟩, hwaits.2⟩

end Waiting

/-! ## Statements -/

/-- An update to a valid row passes the triggers and the foreign keys as well. -/
theorem update_rules {db : Database} {old : WagerTransactionRow} {t' : WagerTransaction}
    (hvalid : (toWagerTransactionRow t').Valid)
    (same : SameIdentity old (toWagerTransactionRow t')) (hold : old.status.isTerminal = false)
    (hguard : t'.status = .processed → t'.kind.isReversal = true →
      ∀ r ∈ t'.referenceTransactionId, hasActiveReversal db.wagers r = false)
    (hreference : ∀ r ∈ t'.referenceTransactionId, ∃ row ∈ db.wagers, row.id = r)
    (hwallet : ∀ m ∈ t'.resultBalance,
      ∃ w ∈ db.wallets, w.id = t'.walletId ∧ w.currency = m.currency) :
    ∀ rule ∈ wagerUpdateRules db old ((toWagerTransactionRow t').set old), rule.holds = true := by
  rw [same.set_eq, wagerUpdateRules]
  simp only [List.forall_mem_append, List.forall_mem_cons]
  refine ⟨⟨⟨hvalid.columns, ?guard, ?terminal, by simp⟩, hvalid.checks⟩, ?reference, ?wallet, by simp⟩
  case guard =>
    simp only [check, Bool.or_eq_true, decide_eq_true_eq, Bool.not_eq_true', Option.all_eq_true]
    by_cases hs : t'.status = .processed
    · by_cases hk : t'.kind.isReversal = true
      · refine .inr fun r hr => ?_
        have := hguard hs hk r hr
        rw [hasActiveReversal, List.any_eq_false] at this
        rw [List.any_eq_false]
        intro a ha
        simp [this a ha]
      · exact .inl (.inr (Bool.not_eq_true _ ▸ hk))
    · exact .inl (.inl hs)
  case terminal => simp [check, hold]
  case reference =>
    simp only [check, Option.all_eq_true, List.any_eq_true, decide_eq_true_eq]
    exact fun r hr => hreference r hr
  case wallet =>
    refine optional_holds fun c hc => ?_
    simp only [toWagerTransactionRow, Option.mem_def, Option.map_eq_some_iff] at hc
    obtain ⟨m, hm, rfl⟩ := hc
    simp only [walletForeignKey, check, List.any_eq_true, Bool.and_eq_true, decide_eq_true_eq]
    exact hwallet m hm

/-- A wallet that a movement leaves behind can be refused only for its version. -/
theorem moved_wallet_rules {w : Wallet} {balance : Money} {now : Instant}
    (hvalid : (toWalletRow w).Valid) (hnonneg : 0 ≤ balance.cents) (hnow : now.isTimestamp = true)
    {e : RepositoryError}
    (h : refusal (walletRules ((toWalletRow { w with
      balance, version := w.version + 1,
      updatedAt := if now > w.updatedAt then now else w.updatedAt }).set (toWalletRow w))) = some e) :
    e = .integrity (.outOfRange (utf16 "version")) ∧ 2147483647 ≤ w.version := by
  have hrules := hvalid.rules
  simp only [walletRules, List.forall_mem_cons] at hrules
  obtain ⟨h1, h2, h3, -, hversion, h6, h7, -, h9, h10, hupdated, -⟩ := hrules
  have hle : w.createdAt ≤ w.updatedAt :=
    of_decide_eq_true (show decide (w.createdAt ≤ w.updatedAt) = true from hupdated)
  have hmin : 1 ≤ w.version := of_decide_eq_true (show decide (1 ≤ w.version) = true from h9)
  have htime : Instant.isTimestamp (if now > w.updatedAt then now else w.updatedAt) = true ∧
      w.createdAt ≤ (if now > w.updatedAt then now else w.updatedAt) := by
    split
    · exact ⟨hnow, Int.le_trans hle (Int.le_of_lt ‹_›)⟩
    · exact ⟨h7, hle⟩
  -- every rule but the one about the version holds
  have hothers : ∀ rule ∈ walletRules ((toWalletRow { w with
      balance, version := w.version + 1,
      updatedAt := if now > w.updatedAt then now else w.updatedAt }).set (toWalletRow w)),
      rule.holds = true ∨ rule = integerRule "version" (w.version + 1) := by
    simp only [walletRules, List.forall_mem_cons]
    refine ⟨.inl h1, .inl h2, .inl h3, .inl (decide_eq_true balance.inRange), .inr rfl, .inl h6,
      .inl htime.1, .inl (decide_eq_true hnonneg), .inl ?_, .inl h10,
      .inl (decide_eq_true htime.2), by simp⟩
    exact decide_eq_true (by omega : 1 ≤ w.version + 1)
  obtain ⟨rule, hmem, hfalse, rfl⟩ := refusal_eq_some h
  rcases hothers rule hmem with htrue | rfl
  · rw [htrue] at hfalse
    cases hfalse
  · refine ⟨rfl, ?_⟩
    simp only [integerRule, Bool.and_eq_false_iff, decide_eq_false_iff_not] at hfalse
    omega

theorem moved_wallet_valid {w : Wallet} {row : WalletRow} (hvalid : (toWalletRow w).Valid)
    (same : SameWallet (toWalletRow w) row)
    (h : refusal (walletRules (row.set (toWalletRow w))) = none) : row.Valid := by
  rw [same.set_eq] at h
  refine ⟨refusal_eq_none.mp h, ?_, same.id ▸ hvalid.uuid, same.currency ▸ hvalid.isoCurrency⟩
  have hstored := congrArg WalletRow.playerId hvalid.stored
  have : Text.stored row.playerId = row.playerId := same.playerId ▸ hstored
  cases row
  simp_all [WalletRow.stored]

/-- The entry of a movement passes its rules. -/
theorem entry_rules {entry : WalletLedgerEntry} (hpos : 0 < entry.money.cents)
    (hbefore : 0 ≤ entry.balanceBefore.cents) (hafter : 0 ≤ entry.balanceAfter.cents)
    (harith : entry.balanceAfter.cents =
      entry.balanceBefore.cents + entry.direction.signed entry.money.cents)
    (hat : entry.createdAt.isTimestamp = true) :
    ∀ rule ∈ ledgerRules (toLedgerEntryRow entry), rule.holds = true := by
  have hiso := isIsoCurrency_format entry.money.isoCurrency
  simp only [ledgerRules, List.forall_mem_cons]
  refine ⟨decide_eq_true entry.money.inRange, decide_eq_true hiso.2,
    decide_eq_true entry.balanceBefore.inRange, decide_eq_true entry.balanceAfter.inRange, hat,
    decide_eq_true hpos, hiso.1, decide_eq_true hbefore, decide_eq_true hafter, ?_, by simp⟩
  simp only [check, toLedgerEntryRow]
  cases hd : entry.direction with
  | credit => exact decide_eq_true (by rw [harith, hd]; rfl)
  | debit => exact decide_eq_true (by rw [harith, hd]; exact Int.add_neg_eq_sub ..)

end Wagering
