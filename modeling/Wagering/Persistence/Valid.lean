import Wagering.Persistence.Database

/-!
# Rows that the tables can hold

A row is `Valid` when it passes every rule of its own table and comes back from
the database as it went in.  A valid row is one that its mapper can read.
-/

namespace Wagering

open Text

/-! ## Identifiers -/

theorem uuidText_isUuid {t : Text} (h : isUuid t = true) : isUuid (uuidText t) = true := by
  have hhex : ∀ u : UInt16, isUpper u = true → isHexDigit u = true →
      isHexDigit (u + 32) = true ∧ isUpper (u + 32) = false := by
    intro u hu hx
    simp only [isUpper, isHexDigit, isDigit, Bool.and_eq_true, Bool.or_eq_true,
      decide_eq_true_eq] at hu hx
    have hadd : (u + 32).toNat = u.toNat + 32 := by
      simp only [UInt16.toNat_add]
      have : (32 : UInt16).toNat = 32 := rfl
      omega
    simp only [isUpper, isHexDigit, isDigit, hadd, Bool.and_eq_true, Bool.or_eq_true,
      decide_eq_true_eq, Bool.and_eq_false_iff, decide_eq_false_iff_not]
    omega
  simp only [isUuid, Bool.and_eq_true, decide_eq_true_eq, List.all_eq_true, List.mem_range] at h ⊢
  refine ⟨by simp [uuidText, h.1], fun i hi => ?_⟩
  have hget := h.2 i hi
  simp only [uuidText, List.getElem?_map]
  cases hu : t[i]? with
  | none => rw [hu] at hget; cases hget
  | some u =>
    simp only [hu, Option.map_some] at hget ⊢
    split at hget
    · rename_i hdash
      have : u = 45 := by simpa using hget
      subst this
      simp [hdash, isUpper]
    · rename_i hdash
      rw [if_neg hdash]
      split
      · exact (hhex u ‹_› hget).1
      · exact hget

theorem isUuid_elem {t : Text} (h : isUuid t = true) :
    ∀ u ∈ t, u = 45 ∨ isHexDigit u = true := by
  simp only [isUuid, Bool.and_eq_true, decide_eq_true_eq, List.all_eq_true, List.mem_range] at h
  intro u hu
  obtain ⟨i, hi, rfl⟩ := List.mem_iff_getElem.mp hu
  have hget := h.2 i (h.1 ▸ hi)
  rw [List.getElem?_eq_getElem hi] at hget
  simp only at hget
  split at hget
  · exact .inl (by simpa using hget)
  · exact .inr hget

theorem uuidText_uuidText {t : Text} (h : isUuid t = true) : uuidText (uuidText t) = uuidText t := by
  simp only [uuidText, List.map_map]
  refine List.map_congr_left fun u hu => ?_
  simp only [Function.comp_apply]
  by_cases hup : isUpper u = true
  · have hx : isHexDigit u = true := by
      rcases isUuid_elem h u hu with rfl | hx
      · cases hup
      · exact hx
    have hadd : isUpper (u + 32) = false := by
      simp only [isUpper, isHexDigit, isDigit, Bool.and_eq_true, Bool.or_eq_true,
        decide_eq_true_eq] at hup hx
      have hval : (u + 32).toNat = u.toNat + 32 := by
        simp only [UInt16.toNat_add]
        have : (32 : UInt16).toNat = 32 := rfl
        omega
      simp only [isUpper, hval, Bool.and_eq_false_iff, decide_eq_false_iff_not]
      omega
    rw [if_pos hup, if_neg (by simp [hadd])]
  · rw [if_neg hup, if_neg hup]

theorem isCanonicalUuid_iff {id : Text} :
    isCanonicalUuid id = true ↔ isUuid id = true ∧ uuidText id = id := by
  simp [isCanonicalUuid]

theorem isUuid_unit {t : Text} (h : isUuid t = true) :
    ∀ u ∈ t, u ≠ 0 ∧ isSurrogate u = false := by
  intro u hu
  have hval : 0 < u.toNat ∧ u.toNat < 256 := by
    rcases isUuid_elem h u hu with rfl | hx
    · decide
    · simp only [isHexDigit, isDigit, Bool.and_eq_true, Bool.or_eq_true, decide_eq_true_eq] at hx
      omega
  refine ⟨?_, ?_⟩
  · rintro rfl
    exact absurd hval.1 (by decide)
  · simp only [isSurrogate, Bool.and_eq_false_iff, decide_eq_false_iff_not]
    omega

/-- A UUID is plain text. -/
theorem isUuid_plain {t : Text} (h : isUuid t = true) :
    hasNul t = false ∧ stored t = t ∧ t.length = 36 := by
  refine ⟨?_, stored_of_plain fun u hu => (isUuid_unit h u hu).2, ?_⟩
  · rw [hasNul, List.any_eq_false]
    intro u hu
    simpa using (isUuid_unit h u hu).1
  · simp only [isUuid, Bool.and_eq_true, decide_eq_true_eq] at h
    exact h.1

/-! ## Valid rows -/

variable [Platform]

/-- A wallet row that passes its own rules and is kept as it is. -/
structure WalletRow.Valid (row : WalletRow) : Prop where
  rules : ∀ rule ∈ walletRules row, rule.holds = true
  stored : row.stored = row
  uuid : isCanonicalUuid row.id = true
  isoCurrency : isIsoCurrency row.currency = true

/-- A transaction row that passes its own rules and is kept as it is.  Only an
OPENING belongs to the internal provider. -/
structure WagerTransactionRow.Valid (row : WagerTransactionRow) : Prop where
  columns : ∀ rule ∈ wagerColumnRules row, rule.holds = true
  checks : ∀ rule ∈ wagerCheckRules row, rule.holds = true
  stored : row.stored = row
  attempts : row.attempts ≤ 100
  uuid : isCanonicalUuid row.id = true
  isoCurrency : isIsoCurrency row.currency = true
  resultCurrency : ∀ c ∈ row.resultBalanceCurrency, isIsoCurrency c = true
  internal : row.providerId = internalProviderId → row.kind = .opening ∧
    row.idempotencyKey = (openingIdentity row.walletId).idempotencyKey ∧
    row.externalTransactionId = (openingIdentity row.walletId).externalTransactionId

theorem WalletRow.Valid.canonical {row : WalletRow} (h : row.Valid) : isUuid row.id = true :=
  (isCanonicalUuid_iff.mp h.uuid).1

theorem WagerTransactionRow.Valid.canonical {row : WagerTransactionRow} (h : row.Valid) :
    isUuid row.id = true :=
  (isCanonicalUuid_iff.mp h.uuid).1

/-- A valid wallet row can be read, and writing what was read gives it back. -/
theorem WalletRow.Valid.load {row : WalletRow} (h : row.Valid) :
    ∃ w : Wallet, toWallet row = .ok w ∧ toWalletRow w = row ∧ w.Storable := by
  obtain ⟨hrange, hnonneg⟩ : row.balance.natAbs ≤ maxAbsolute ∧ 0 ≤ row.balance := by
    have hrules := h.rules
    simp only [walletRules, List.forall_mem_cons] at hrules
    obtain ⟨-, -, -, hrange, -, -, -, hnonneg, -⟩ := hrules
    exact ⟨by simpa [moneyRule] using hrange, by simpa [check] using hnonneg⟩
  let balance : Money := ⟨row.balance, row.currency, hrange, h.isoCurrency⟩
  let w : Wallet :=
    { id := row.id, playerId := row.playerId, currency := row.currency, balance,
      version := row.version, createdAt := row.createdAt, updatedAt := row.updatedAt }
  have hw : w.Storable := ⟨rfl, hnonneg⟩
  have hrow : toWalletRow w = row := rfl
  exact ⟨w, hrow ▸ toWallet_toWalletRow hw, hrow, hw⟩

/-- The row of a wallet whose currency the runtime knows is read. -/
theorem toWallet_of_rules {row : WalletRow}
    (hrules : ∀ rule ∈ walletRules row, rule.holds = true) (hiso : isIsoCurrency row.currency = true) :
    ∃ w, toWallet row = .ok w ∧ w.id = row.id ∧ w.currency = row.currency ∧
      w.balance.cents = row.balance ∧ w.balance.currency = row.currency := by
  simp only [walletRules, List.forall_mem_cons] at hrules
  obtain ⟨-, -, -, hrange, -, -, -, hnonneg, -⟩ := hrules
  simp only [moneyRule, check, decide_eq_true_eq] at hrange hnonneg
  have hmoney : moneyColumn row.balance row.currency = .ok ⟨row.balance, row.currency, hrange, hiso⟩ :=
    Money.from_toFixed hnonneg hrange hiso
  exact ⟨_, by rw [toWallet, hmoney]; rfl, rfl, rfl, rfl, rfl⟩

/-- The amounts of a valid transaction row. -/
theorem WagerTransactionRow.Valid.amounts {row : WagerTransactionRow} (h : row.Valid) :
    0 < row.amount ∧ row.amount.natAbs ≤ maxAbsolute ∧
      (∀ a ∈ row.resultBalanceAmount, 0 ≤ a ∧ a.natAbs ≤ maxAbsolute) ∧
      row.resultBalanceAmount.isNone = row.resultBalanceCurrency.isNone := by
  have hcolumns := h.columns
  have hchecks := h.checks
  simp only [wagerColumnRules, wagerCheckRules, List.forall_mem_cons] at hcolumns hchecks
  obtain ⟨-, -, -, -, -, -, -, -, -, -, -, -, -, -, -, -, hamount, -, -, hresult, -⟩ := hcolumns
  obtain ⟨hpos, -, -, -, -, -, -, hpair, hnonneg, -⟩ := hchecks
  simp only [check, moneyRule, decide_eq_true_eq, Option.all_eq_true] at hpos hamount hpair hnonneg
  refine ⟨hpos, hamount, fun a ha => ⟨by simpa using hnonneg a ha, ?_⟩, hpair⟩
  rw [Option.mem_def.mp ha] at hresult
  simpa [optional, moneyRule] using hresult

/-- A valid transaction row can be read, and writing what was read gives it back. -/
theorem WagerTransactionRow.Valid.load {row : WagerTransactionRow} (h : row.Valid) :
    ∃ t : WagerTransaction, toWagerTransaction row = .ok t ∧ toWagerTransactionRow t = row ∧
      t.Storable := by
  obtain ⟨hpos, hrange, hresult, hpair⟩ := h.amounts
  have hcurrency := h.resultCurrency
  let money : Money := ⟨row.amount, row.currency, hrange, h.isoCurrency⟩
  obtain ⟨balance, hamount, hcur, hbal⟩ : ∃ balance : Option Money,
      balance.map Money.cents = row.resultBalanceAmount ∧
      balance.map Money.currency = row.resultBalanceCurrency ∧
      ∀ m, balance = some m → 0 ≤ m.cents := by
    cases ha : row.resultBalanceAmount with
    | none =>
      cases hc : row.resultBalanceCurrency with
      | none => exact ⟨none, rfl, rfl, fun m hm => by cases hm⟩
      | some c => rw [ha, hc] at hpair; cases hpair
    | some a =>
      cases hc : row.resultBalanceCurrency with
      | none => rw [ha, hc] at hpair; cases hpair
      | some c =>
        have ha' := hresult a ha
        exact ⟨some ⟨a, c, ha'.2, hcurrency c hc⟩, rfl, rfl, fun m hm => by cases hm; exact ha'.1⟩
  let t : WagerTransaction :=
    { id := row.id
      providerId := row.providerId
      externalTransactionId := row.externalTransactionId
      idempotencyKey := row.idempotencyKey
      payloadHash := row.payloadHash
      walletId := row.walletId
      playerId := row.playerId
      roundId := row.roundId
      gameId := row.gameId
      kind := row.kind
      money
      referenceExternalTransactionId := row.referenceExternalTransactionId
      correlationId := row.correlationId
      createdAt := row.createdAt
      status := row.status
      referenceTransactionId := row.referenceTransactionId
      failureCode := row.failureCode
      resultBalance := balance
      attempts := row.attempts
      nextAttemptAt := row.nextAttemptAt
      expiresAt := row.expiresAt
      processedAt := row.processedAt }
  have ht : t.Storable := ⟨hpos, hbal⟩
  have hrow : toWagerTransactionRow t = row := by
    simp only [toWagerTransactionRow, t, money, hamount, hcur]
  exact ⟨t, hrow ▸ toWagerTransaction_toWagerTransactionRow ht, hrow, ht⟩

end Wagering
