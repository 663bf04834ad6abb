import Wagering.Correctness.Applying

/-!
# Reserving a transaction

The row that `reserve` inserts is valid as soon as the schema takes it, whatever
its texts become in the columns, and from then on the transaction is in hand.
-/

namespace Wagering

open Interleave

variable {sh : Shared} {l : Local} {row : WagerTransactionRow}

/-! ## The row as the server keeps it -/

theorem optional_map {rule : Text → Rule} {value : Option Text}
    (h : (optional rule value).holds = true)
    (hstored : ∀ t, (rule t).holds = true → (rule (Text.stored t)).holds = true) :
    (optional rule (value.map Text.stored)).holds = true := by
  cases value with
  | none => rfl
  | some t => exact hstored t h

/-- Storing a row keeps every rule about its columns. -/
theorem stored_columns (h : ∀ rule ∈ wagerColumnRules row, rule.holds = true) :
    ∀ rule ∈ wagerColumnRules row.stored, rule.holds = true := by
  have htext : ∀ {column : String} {t : Text}, (textRule column t).holds = true →
      (textRule column (Text.stored t)).holds = true := by
    intro column t ht
    rwa [textRule, Text.hasNul_stored]
  have hlength : ∀ {column : String} {n : Nat} {t : Text}, (lengthRule column n t).holds = true →
      (lengthRule column n (Text.stored t)).holds = true := by
    intro column n t ht
    rwa [lengthRule, Text.characters_stored]
  simp only [wagerColumnRules, List.forall_mem_cons] at h ⊢
  obtain ⟨h1, h2, h3, h4, h5, h6, h7, h8, h9, h10, h11, h12, h13, h14, h15, h16, h17, h18, h19, h20,
    h21, h22, h23, h24, h25, h26, h27, h28⟩ := h
  exact ⟨htext h1, htext h2, htext h3, htext h4, htext h5, htext h6,
    optional_map h7 fun _ => htext, htext h8, uuidText_isUuid h9, hlength h10, hlength h11,
    hlength h12, h13, hlength h14, hlength h15, hlength h16, h17, h18,
    optional_map h19 fun _ => hlength, h20, h21, h22, h23, h24, hlength h25, h26, h27, h28⟩

theorem stored_checks (h : ∀ rule ∈ wagerCheckRules row, rule.holds = true) :
    ∀ rule ∈ wagerCheckRules row.stored, rule.holds = true := by
  have hsome : row.stored.referenceExternalTransactionId.isSome =
      row.referenceExternalTransactionId.isSome := by
    simp [WagerTransactionRow.stored]
  have hnone : row.stored.referenceExternalTransactionId.isNone =
      row.referenceExternalTransactionId.isNone := by
    simp [WagerTransactionRow.stored]
  simp only [wagerCheckRules, List.forall_mem_cons] at h ⊢
  rw [hsome, hnone]
  exact h

/-! ## In hand -/

/-- A key of the row that somebody holds is its idempotency key or its external
identifier: its id is new. -/
theorem reserve_conflict (hlog : businessOf l.log = []) (ho : Own sh l) (hid : row.id ∈ l.ids)
    (h : ∃ k ∈ row.uniqueKeys, k ∈ (l.view sh.db).uniqueKeys) :
    ∃ r ∈ sh.db.wagers,
      (r.providerId = row.providerId ∧ r.idempotencyKey = row.idempotencyKey) ∨
      (r.providerId = row.providerId ∧ r.externalTransactionId = row.externalTransactionId) := by
  obtain ⟨k, hk, hview⟩ := h
  have hdb : k ∈ sh.db.uniqueKeys := by
    rcases mem_uniqueKeys_view.mp hview with hdb | hkey
    · exact hdb
    · obtain ⟨key, rfl⟩ := inbox_of_mem_keys hlog hkey
      simp [WagerTransactionRow.uniqueKeys] at hk
  simp only [WagerTransactionRow.uniqueKeys, List.mem_cons, List.not_mem_nil, or_false] at hk
  rcases hk with rfl | rfl | rfl
  · exact absurd rfl ((ho.ids _ hid).2 _ hdb)
  · obtain ⟨r, hr, hp, hkey⟩ := wagerIdempotency_mem_iff.mp hdb
    exact ⟨r, hr, .inl ⟨hp, hkey⟩⟩
  · obtain ⟨r, hr, hp, hexternal⟩ := wagerExternal_mem_iff.mp hdb
    exact ⟨r, hr, .inr ⟨hp, hexternal⟩⟩

variable [Platform]

/-- The row of a transaction in its first state, once the schema has taken it. -/
theorem stored_valid {t : WagerTransaction} (hattempts : t.attempts = 0)
    (hbalance : t.resultBalance = none) (huuid : isCanonicalUuid t.id = true)
    (hrules : ∀ rule ∈ wagerColumnRules (toWagerTransactionRow t) ++
      wagerCheckRules (toWagerTransactionRow t), rule.holds = true)
    (hinternal : Text.stored t.providerId = internalProviderId →
      (toWagerTransactionRow t).stored.kind = .opening ∧
      (toWagerTransactionRow t).stored.idempotencyKey =
        (openingIdentity (toWagerTransactionRow t).stored.walletId).idempotencyKey ∧
      (toWagerTransactionRow t).stored.externalTransactionId =
        (openingIdentity (toWagerTransactionRow t).stored.walletId).externalTransactionId) :
    (toWagerTransactionRow t).stored.Valid := by
  rw [List.forall_mem_append] at hrules
  have hwallet : isUuid t.walletId = true := by
    have := hrules.1
    simp only [wagerColumnRules, List.forall_mem_cons] at this
    exact this.2.2.2.2.2.2.2.2.1
  refine
    { columns := stored_columns hrules.1
      checks := stored_checks hrules.2
      stored := ?_
      attempts := ?_
      uuid := huuid
      isoCurrency := t.money.isoCurrency
      resultCurrency := fun c hc => ?_
      internal := hinternal }
  · simp [WagerTransactionRow.stored, toWagerTransactionRow, uuidText_uuidText hwallet,
      Function.comp_def]
  · simp [WagerTransactionRow.stored, toWagerTransactionRow, hattempts]
  · simp [WagerTransactionRow.stored, toWagerTransactionRow, hbalance] at hc

/-- A transaction that was just reserved is in hand. -/
theorem inHand_reserved {t owned : WagerTransaction} (hlog : businessOf l.log = [])
    (hid : t.id ∈ l.ids) (hstatus : t.status = .pending) (hexpires : t.expiresAt = none)
    (hattempts : t.attempts = 0) (hreference : t.referenceTransactionId = none)
    (hkind : t.kind ≠ .opening)
    (hvalid : (toWagerTransactionRow t).stored.Valid)
    (hrow : toWagerTransactionRow owned = (toWagerTransactionRow t).stored)
    (hstorable : owned.Storable) :
    InHand owned sh (l.push (.insertWager (toWagerTransactionRow t).stored)) := by
  have hcolumn := fun {α : Type} (f : WagerTransactionRow → α) => congrArg f hrow
  refine
    { valid := hrow ▸ hvalid
      storable := hstorable
      unresolved := (hcolumn (·.referenceTransactionId)).trans hreference
      kind := fun h => hkind ((hcolumn (·.kind)).symm.trans h)
      ids := fun k hk id hkid => ?_
      held := .reserved ?_ ((hcolumn (·.status)).trans hstatus)
        ((hcolumn (·.expiresAt)).trans hexpires) ((hcolumn (·.attempts)).trans hattempts) }
  · rw [Local.push_keys] at hk
    rcases List.mem_append.mp hk with hk | hk
    · obtain ⟨key, rfl⟩ := inbox_of_mem_keys hlog hk
      cases hkid
    · simp only [Write.uniqueKeys, WagerTransactionRow.uniqueKeys, List.mem_cons, List.not_mem_nil,
        or_false] at hk
      rcases hk with rfl | rfl | rfl <;> cases hkid
      exact hid
  · change businessOf (l.log ++ [_]) = _
    rw [businessOf_append, hlog, hrow]
    rfl

end Wagering
