import Wagering.Isolation.Effect

/-!
# Statements that passed

A statement enters the log of a transaction only after the schema has taken
it, so every row that a log holds has passed the rules of its table.
-/

namespace Wagering

variable {sh sh' : Shared} {others : List Local} {l l' : Local}

/-- Every rule of the list lets the row pass. -/
def Passes (rules : List Rule) : Prop := ∀ rule ∈ rules, rule.holds = true

/-- The row of the statement has passed the rules of its table: for an INSERT as
the client sent it, for an UPDATE as it is afterwards. -/
def Write.Passed : Write → Prop
  | .insertWallet row => ∃ given : WalletRow, row = given.stored ∧ Passes (walletRules given)
  | .updateWallet row => Passes (walletRules row)
  | .insertWager row => ∃ given : WagerTransactionRow, row = given.stored ∧
      Passes (wagerColumnRules given ++ wagerCheckRules given)
  | .updateWager row => Passes (wagerColumnRules row ++ wagerCheckRules row)
  | .insertLedger row => Passes (ledgerRules row)
  | .insertInbox row => ∃ given : InboxMessageRow, row = given.stored ∧ Passes (inboxRules given)
  | .markInbox key processedAt => ∃ old : InboxMessageRow, old.key = key ∧
      Passes (inboxRules (old.mark processedAt))
  | .insertOutbox rows => ∀ m ∈ rows, Passes (outboxRules m) ∧ ∃ now event, m = toOutboxRow now event

/-- Every statement of the transaction has passed. -/
def Local.Checked (l : Local) : Prop := ∀ write ∈ l.log, write.Passed

theorem Local.Checked.push (h : l.Checked) {write : Write} (hwrite : write.Passed) :
    (l.push write).Checked := by
  intro write' hmem
  rcases List.mem_append.mp hmem with hmem | hmem
  · exact h write' hmem
  · exact List.mem_singleton.mp hmem ▸ hwrite

variable [Platform] {op : Op} {input : Input} {a : op.Answer}

/-- A call adds only a statement that passes. -/
theorem exec_checked (h : l.Checked)
    (hexec : exec sh others l op input = some (sh', .ok (a, l'))) : l'.Checked := by
  have hgrants : op ≠ .nextId → (exec sh others l op input).Grants sh Local.Checked := by
    intro hop
    cases input with
    | instant at_ =>
      cases op
      case now =>
        simp only [exec]
        split
        · exact Result.grants_answer h
        · exact Result.grants_none
      all_goals exact Result.grants_none
    | identity id =>
      cases op
      case nextId => exact absurd rfl hop
      all_goals exact Result.grants_none
    | jitter numerator =>
      cases op
      case jitter =>
        simp only [exec]
        split
        · exact Result.grants_answer h
        · exact Result.grants_none
      all_goals exact Result.grants_none
    | step =>
      cases op with
      | now => exact Result.grants_none
      | nextId => exact Result.grants_none
      | jitter => exact Result.grants_none
      | attempt id => exact Result.grants_answer h
      | insertIfAbsent wallet =>
        exact insertOrIgnore_grants h fun hrules _ _ =>
          h.push ⟨_, rfl, refusal_eq_none.mp hrules⟩
      | findByPlayerAndCurrency playerId currency => exact Result.grants_found h
      | lockWallet id =>
        simp only [exec]
        split
        · exact Result.grants_refuse
        · split
          · exact Result.grants_none
          · split
            · exact Result.grants_answer h
            · exact Result.grants_found h
      | updateWallet wallet =>
        exact updateRow_grants fun _ _ hrules => h.push (refusal_eq_none.mp hrules)
      | reserve transaction =>
        simp only [exec]
        split
        · exact Result.grants_refuse
        · exact insertOrIgnore_grants h fun hrules _ _ =>
            h.push ⟨_, rfl, refusal_eq_none.mp hrules⟩
      | findByIdempotencyKey providerId idempotencyKey => exact Result.grants_found h
      | findByExternalId providerId externalTransactionId => exact Result.grants_found h
      | hasActiveReversal referenceTransactionId => exact Result.grants_answer h
      | lockWager id =>
        simp only [exec]
        split
        · exact Result.grants_none
        · split
          · exact Result.grants_answer h
          · exact Result.grants_found h
      | lockDuePendingReference now =>
        simp only [exec]
        split
        · exact Result.grants_answer h
        · exact Result.grants_found h
      | updateWager transaction =>
        refine updateRow_grants fun old _ hrules => h.push ?_
        have hall := refusal_eq_none.mp hrules
        intro rule hrule
        refine hall rule ?_
        simp only [wagerUpdateRules, List.mem_append] at hrule ⊢
        exact hrule.elim (fun h => .inl (.inl (.inl h))) fun h => .inl (.inr h)
      | insertLedger entry =>
        exact insertPlain_grants fun hrules _ _ _ => h.push (refusal_eq_none.mp hrules)
      | reserveInbox message =>
        exact insertOrIgnore_grants h fun hrules _ _ =>
          h.push ⟨_, rfl, refusal_eq_none.mp hrules⟩
      | findInbox key => exact Result.grants_found h
      | markInboxProcessed key processedAt =>
        refine updateRow_grants fun old hold hrules => h.push ⟨old, Keyed.key_of_lookup hold, ?_⟩
        exact fun rule hrule =>
          refusal_eq_none.mp hrules rule (List.mem_cons_of_mem _ hrule)
      | enqueue events now =>
        simp only [exec]
        split
        · exact Result.grants_answer h
        · refine insertPlain_grants fun hrules _ _ _ => h.push fun m hm => ?_
          refine ⟨fun rule hrule => refusal_eq_none.mp hrules rule
            (List.mem_flatMap.mpr ⟨m, hm, hrule⟩), ?_⟩
          obtain ⟨event, -, rfl⟩ := List.mem_map.mp hm
          exact ⟨now, event, rfl⟩
  by_cases hop : op = .nextId
  · subst hop
    cases input with
    | identity id =>
      simp only [exec] at hexec
      split at hexec
      · cases hexec
        exact h
      · cases hexec
    | step => cases hexec
    | instant at_ => cases hexec
    | jitter numerator => cases hexec
  · exact (hgrants hop sh' _ hexec).2 a l' rfl

end Wagering
