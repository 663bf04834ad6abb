import Wagering.Accounting.Record

/-!
# Changing the books

A unit of work may open a wallet, record a decision, do both or do nothing.
Whatever it does, most of the books stay: this module says what, for the other
units that run meanwhile.
-/

namespace Wagering

namespace Books

variable {b : Books} {c : Change} {d : Decision}

/-- What a change leaves of the books, and what it adds. -/
structure Amends (b b' : Books) (c : Change) : Prop where
  walletSame : ∀ w ∈ b.wallets, ∃ w' ∈ b'.wallets, SameWallet w w'
  walletKept : ∀ w ∈ b.wallets, w ∈ b'.wallets ∨ ∃ w' ∈ c.wallets, w' ∈ b'.wallets ∧ w'.id = w.id
  walletNew : ∀ w ∈ b'.wallets, w ∈ b.wallets ∨ w ∈ c.wallets
  wagerSame : ∀ t ∈ b.wagers, ∃ t' ∈ b'.wagers,
    SameIdentity t t' ∧ t.expiresAt = t'.expiresAt ∧ t.StillWaits t'
  wagerKept : ∀ t ∈ b.wagers, t ∈ b'.wagers ∨
    ∃ d ∈ c.decision, d.tx ∈ b'.wagers ∧ d.tx.id = t.id
  wagerNew : ∀ t ∈ b'.wagers, t ∈ b.wagers ∨ ∃ d ∈ c.decision, t = d.tx
  terminal : ∀ t ∈ b.wagers, t.status.isTerminal = true → t ∈ b'.wagers
  opened : ∀ w ∈ b.wallets, b'.opened w.id = b.opened w.id
  ledger : b.ledger <+: b'.ledger
  events : b.events <+: b'.events

theorem mem_withWallet {opened : Option WalletRow} {w : WalletRow} :
    w ∈ (b.withWallet opened).wallets ↔ w ∈ b.wallets ∨ w ∈ opened := by
  cases opened with
  | none => simp [Books.withWallet]
  | some v => simp [Books.withWallet, Books.openWallet, eq_comm]

theorem withWallet_eq (opened : Option WalletRow) :
    (b.withWallet opened).wagers = b.wagers ∧ (b.withWallet opened).ledger = b.ledger ∧
      (b.withWallet opened).events = b.events := by
  cases opened <;> exact ⟨rfl, rfl, rfl⟩

variable [Platform]

theorem Decides.wager_same (hd : b.Decides d) (hc : b.Consistent) {t : WagerTransactionRow}
    (ht : t ∈ b.wagers) :
    ∃ t' ∈ (b.record d).wagers,
      SameIdentity t t' ∧ t.expiresAt = t'.expiresAt ∧ t.StillWaits t' := by
  by_cases hid : t.id = d.tx.id
  · rcases hd.prior with ⟨fresh, -⟩ | ⟨p, hp, -, same, hexp⟩
    · exact absurd hid (fresh t ht)
    · rw [hc.eq_of_id ht hp (hid.trans same.id.symm)]
      refine ⟨d.tx, mem_wagers_record.mpr (.inl rfl), same, hexp, fun hwaits => ?_⟩
      rcases hd.counted with ⟨fresh, -⟩ | ⟨q, hq, hqid, -, hcounts⟩
      · exact absurd same.id (fresh p hp)
      · rw [if_pos hwaits] at hcounts
        rw [hc.eq_of_id hp hq (same.id.trans hqid.symm)]
        exact hcounts.trans (congrArg (fun n => { q with
          attempts := n, nextAttemptAt := d.tx.nextAttemptAt })
          (congrArg WagerTransactionRow.attempts hcounts).symm)
  · exact ⟨t, mem_wagers_record.mpr (.inr ⟨ht, hid⟩), .refl t, rfl, .refl t⟩

theorem Consistent.withWallet (hc : b.Consistent) (hallows : b.Allows c) :
    (b.withWallet c.opened).Consistent := by
  cases ho : c.opened with
  | none => exact hc
  | some w =>
    obtain ⟨hbalance, hversion, hiso⟩ := hallows.empty w ho
    exact hc.openWallet (hallows.fresh w ho) hbalance hversion hiso

theorem Consistent.amend (hc : b.Consistent) (hallows : b.Allows c) :
    (b.amend c).Consistent := by
  have hw := hc.withWallet hallows
  unfold Books.amend
  cases hd : c.decision with
  | none => exact hw
  | some d => exact hw.record (hallows.decides d hd)

theorem Allows.amends (hallows : b.Allows c) (hc : b.Consistent) : Amends b (b.amend c) c := by
  have hw := hc.withWallet hallows
  obtain ⟨hwagers, hledger, hevents⟩ := b.withWallet_eq c.opened
  unfold Books.amend
  cases hdec : c.decision with
  | none =>
    exact
      { walletSame := fun w hw => ⟨w, mem_withWallet.mpr (.inl hw), .refl w⟩
        walletKept := fun w hw => .inl (mem_withWallet.mpr (.inl hw))
        walletNew := fun w hw => (mem_withWallet.mp hw).imp_right fun ho => by
          simp [Change.wallets, Option.mem_def.mp ho]
        wagerSame := fun t ht => ⟨t, hwagers ▸ ht, .refl t, rfl, .refl t⟩
        wagerKept := fun t ht => .inl (hwagers ▸ ht)
        wagerNew := fun t ht => .inl (hwagers ▸ ht)
        terminal := fun t ht _ => hwagers ▸ ht
        opened := fun w _ => by rw [opened, hwagers]; rfl
        ledger := hledger ▸ List.prefix_refl _
        events := hevents ▸ List.prefix_refl _ }
  | some d =>
    have hd := hallows.decides d hdec
    refine
      { walletSame := fun w hw' => hd.wallet_same (mem_withWallet.mpr (.inl hw')) hw
        walletKept := fun w hw' => ?walletKept
        walletNew := fun w hw' => ?walletNew
        wagerSame := fun t ht => hd.wager_same hw (hwagers ▸ ht)
        wagerKept := fun t ht => ?wagerKept
        wagerNew := fun t ht => ?wagerNew
        terminal := fun t ht hterm => hd.mem_of_terminal hw (hwagers ▸ ht) hterm
        opened := fun w hw' => ?opened
        ledger := hledger ▸ List.prefix_append _ _
        events := hevents ▸ List.prefix_append _ _ }
    case walletKept =>
      have hmem : w ∈ (b.withWallet c.opened).wallets := mem_withWallet.mpr (.inl hw')
      cases hm : d.movement with
      | none => exact .inl (by simpa [Books.record, hm] using hmem)
      | some move =>
        by_cases hid : w.id = move.2.id
        · exact .inr ⟨move.2, by simp [Change.wallets, hdec, hm],
            by simp [Books.record, hm, Keyed.mem_put], hid.symm⟩
        · exact .inl (by simp [Books.record, hm, Keyed.mem_put, hmem, hid])
    case walletNew =>
      have hold : w ∈ (b.withWallet c.opened).wallets → w ∈ b.wallets ∨ w ∈ c.wallets :=
        fun h => (mem_withWallet.mp h).imp_right fun ho => by
          simp [Change.wallets, Option.mem_def.mp ho]
      cases hm : d.movement with
      | none => exact hold (by simpa [Books.record, hm] using hw')
      | some move =>
        have : w = move.2 ∨ (w ∈ (b.withWallet c.opened).wallets ∧ w.id ≠ move.2.id) := by
          simpa [Books.record, hm, Keyed.mem_put] using hw'
        rcases this with rfl | ⟨h, -⟩
        · exact .inr (by simp [Change.wallets, hdec, hm])
        · exact hold h
    case opened =>
      have hold : (b.withWallet c.opened).opened w.id = b.opened w.id := by
        rw [opened, hwagers]
        rfl
      have hnew : (d.tx.kind = .opening && d.tx.walletId = w.id) = false := by
        by_contra hne
        simp only [Bool.not_eq_false, Bool.and_eq_true, decide_eq_true_eq] at hne
        obtain ⟨v, hv, hvid⟩ := hallows.opening d hdec hne.1
        exact hallows.fresh v hv w hw' (hne.2.symm.trans hvid.symm)
      rw [hd.opened_record hw, hold, hnew, Bool.or_false]
    case wagerKept =>
      by_cases hid : t.id = d.tx.id
      · exact .inr ⟨d, hdec, mem_wagers_record.mpr (.inl rfl), hid.symm⟩
      · exact .inl (mem_wagers_record.mpr (.inr ⟨hwagers ▸ ht, hid⟩))
    case wagerNew =>
      rcases mem_wagers_record.mp ht with rfl | ⟨ht, -⟩
      · exact .inr ⟨d, hdec, rfl⟩
      · exact .inl (hwagers ▸ ht)

end Books

end Wagering
