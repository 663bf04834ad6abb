import Wagering.Correctness.Retrying
import Wagering.Isolation.LockOrder

/-!
# The clock in a unit of work

What a unit of work may write of a reversal that waits, by the clock that it
read, the jitter that it drew and the reference that it saw: a submission lets
its own reversal wait from its reading on, and the worker leaves of the reversal
that it found due what a run may leave of it.
-/

namespace Wagering

open Interleave

variable [Platform]

/-- What a unit of work has seen: the clock, the jitter, the transaction that it
inserted, the reversal that it found due and what it read of references since. -/
structure TimeState : Type where
  readings : List Instant
  jitter : Nat
  inserted : Option Text
  due : Option WagerTransaction
  found : List (Option WagerTransaction)
  updated : Bool

namespace TimeState

/-- What a unit of work may write of a transaction. -/
def Writes (s : TimeState) (t : WagerTransaction) : Prop :=
  match s.due with
  | none => t.status = .pendingReference ∨ t.status = .rejected →
      s.inserted = some t.id ∧ (t.status = .pendingReference → ∃ now ∈ s.readings,
        t.nextAttemptAt = some (now + firstRetryDelayMs) ∧
          t.expiresAt = some (now + pendingReferenceTtlMs))
  | some pending => t.id = pending.id ∧ s.updated = false ∧ ∃ run : PendingRun ℚ,
      s.readings = [run.now] ∧ run.jitter = s.jitter / 2 ^ 53 ∧ run.reference ∈ s.found ∧
        run.Leads pending t

/-- The calls that keep to the clock. -/
def Allows (s : TimeState) : Op → Prop
  | .now | .reserve _ => s.due = none
  | .lockDuePendingReference now => s = ⟨[now], 0, none, none, [], false⟩
  | .findByExternalId providerId externalTransactionId => ∀ pending ∈ s.due,
      s.updated = false ∧ providerId = pending.providerId ∧
        externalTransactionId = pending.referenceExternalTransactionId.getD []
  | .updateWager t => s.Writes t
  | _ => True

/-- What a call adds. -/
def next (s : TimeState) : (op : Op) → op.Answer → TimeState
  | .now, at_ => { s with readings := at_ :: s.readings }
  | .jitter, numerator => { s with jitter := numerator }
  | .reserve _, some t => { s with inserted := some t.id }
  | .lockDuePendingReference _, some t => { s with due := some t }
  | .findByExternalId _ _, reference => { s with found := reference :: s.found }
  | .updateWager _, _ => { s with updated := true }
  | _, _ => s

end TimeState

/-- The clock, as a typestate. -/
abbrev timekeeping : Typestate ports where
  State := TimeState
  start := ⟨[], 0, none, none, [], false⟩
  Allows := TimeState.Allows
  next := TimeState.next

/-- The reference of a pending reversal is settled in the committed state. -/
def ReferenceSettled (sh : Shared) (pending : WagerTransactionRow) : Prop :=
  ∃ r ∈ sh.db.wagers, r.status.isTerminal = true ∧
    r.providerId = Text.stored pending.providerId ∧
    r.externalTransactionId = Text.stored (pending.referenceExternalTransactionId.getD [])

/-- A row that the transaction has written keeps to the clock. -/
def Clocked (l : Local) (s : TimeState) (row : WagerTransactionRow) : Prop :=
  match s.due with
  | none => row.status = .pendingReference ∨ row.status = .rejected →
      .wagerId row.id ∈ l.keys ∧ (row.status = .pendingReference → ∃ now ∈ l.readings,
        row.nextAttemptAt = some (now + firstRetryDelayMs) ∧
          row.expiresAt = some (now + pendingReferenceTtlMs))
  | some pending => row.id = pending.id ∧ ∃ (run : PendingRun ℚ) (t : WagerTransaction),
      s.readings = [run.now] ∧ (0 ≤ run.jitter ∧ run.jitter < 1) ∧ run.reference ∈ s.found ∧
        run.Leads pending t ∧ ∃ old, row = (toWagerTransactionRow t).set old

/-- What the typestate says of the open transaction and of the committed state. -/
structure Timed (sh : Shared) (l : Local) (s : TimeState) : Prop where
  readings : l.readings = s.readings
  jitter : s.jitter < 2 ^ 53
  keys : ∀ id ∈ s.inserted, .wagerId id ∈ l.keys
  inserted : ∀ row, .insertWager row ∈ l.log → row.status = .pending ∧ s.inserted.isSome
  updated : s.updated = false → ∀ row, .updateWager row ∉ l.log
  due : ∀ pending ∈ s.due, s.inserted = none ∧ pending.id ∈ l.wagers ∧
    toWagerTransactionRow pending ∈ sh.db.wagers ∧
    ∀ now ∈ s.readings, isDue now (toWagerTransactionRow pending) = true
  found : ∀ pending ∈ s.due, ∀ reference, some reference ∈ s.found →
    referenceIsSettled reference = true → ReferenceSettled sh (toWagerTransactionRow pending)
  log : ∀ row, .updateWager row ∈ l.log → Clocked l s row

/-! ## What a call keeps -/

variable {sh sh' : Shared} {others : List Local} {l l' : Local} {s : TimeState}

theorem timed_start (sh : Shared) : Timed sh .start ⟨[], 0, none, none, [], false⟩ where
  readings := rfl
  jitter := Nat.two_pow_pos 53
  keys := fun id h => by cases h
  inserted := fun row h => by cases h
  updated := fun _ row h => by cases h
  due := fun pending h => by cases h
  found := fun pending h => by cases h
  log := fun row h => by cases h

/-- Nobody else touches the reversal that is locked, or takes back a result. -/
theorem Timed.rely (h : Timed sh l s) (hr : Rely l sh sh') : Timed sh' l s :=
  { h with
    due := fun pending hdue => by
      obtain ⟨hinserted, hlock, hmem, hreadings⟩ := h.due pending hdue
      exact ⟨hinserted, hlock, (hr.lockedWagers _ hlock).mpr hmem, hreadings⟩
    found := fun pending hdue reference hfound hsettled => by
      obtain ⟨r, hr', hterminal, hkey⟩ := h.found pending hdue reference hfound hsettled
      exact ⟨r, hr.terminal r hr' hterminal, hterminal, hkey⟩ }

theorem Clocked.mono {row : WagerTransactionRow} (h : Clocked l s row)
    (hkeys : ∀ k ∈ l.keys, k ∈ l'.keys) (hreadings : ∀ at_ ∈ l.readings, at_ ∈ l'.readings) :
    Clocked l' s row := by
  unfold Clocked at h ⊢
  split at h
  · intro hstatus
    obtain ⟨hkey, hpended⟩ := h hstatus
    refine ⟨hkeys _ hkey, fun hwaits => ?_⟩
    obtain ⟨now, hnow, htimes⟩ := hpended hwaits
    exact ⟨now, hreadings now hnow, htimes⟩
  · exact h

/-- A statement about another table. -/
theorem Timed.push (h : Timed sh l s) {write : Write}
    (hinsert : ∀ row, write ≠ .insertWager row) (hupdate : ∀ row, write ≠ .updateWager row) :
    Timed sh (l.push write) s where
  readings := h.readings
  jitter := h.jitter
  keys := fun id hid => by
    rw [Local.push_keys]
    exact List.mem_append_left _ (h.keys id hid)
  inserted := fun row hrow => by
    rcases List.mem_append.mp hrow with hrow | hrow
    · exact h.inserted row hrow
    · exact absurd (List.mem_singleton.mp hrow).symm (hinsert row)
  updated := fun hs row hrow => by
    rcases List.mem_append.mp hrow with hrow | hrow
    · exact h.updated hs row hrow
    · exact absurd (List.mem_singleton.mp hrow).symm (hupdate row)
  due := h.due
  found := h.found
  log := fun row hrow => by
    rcases List.mem_append.mp hrow with hrow | hrow
    · refine (h.log row hrow).mono (fun k hk => ?_) fun _ hat => hat
      rw [Local.push_keys]
      exact List.mem_append_left _ hk
    · exact absurd (List.mem_singleton.mp hrow).symm (hupdate row)

/-- A transaction that is read while the worker has written nothing is committed. -/
theorem Timed.view (h : Timed sh l s) (hinserted : s.inserted = none) (hupdated : s.updated = false)
    {row : WagerTransactionRow} (hrow : row ∈ (l.view sh.db).wagers) : row ∈ sh.db.wagers := by
  rcases mem_wagers_after hrow with hold | hnew | ⟨new, old, hnew, -⟩
  · exact hold
  · have hsome := (h.inserted row hnew).2
    rw [hinserted] at hsome
    cases hsome
  · exact absurd hnew (h.updated hupdated new)

/-- The insertion of the unit's own transaction. -/
theorem Timed.reserved (h : Timed sh l s) (hdue : s.due = none) {row : WagerTransactionRow}
    (hstatus : row.status = .pending) :
    Timed sh (l.push (.insertWager row)) { s with inserted := some row.id } where
  readings := h.readings
  jitter := h.jitter
  keys := fun id hid => by
    cases hid
    rw [Local.push_keys]
    exact List.mem_append_right _ (by simp [Write.uniqueKeys, WagerTransactionRow.uniqueKeys])
  inserted := fun row' hrow => by
    rcases List.mem_append.mp hrow with hrow | hrow
    · exact ⟨(h.inserted row' hrow).1, rfl⟩
    · cases List.mem_singleton.mp hrow
      exact ⟨hstatus, rfl⟩
  updated := fun hs row' hrow => by
    rcases List.mem_append.mp hrow with hrow | hrow
    · exact h.updated hs row' hrow
    · cases List.mem_singleton.mp hrow
  due := fun pending hpending => by
    have : s.due = some pending := hpending
    rw [hdue] at this
    cases this
  found := h.found
  log := fun row' hrow => by
    rcases List.mem_append.mp hrow with hrow | hrow
    · refine (h.log row' hrow).mono (fun k hk => ?_) fun _ hat => hat
      rw [Local.push_keys]
      exact List.mem_append_left _ hk
    · cases List.mem_singleton.mp hrow

/-- What the transaction may write of its reversal keeps to the clock. -/
theorem Timed.timely (h : Timed sh l s) {t : WagerTransaction} (hwrites : s.Writes t)
    {old : WagerTransactionRow} (hid : old.id = t.id) :
    Clocked l s ((toWagerTransactionRow t).set old) := by
  unfold TimeState.Writes at hwrites
  unfold Clocked
  split at hwrites
  · intro hstatus
    obtain ⟨hinserted, hpended⟩ := hwrites hstatus
    refine ⟨hid ▸ h.keys _ hinserted, fun hwaits => ?_⟩
    obtain ⟨now, hnow, htimes⟩ := hpended hwaits
    exact ⟨now, h.readings ▸ hnow, htimes⟩
  · obtain ⟨hpending, -, run, hreadings, hjitter, hfound, hleads⟩ := hwrites
    have hpow : (0 : ℚ) < 2 ^ 53 := by positivity
    have hbelow : (s.jitter : ℚ) < 2 ^ 53 := by exact_mod_cast h.jitter
    refine ⟨hid.trans hpending, run, t, hreadings, ?_, hfound, hleads, old, rfl⟩
    rw [hjitter]
    exact ⟨by positivity, (div_lt_one hpow).mpr hbelow⟩

/-- The statement that writes what becomes of a transaction. -/
theorem Timed.write (h : Timed sh l s) {t : WagerTransaction} (hwrites : s.Writes t)
    {old : WagerTransactionRow} (hid : old.id = t.id) :
    Timed sh (l.push (.updateWager ((toWagerTransactionRow t).set old)))
      { s with updated := true } where
  readings := h.readings
  jitter := h.jitter
  keys := fun id hid => by
    rw [Local.push_keys]
    exact List.mem_append_left _ (h.keys id hid)
  inserted := fun row hrow => by
    rcases List.mem_append.mp hrow with hrow | hrow
    · exact h.inserted row hrow
    · cases List.mem_singleton.mp hrow
  updated := fun hs => by cases hs
  due := h.due
  found := h.found
  log := fun row hrow => by
    have htimely : Clocked l s row := by
      rcases List.mem_append.mp hrow with hrow | hrow
      · exact h.log row hrow
      · rw [Write.updateWager.inj (List.mem_singleton.mp hrow)]
        exact h.timely hwrites hid
    refine @Clocked.mono _ l _ s row htimely (fun k hk => ?_) fun _ hat => hat
    rw [Local.push_keys]
    exact List.mem_append_left _ hk

/-- The reversal that the worker locks, and its reference from then on. -/
theorem Timed.lockedDue {now : Instant} (h : Timed sh l ⟨[now], 0, none, none, [], false⟩)
    (hs : Sound sh) {row : WagerTransactionRow} {t : WagerTransaction}
    (hrow : row ∈ (l.view sh.db).wagers) (hdue : isDue now row = true)
    (ht : toWagerTransaction row = .ok t) :
    Timed sh { l with wagers := row.id :: l.wagers } ⟨[now], 0, none, some t, [], false⟩ := by
  have hmem := h.view rfl rfl hrow
  obtain ⟨t', ht', hstored, -⟩ := (hs.wagers row hmem).load
  cases ht.symm.trans ht'
  refine
    { h with
      due := fun pending hpending => ?_
      found := fun pending _ reference hfound => by cases hfound
      log := fun row' hrow' => absurd hrow' (h.updated rfl row') }
  cases hpending
  refine ⟨rfl, ?_, hstored ▸ hmem, fun at_ hat => ?_⟩
  · rw [show t.id = row.id from congrArg WagerTransactionRow.id hstored]
    exact List.mem_cons_self
  · rw [hstored, List.mem_singleton.mp hat]
    exact hdue

/-- A reference that was read. -/
theorem Timed.read (h : Timed sh l s) (hs : Sound sh) {providerId external : Text}
    (hallows : ∀ pending ∈ s.due, s.updated = false ∧ providerId = pending.providerId ∧
      external = pending.referenceExternalTransactionId.getD [])
    {reference : Option WagerTransaction}
    (href : ∀ t ∈ reference, ∃ row, (l.view sh.db).wagerByExternal providerId external = some row ∧
      toWagerTransaction row = .ok t) :
    Timed sh l { s with found := reference :: s.found } :=
  { h with
    found := fun pending hpending r hr hsettled => by
      obtain ⟨hupdated, rfl, rfl⟩ := hallows pending hpending
      obtain ⟨hinserted, -⟩ := h.due pending hpending
      rcases List.mem_cons.mp hr with heq | hr
      · obtain ⟨row, hlookup, ht⟩ := href r heq.symm
        have hmem := h.view hinserted hupdated (Keyed.mem_of_lookup hlookup)
        obtain ⟨t', ht', hstored, -⟩ := (hs.wagers row hmem).load
        cases ht.symm.trans ht'
        have hkey := Keyed.key_of_lookup hlookup
        exact ⟨row, hmem, hstored ▸ hsettled, congrArg Prod.fst hkey, congrArg Prod.snd hkey⟩
      · exact h.found pending hpending r hr hsettled
    log := fun row hrow => by
      have htimely := h.log row hrow
      unfold Clocked at htimely ⊢
      split at htimely
      · rename_i hdue
        simp only [hdue]
        exact htimely
      · rename_i pending hdue
        obtain ⟨hid, run, t, hreadings, hjitter, hfound, hwritten⟩ := htimely
        simp only [hdue]
        exact ⟨hid, run, t, hreadings, hjitter, List.mem_cons_of_mem _ hfound, hwritten⟩ }

/-- Every call that keeps to the clock keeps the tie. -/
theorem exec_timed (h : Timed sh l s) (hs : Sound sh) {op : Op} {input : Input} {a : op.Answer}
    (hallows : s.Allows op) (hop : exec sh others l op input = some (sh', .ok (a, l'))) :
    Timed sh' l' (s.next op a) := by
  cases input with
  | instant at_ =>
    cases op
    case now =>
      simp only [exec] at hop
      split at hop
      · cases hop
        have hdue : s.due = none := hallows
        refine
          { h with
            readings := congrArg (List.cons at_) h.readings
            due := fun pending hpending => ?_
            log := fun row hrow => ?_ }
        · rw [show s.due = some pending from hpending] at hdue
          cases hdue
        · have htimely : Clocked { l with readings := at_ :: l.readings } s row :=
            (h.log row hrow).mono (fun k hk => hk) fun r hr => List.mem_cons_of_mem at_ hr
          unfold Clocked at htimely ⊢
          simp only [hdue, TimeState.next] at htimely ⊢
          exact htimely
      · cases hop
    all_goals cases hop
  | identity id =>
    cases op
    case nextId =>
      simp only [exec] at hop
      split at hop
      · cases hop
        exact { h with }
      · cases hop
    all_goals cases hop
  | jitter numerator =>
    cases op
    case jitter =>
      simp only [exec] at hop
      split at hop
      · rename_i hbelow
        cases hop
        exact { h with jitter := hbelow }
      · cases hop
    all_goals cases hop
  | step =>
    cases op with
    | now => cases hop
    | nextId => cases hop
    | jitter => cases hop
    | attempt id =>
      cases hop
      exact { h with }
    | insertIfAbsent wallet =>
      obtain ⟨rfl, ⟨-, rfl⟩ | ⟨x, -, -, rfl⟩⟩ := insertOrIgnore_ok hop
      · exact { h with }
      · exact h.push (fun row => by simp) fun row => by simp
    | findByPlayerAndCurrency playerId currency =>
      obtain ⟨rfl, rfl, -⟩ := found_ok hop
      exact h
    | lockWallet id =>
      simp only [exec] at hop
      split at hop
      · cases hop
      · split at hop
        · cases hop
        · split at hop
          · cases hop
            exact h
          · obtain ⟨rfl, rfl, -⟩ := found_ok hop
            exact { h with }
    | updateWallet wallet =>
      obtain ⟨rfl, old, rfl⟩ := updateRow_ok hop
      exact h.push (fun row => by simp) fun row => by simp
    | reserve transaction =>
      simp only [exec] at hop
      split at hop
      · cases hop
      · rename_i hpending
        obtain ⟨rfl, ⟨rfl, rfl⟩ | ⟨t, ht, rfl, rfl⟩⟩ := insertOrIgnore_ok hop
        · exact { h with }
        · have hid : t.id = (toWagerTransactionRow transaction).stored.id :=
            (toWagerTransaction_ok ht).1
          have hstatus : (toWagerTransactionRow transaction).stored.status = .pending :=
            Decidable.not_not.mp hpending
          simp only [TimeState.next, hid]
          exact h.reserved hallows hstatus
    | findByIdempotencyKey providerId idempotencyKey =>
      obtain ⟨rfl, rfl, -⟩ := found_ok hop
      exact { h with }
    | findByExternalId providerId externalTransactionId =>
      obtain ⟨rfl, rfl, ⟨-, rfl⟩ | ⟨row, t, hrow, ht, rfl⟩⟩ := found_ok hop
      · exact h.read hs hallows fun t ht => by cases ht
      · exact h.read hs hallows fun t' ht' => by cases ht'; exact ⟨row, hrow, ht⟩
    | hasActiveReversal referenceTransactionId =>
      cases hop
      exact h
    | lockWager id =>
      simp only [exec] at hop
      split at hop
      · cases hop
      · split at hop
        · cases hop
          exact h
        · obtain ⟨rfl, rfl, -⟩ := found_ok hop
          exact
            { h with
              due := fun pending hpending => by
                obtain ⟨hinserted, hlock, hmem, hreadings⟩ := h.due pending hpending
                exact ⟨hinserted, List.mem_cons_of_mem _ hlock, hmem, hreadings⟩ }
    | lockDuePendingReference now =>
      cases hallows
      simp only [exec] at hop
      split at hop
      · cases hop
        exact h
      · rename_i row hrow
        obtain ⟨rfl, rfl, ⟨hnone, -⟩ | ⟨r, t, hr, ht, rfl⟩⟩ := found_ok hop
        · cases hnone
        · cases hr
          obtain ⟨hmem, hdue⟩ := List.mem_filter.mp (Keyed.least_mem hrow)
          exact h.lockedDue hs hmem (Bool.and_eq_true _ _ ▸ hdue).1 ht
    | updateWager transaction =>
      simp only [exec, updateRow] at hop
      split at hop
      · cases hop
      · split at hop
        · cases hop
        · rename_i old hold
          split at hop
          · cases hop
          · cases hop
            exact h.write hallows (Keyed.key_of_lookup hold)
    | insertLedger entry =>
      obtain ⟨rfl, rfl⟩ := insertPlain_ok hop
      exact h.push (fun row => by simp) fun row => by simp
    | reserveInbox message =>
      obtain ⟨rfl, ⟨-, rfl⟩ | ⟨x, -, -, rfl⟩⟩ := insertOrIgnore_ok hop
      · exact h
      · exact h.push (fun row => by simp) fun row => by simp
    | findInbox key =>
      obtain ⟨rfl, rfl, -⟩ := found_ok hop
      exact h
    | markInboxProcessed key processedAt =>
      obtain ⟨rfl, old, rfl⟩ := updateRow_ok hop
      exact h.push (fun row => by simp) fun row => by simp
    | enqueue events now =>
      simp only [exec] at hop
      split at hop
      · cases hop
        exact h
      · obtain ⟨rfl, rfl⟩ := insertPlain_ok hop
        exact h.push (fun row => by simp) fun row => by simp

end Wagering
