import Wagering.Correctness.Ordering
import Wagering.Correctness.Service

/-!
# Waits and deadlocks

A session waits for another when its next call needs an entry or a row that the
other holds.  The stages of the locks rise along every chain of waits, except
where a unit locks a transaction that is settled already: the failure recorder
of the worker locks by identifier, whatever the status, and takes the wallet
while a reversal that has the wallet may need the key of the same transaction.
-/

namespace Wagering

open Interleave

section Statements

variable [Platform]

/-- Session `i` waits for session `j`. -/
def waitsFor (w : Service) (i j : Nat) : Bool :=
  match w.sessions[i]?, w.sessions[j]?.bind Session.local? with
  | some ⟨_, .running _ (.call op _) _⟩, some o => i ≠ j && op.awaits o
  | _, _ => false

/-- Some session waits, over others, for itself. -/
def Deadlocked (w : Service) : Prop :=
  ∃ i, Relation.TransGen (fun i j => waitsFor w i j = true) i i

/-! ## One wait -/

omit [Platform] in
/-- A key of a transaction that was inserted here carries an identifier of this unit. -/
theorem Tied.wagerKey {sh : Shared} {l : Local} {s : LockState} (h : Tied sh l s) {id : Text}
    (hk : .wagerId id ∈ l.keys) : id ∈ l.ids := by
  obtain ⟨write, hwrite, hk⟩ := List.mem_flatMap.mp hk
  cases write with
  | insertWager row =>
    obtain ⟨-, -, hid⟩ := h.inserted row hwrite
    simp only [Write.uniqueKeys, WagerTransactionRow.uniqueKeys, List.mem_cons,
      UniqueKey.wagerId.injEq, reduceCtorEq, List.not_mem_nil, or_false] at hk
    exact hk ▸ hid
  | insertWallet row => simp [Write.uniqueKeys, WalletRow.uniqueKeys] at hk
  | insertLedger row => simp [Write.uniqueKeys, WalletLedgerEntryRow.uniqueKeys] at hk
  | insertInbox row => simp [Write.uniqueKeys] at hk
  | insertOutbox rows => simp [Write.uniqueKeys, OutboxMessageRow.uniqueKeys] at hk
  | updateWallet row => cases hk
  | updateWager row => cases hk
  | markInbox key processedAt => cases hk

/-- Nobody waits for a transaction or a wallet of its own, or for a settled one. -/
theorem Tied.updates_free {sh : Shared} {l o : Local} {s t : LockState} (h : Tied sh l s)
    (ho : Tied sh o t) (hl : Own sh l) (hown : Own sh o) (hcompat : Compat l o) {op : Op}
    (hallows : s.Allows op) (hawaits : op.awaits o = true) :
    (∀ transaction, op ≠ .updateWager transaction) ∧ ∀ wallet, op ≠ .updateWallet wallet := by
  constructor
  · rintro transaction rfl
    obtain ⟨-, hmine, hlinked⟩ := hallows
    simp only [Op.awaits, Bool.or_eq_true, decide_eq_true_eq, Option.any_eq_true] at hawaits
    rcases hawaits with hheld | ⟨id, hid, hheld⟩
    · have hlock : .wagerId transaction.id ∈ o.locks :=
        Local.mem_locks.mpr (.inr ⟨_, hheld, rfl⟩)
      rcases hmine with hmine | hgenerated
      · exact hcompat.holds _ (h.mine _ hmine) (List.mem_append_left _ hlock)
      · have hid := h.generated _ hgenerated
        rcases hown.locks _ hlock with hdb | hkey
        · exact (hl.ids _ hid).2 _ hdb rfl
        · exact hcompat.ids _ hid (ho.wagerKey hkey)
    · obtain ⟨row, hrow, hrowid, hterminal⟩ := h.settled id (hlinked id hid)
      rw [ho.waiting id hheld row hrow hrowid] at hterminal
      cases hterminal
  · rintro wallet rfl
    have hheld : wallet.id ∈ o.wallets := of_decide_eq_true hawaits
    have hlock : .walletId wallet.id ∈ o.locks := Local.mem_locks.mpr (.inl ⟨_, hheld, rfl⟩)
    exact hcompat.holds _ (h.mine _ hallows) (List.mem_append_left _ hlock)

/-- A unit that waits has not reached the stage of its call. -/
theorem LockState.reached_lt {s : LockState} {op : Op} {o : Local} (hallows : s.Allows op)
    (hawaits : op.awaits o = true) (hwager : ∀ transaction, op ≠ .updateWager transaction)
    (hwallet : ∀ wallet, op ≠ .updateWallet wallet) : s.reached < op.stage := by
  cases op with
  | insertIfAbsent wallet => exact hallows
  | reserveInbox message => exact hallows
  | reserve transaction => exact hallows.1
  | lockWager id => exact hallows
  | lockWallet id => exact hallows
  | updateWager transaction => exact absurd rfl (hwager transaction)
  | updateWallet wallet => exact absurd rfl (hwallet wallet)
  | _ => cases hawaits

/-- A unit that is waited for has reached the stage of the call that waits. -/
theorem Tied.stage_le {sh : Shared} {o : Local} {t : LockState} (h : Tied sh o t) {op : Op}
    (hawaits : op.awaits o = true) (hwager : ∀ transaction, op ≠ .updateWager transaction)
    (hwallet : ∀ wallet, op ≠ .updateWallet wallet) : op.stage ≤ t.reached := by
  cases op with
  | insertIfAbsent wallet =>
    obtain ⟨k, hk, hheld⟩ := List.any_eq_true.mp hawaits
    refine Nat.le_trans ?_ (h.keys k (of_decide_eq_true hheld))
    simp only [WalletRow.uniqueKeys, List.mem_cons, List.not_mem_nil, or_false] at hk
    rcases hk with rfl | rfl <;> exact Nat.le_refl 1
  | reserveInbox message => exact h.keys _ (of_decide_eq_true hawaits)
  | reserve transaction =>
    obtain ⟨k, hk, hheld⟩ := List.any_eq_true.mp hawaits
    refine Nat.le_trans ?_ (h.keys k (of_decide_eq_true hheld))
    simp only [WagerTransactionRow.uniqueKeys, List.mem_cons, List.not_mem_nil, or_false] at hk
    rcases hk with rfl | rfl | rfl <;> exact Nat.le_refl 2
  | lockWager id =>
    rcases Bool.or_eq_true_iff.mp hawaits with hheld | hshared
    · exact h.wagers id (of_decide_eq_true hheld)
    · obtain ⟨write, hwrite, hlink⟩ := List.mem_flatMap.mp (of_decide_eq_true hshared)
      cases write with
      | updateWager row => exact Nat.le_trans (show 3 ≤ 5 by decide) (h.updates row hwrite)
      | _ => cases hlink
  | lockWallet id => exact h.wallets _ (of_decide_eq_true hawaits)
  | updateWager transaction => exact absurd rfl (hwager transaction)
  | updateWallet wallet => exact absurd rfl (hwallet wallet)
  | _ => cases hawaits

/-! ## Every run -/

/-- Every session keeps to the order of locks. -/
abbrev Ordered (w : Service) : Prop := w.Tracks lockOrder Tied

variable [Driver]

/-- A step in which whoever locks a transaction by its identifier finds that
nobody has settled it. -/
def LocksWaiting (w w' : Service) : Prop :=
  ∃ action, w.Heeds (fun sh (op : Op) => op.LocksWaiting sh) action ∧ w.step units action = some w'

/-- The order of locks is kept through a whole run. -/
theorem ordered_run {w : Service} (h : Relation.ReflTransGen LocksWaiting Service.start w) :
    w.Sound discipline contract ∧ Ordered w := by
  induction h with
  | refl => exact ⟨Reachable.sound .refl, fun hs => by cases hs⟩
  | tail _ hnext ih =>
    obtain ⟨hsound, hordered⟩ := ih
    obtain ⟨action, hheeds, hstep⟩ := hnext
    refine ⟨hsound.steps (fun entry sh _ => units_safe entry sh) (.single ⟨action, hstep⟩), ?_⟩
    exact hordered.step hsound units_follow tied_start Tied.rely
      (fun hinv _ htied hallows hpermitted hop => exec_tied htied hinv hallows hpermitted hop)
      hheeds hstep

/-- The stage of the call that a session makes next. -/
def nextStage (w : Service) (i : Nat) : Nat :=
  match w.sessions[i]? with
  | some ⟨_, .running _ (.call op _) _⟩ => op.stage
  | _ => 0

omit [Driver] in
theorem waitsFor_iff {w : Service} {i j : Nat} : waitsFor w i j = true ↔
    ∃ entry l op rest next s o, w.sessions[i]? = some ⟨entry, .running l (.call op rest) next⟩ ∧
      w.sessions[j]? = some s ∧ s.local? = some o ∧ i ≠ j ∧ op.awaits o = true := by
  unfold waitsFor
  constructor
  · intro h
    split at h
    · rename_i entry l op rest next o hi hj
      obtain ⟨s, hs, ho⟩ := Option.bind_eq_some_iff.mp hj
      rw [Bool.and_eq_true, decide_eq_true_eq] at h
      exact ⟨entry, l, op, rest, next, s, o, hi, hs, ho, h.1, h.2⟩
    · cases h
  · rintro ⟨entry, l, op, rest, next, s, o, hi, hs, ho, hne, hawaits⟩
    rw [hi, Option.bind_eq_some_iff.mpr ⟨s, hs, ho⟩]
    simp [hne, hawaits]

/-- The stage rises from a session that waits to one that it waits for and that
waits in turn. -/
theorem nextStage_lt {w : Service} (hsound : w.Sound discipline contract) (h : Ordered w)
    {i j k : Nat} (hij : waitsFor w i j = true) (hjk : waitsFor w j k = true) :
    nextStage w i < nextStage w j := by
  obtain ⟨entry, l, op, rest, next, s, o, hi, hs, ho, hne, hawaits⟩ := waitsFor_iff.mp hij
  obtain ⟨entry', l', op', rest', next', s', o', hj, hs', ho', hne', hawaits'⟩ :=
    waitsFor_iff.mp hjk
  obtain rfl : s = _ := Option.some.inj (hs.symm.trans hj)
  obtain rfl : l' = o := Option.some.inj ho
  obtain ⟨⟨t, htied, hallows, -⟩, -⟩ := h hi
  obtain ⟨⟨t', htied', hallows', -⟩, -⟩ := h hj
  have htracked := h hs'
  obtain ⟨t'', htied''⟩ : ∃ t, Tied w.shared o' t := by
    rcases s' with ⟨entry'', status⟩
    cases status with
    | running loc prog next =>
      obtain rfl : loc = o' := Option.some.inj ho'
      obtain ⟨⟨t, htied, -⟩, -⟩ := htracked
      exact ⟨t, htied⟩
    | closed result => cases ho'
    | lost => cases ho'
  obtain ⟨hwager, hwallet⟩ := htied.updates_free htied' (hsound.own hi rfl) (hsound.own hj rfl)
    (hsound.apart hne hi hj rfl rfl) hallows hawaits
  obtain ⟨hwager', hwallet'⟩ := htied'.updates_free htied'' (hsound.own hj rfl)
    (hsound.own hs' ho') (hsound.apart hne' hj hs' rfl ho') hallows' hawaits'
  calc nextStage w i = op.stage := by rw [nextStage, hi]
    _ ≤ t'.reached := htied'.stage_le hawaits hwager hwallet
    _ < op'.stage := LockState.reached_lt hallows' hawaits' hwager' hwallet'
    _ = nextStage w j := by rw [nextStage, hj]

/-- While every lock by identifier finds a transaction that nobody has settled,
no interleaving deadlocks. -/
theorem run_notDeadlocked {w : Service}
    (h : Relation.ReflTransGen LocksWaiting Service.start w) : ¬ Deadlocked w := by
  obtain ⟨hsound, hordered⟩ := ordered_run h
  rintro ⟨i, hcycle⟩
  exact acyclic_of_rank (nextStage w) (nextStage_lt hsound hordered) i hcycle

/-- `LocksWaiting` of the call that an action makes, evaluated. -/
def heedsWaiting (w : Service) : Action store Entry → Bool
  | .exec i _ =>
    match w.sessions[i]? with
    | some ⟨_, .running _ (.call (.lockWager id) _) _⟩ =>
      w.shared.db.wagers.all fun row => row.id ≠ id || !row.status.isTerminal
    | _ => true
  | _ => true

/-- A schedule whose locks by identifier all find a transaction that nobody has settled. -/
def waitingRun (w : Service) : List (Action store Entry) → Option Service
  | [] => some w
  | a :: rest =>
    if heedsWaiting w a then (w.step units a).bind fun w' => waitingRun w' rest else none

omit [Driver] in
theorem heeds_of_heedsWaiting {w : Service} {action : Action store Entry}
    (h : heedsWaiting w action = true) :
    w.Heeds (fun sh (op : Op) => op.LocksWaiting sh) action := by
  rintro i input entry l op rest next rfl hi
  cases op with
  | lockWager id =>
    simp only [heedsWaiting, hi] at h
    intro row hrow heq
    have := List.all_eq_true.mp h row hrow
    simpa [heq] using this
  | _ => trivial

theorem waitingRun_steps {actions : List (Action store Entry)} :
    ∀ {w w' : Service}, waitingRun w actions = some w' →
      Relation.ReflTransGen LocksWaiting w w' := by
  induction actions with
  | nil =>
    intro w w' h
    cases h
    exact .refl
  | cons a rest ih =>
    intro w w' h
    rw [waitingRun] at h
    split at h
    case isTrue hheeds =>
      obtain ⟨mid, hstep, hrest⟩ := Option.bind_eq_some_iff.mp h
      exact .head ⟨a, heeds_of_heedsWaiting hheeds, hstep⟩ (ih hrest)
    case isFalse => cases h

end Statements

section Sample

local instance deadlockPlatform : Platform := samplePlatform

local instance deadlockDriver : Driver := sampleDriver

/-- A refund waits for its bet, and the bet comes. -/
def pendingActions : List (Action store Entry) :=
  serve 0 (.createWallet sampleWallet)
    [.instant 1000, .identity (sampleId 1), .identity (sampleId 2), .identity (sampleId 3), .step,
      .step, .step, .step, .identity (sampleId 4), .identity (sampleId 5), .step] ++
  serve 1 (.submit sampleRefund)
    [.instant 2000, .identity (sampleId 6), .step, .identity (sampleId 7), .step, .step, .step,
      .step] ++
  serve 2 (.submit sampleBet)
    [.instant 3000, .identity (sampleId 8), .step, .identity (sampleId 9), .step,
      .identity (sampleId 10), .step, .step, .step, .identity (sampleId 11), .step]

/-- One worker fails on the refund, with an error that no retry mends; before it
records the failure, another settles the refund, and a rollback of the refund
takes the wallet. -/
def deadlockActions : List (Action store Entry) :=
  pendingActions ++
  (.begin .resolvePending :: calls 3 [.instant 9000, .step, .step] ++
    [.fail 3 (.repository (.connection (utf16 "53100")))]) ++
  serve 4 .resolvePending
    [.instant 9500, .step, .step, .step, .identity (sampleId 12), .step, .step, .step,
      .identity (sampleId 13), .step, .step, .step, .identity (sampleId 14), .step] ++
  (.begin (.submit (sampleSubmit .rollback (utf16 "rollback-1") (some (utf16 "refund-1")))) ::
    calls 5 [.instant 9800, .identity (sampleId 15), .step, .identity (sampleId 16), .step, .step,
      .step, .identity (sampleId 17)]) ++
  calls 3 [.instant 10000, .step]

theorem deadlock_runs : ∃ w, World.run units Service.start deadlockActions = some w ∧
    waitsFor w 3 5 = true ∧ waitsFor w 5 3 = true := by
  have h : ((World.run units Service.start deadlockActions).any fun w =>
      waitsFor w 3 5 && waitsFor w 5 3) = true := by
    decide +kernel
  obtain ⟨w, hrun, hwaits⟩ := (Option.any_eq_true _ _).mp h
  rw [Bool.and_eq_true] at hwaits
  exact ⟨w, hrun, hwaits⟩

/-- The failure recorder holds the refund and waits for the wallet; the rollback
holds the wallet and waits for the key of the refund. -/
theorem deadlock_reachable : ∃ w, Reachable w ∧ Deadlocked w := by
  obtain ⟨w, hrun, hfirst, hsecond⟩ := deadlock_runs
  exact ⟨w, World.Steps.of_run hrun, 3, .tail (.single hfirst) hsecond⟩

/-- One worker fails on the refund and records the failure while a bet waits
for the wallet. -/
def recordedActions : List (Action store Entry) :=
  pendingActions ++
  (.begin .resolvePending :: calls 3 [.instant 9000, .step, .step] ++
    [.fail 3 (.repository (.connection (utf16 "53100")))]) ++
  calls 3 [.instant 9500, .step, .step] ++
  (.begin (.submit (sampleSubmit .bet (utf16 "bet-2") none)) ::
    calls 4 [.instant 9800, .identity (sampleId 12), .step, .identity (sampleId 13)])

theorem recorded_notDeadlocked :
    ∃ w, waitingRun Service.start recordedActions = some w ∧ waitsFor w 4 3 = true ∧
      ¬ Deadlocked w := by
  have h : ((waitingRun Service.start recordedActions).any fun w => waitsFor w 4 3) = true := by
    decide +kernel
  obtain ⟨w, hrun, hwaits⟩ := (Option.any_eq_true _ _).mp h
  exact ⟨w, hrun, hwaits, run_notDeadlocked (waitingRun_steps hrun)⟩

end Sample

end Wagering
