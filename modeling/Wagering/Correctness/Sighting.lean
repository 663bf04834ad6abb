import Wagering.Correctness.Testifying
import Wagering.Correctness.Timekeeping

/-!
# What a unit sees of a wallet

Function by function: a unit records as a transaction's balance only that of the
wallet in its hand, as it leaves it, after it has seen that the wallet is the
player's; a reversal that is put off keeps the balance that it had.
-/

namespace Wagering

open Interleave

variable [Platform] {α β : Type}

/-! ## The typestate -/

/-- What a unit has seen: the identifiers that it generated, the identifier under
which it found a wallet, the wallet as it locked or last wrote it, the
transaction that it asked to reserve, the one that it works on, and that one as
it last wrote it. -/
structure Sighting : Type where
  ids : List Text
  sought : Option Text
  hand : Option Wallet
  asked : Option WagerTransaction
  row : Option WagerTransaction
  written : Option WagerTransaction

namespace Sighting

def start : Sighting := ⟨[], none, none, none, none, none⟩

/-- The transaction is the one that the unit works on: as it was read, or as it was
asked for. -/
def Is (s : Sighting) (p t : WagerTransaction) : Prop :=
  t.id = p.id ∨ ∃ asked ∈ s.asked, t.id = asked.id

/-- What each call may do: one wallet and one transaction in a transaction, and
updates that stay with them. -/
def Allows (s : Sighting) : Op → Prop
  | .insertIfAbsent _ => s.hand = none
  | .lockWallet _ => s.hand = none
  | .updateWallet wallet => ∃ w ∈ s.hand, wallet.id = w.id ∧ wallet.playerId = w.playerId ∧
      wallet.balance.currency = w.balance.currency
  | .reserve _ => s.row = none
  | .lockWager _ => s.row = none
  | .lockDuePendingReference _ => s.row = none
  | .updateWager transaction => (∃ p ∈ s.row, s.Is p transaction) ∨
      s.row = none ∧ transaction.id ∈ s.ids
  | _ => True

/-- Where a call and its answer lead. -/
def next (s : Sighting) : (op : Op) → op.Answer → Sighting
  | .nextId, id => { s with ids := id :: s.ids }
  | .insertIfAbsent wallet, some created =>
    { s with
      sought := if wallet.id ∈ s.ids then some created.id else none
      hand := some created }
  | .lockWallet id, some wallet => { s with sought := some id, hand := some wallet }
  | .updateWallet wallet, _ => { s with hand := some wallet }
  | .reserve transaction, some owned => { s with asked := some transaction, row := some owned }
  | .lockWager _, some pending => { s with asked := none, row := some pending }
  | .lockDuePendingReference _, some pending => { s with asked := none, row := some pending }
  | .updateWager transaction, _ => { s with written := some transaction }
  | _, _ => s

end Sighting

@[reducible] def sightings : Typestate ports where
  State := Sighting
  start := .start
  Allows := Sighting.Allows
  next := Sighting.next

namespace Sighting

/-- The wallet is the one that the transaction names, and its player's: the unit
compared them before it recorded a new transaction, or the transaction has been
waiting since. -/
def Saw (s : Sighting) (p : WagerTransaction) (w : Wallet) : Prop :=
  match s.asked with
  | some asked => s.sought = some asked.walletId ∧ w.playerId = asked.playerId
  | none => s.sought = some p.walletId

/-- How the balance of a transaction came about. -/
inductive Explains (s : Sighting) (p t : WagerTransaction) : Prop
  | hidden (balance : t.resultBalance = none)
  | observed {w : Wallet} (hand : s.hand = some w) (saw : s.Saw p w)
    (waiting : s.asked = none → p.isTerminal = false) (balance : t.resultBalance = some w.balance)
  | kept (asked : s.asked = none) (balance : t.resultBalance = p.resultBalance)

/-- The unit has accounted for the transaction that it worked on. -/
def Accounts (s : Sighting) : Prop :=
  ∀ p ∈ s.row, ∃ t ∈ s.written, s.Is p t ∧ s.Explains p t

end Sighting

variable {s : Sighting}

/-- The code accounts for its transaction, from `s` on. -/
abbrev Sights (code : Code α) (s : Sighting) : Prop :=
  code.Testifies sightings (fun s _ => s.Accounts) (fun _ _ => True) s

theorem sights_call {op : Op} {f : op.Answer → Code β} (hallows : s.Allows op)
    (h : ∀ answer, Sights (f answer) (s.next op answer)) : Sights (call op >>= f) s :=
  Program.testifies_call hallows h

theorem sights_domain {x : Except DomainError α} {f : α → Code β}
    (h : ∀ a, x = .ok a → Sights (f a) s) : Sights (domain x >>= f) s :=
  testifies_domain h fun _ => trivial

/-! ## Transitions -/

variable {t t' : WagerTransaction} {now : Instant}

theorem assertTransition_waiting {target : WagerTransactionStatus} {u : Unit}
    (h : t.assertTransition target = .ok u) : t.isTerminal = false := by
  unfold WagerTransaction.assertTransition at h
  split at h
  · cases h
  · rename_i hnot
    simp only [Bool.or_eq_true, not_or, Bool.not_eq_true] at hnot
    exact hnot.1.1

/-- What a transition that shows a balance leaves. -/
structure ShowsBalance (t t' : WagerTransaction) (balance : Option Money) : Prop where
  id : t'.id = t.id
  waiting : t.isTerminal = false
  balance : t'.resultBalance = balance

theorem markProcessed_shows {reference : Option Text} {balance : Money}
    (h : t.markProcessed reference balance now = .ok t') : ShowsBalance t t' (some balance) := by
  obtain ⟨u, hassert, h⟩ := bind_ok h
  cases h
  exact ⟨rfl, assertTransition_waiting hassert, rfl⟩

theorem markPendingReference_shows {balance : Money} {next expires : Instant}
    (h : t.markPendingReference balance next expires = .ok t') :
    ShowsBalance t t' (some balance) := by
  obtain ⟨u, hassert, h⟩ := bind_ok h
  split at h
  · cases h
  · cases h
    exact ⟨rfl, assertTransition_waiting hassert, rfl⟩

theorem reject_shows {code : FailureCode} {balance : Option Money}
    (h : t.reject code balance now = .ok t') : ShowsBalance t t' balance := by
  obtain ⟨u, hassert, h⟩ := bind_ok h
  split at h
  · cases h
  · split at h
    · cases h
    · split at h
      · cases h
      · cases h
        exact ⟨rfl, assertTransition_waiting hassert, rfl⟩

theorem fail_shows {balance : Money} (h : t.fail balance now = .ok t') :
    ShowsBalance t t' (some balance) := by
  obtain ⟨u, hassert, h⟩ := bind_ok h
  cases h
  exact ⟨rfl, assertTransition_waiting hassert, rfl⟩

theorem scheduleRetry_shows {next : Instant} (h : t.scheduleRetry next = .ok t') :
    t'.id = t.id ∧ t'.resultBalance = t.resultBalance := by
  unfold WagerTransaction.scheduleRetry at h
  split at h
  · cases h
  · cases h
    exact ⟨rfl, rfl⟩

/-- What a movement leaves of a wallet. -/
structure SamePurse (w w' : Wallet) : Prop where
  id : w'.id = w.id
  playerId : w'.playerId = w.playerId
  currency : w'.balance.currency = w.balance.currency

theorem of_ok {cents : Int} {m m' : Money} (h : Money.of cents m = .ok m') :
    m'.cents = cents ∧ m'.currency = m.currency := by
  unfold Money.of at h
  split at h
  · cases h
    exact ⟨rfl, rfl⟩
  · cases h

/-- A movement that went through: the entry is the one that was asked for, and the
wallet has changed in its balance, its version and its time. -/
theorem move_leaves {w w' : Wallet} {direction : LedgerDirection} {props : MovementProps}
    {entry : WalletLedgerEntry} (h : w.move direction props = .ok (entry, w')) :
    entry.direction = direction ∧ entry.balanceAfter = w'.balance ∧
      w'.balance.cents = w.movedCents direction props.money ∧ SamePurse w w' := by
  have happly : ∀ {after : Money}, after.cents = w.movedCents direction props.money →
      after.currency = w.balance.currency → w.apply direction after props = .ok (entry, w') →
      entry.direction = direction ∧ entry.balanceAfter = w'.balance ∧
        w'.balance.cents = w.movedCents direction props.money ∧ SamePurse w w' := by
    intro after hcents hcurrency happly
    obtain ⟨e, hcreate, happly⟩ := bind_ok happly
    cases happly
    refine (and_assoc.mp ⟨?_, hcents, rfl, rfl, hcurrency⟩)
    unfold WalletLedgerEntry.create at hcreate
    split at hcreate
    · cases hcreate
    · split at hcreate
      · cases hcreate
      · obtain ⟨balanced, -, hcreate⟩ := bind_ok hcreate
        split at hcreate
        · cases hcreate
          exact ⟨rfl, rfl⟩
        · cases hcreate
  cases direction with
  | credit =>
    obtain ⟨-, -, h⟩ := bind_ok h
    obtain ⟨after, hafter, h⟩ := bind_ok h
    obtain ⟨-, -, hafter⟩ := bind_ok hafter
    obtain ⟨hcents, hcurrency⟩ := of_ok hafter
    exact happly hcents hcurrency h
  | debit =>
    obtain ⟨-, -, h⟩ := bind_ok h
    obtain ⟨enough, -, h⟩ := bind_ok h
    split at h
    · cases h
    · obtain ⟨after, hafter, h⟩ := bind_ok h
      obtain ⟨-, -, hafter⟩ := bind_ok hafter
      obtain ⟨hcents, hcurrency⟩ := of_ok hafter
      exact happly (hcents.trans (Int.sub_eq_add_neg ..)) hcurrency h

theorem SamePurse.refl (w : Wallet) : SamePurse w w := ⟨rfl, rfl, rfl⟩

/-! ## Submissions -/

/-- The unit works on the transaction, with the wallet that it names in its hand. -/
structure Sighting.Ready (s : Sighting) (t : WagerTransaction) (w : Wallet) : Prop where
  row : s.row = some t
  hand : s.hand = some w
  saw : s.Saw t w

theorem Sighting.Saw.purse {w w' : Wallet} (h : s.Saw t w) (same : SamePurse w w') :
    s.Saw t w' := by
  unfold Sighting.Saw at h ⊢
  cases hasked : s.asked with
  | none =>
    rw [hasked] at h
    exact h
  | some asked =>
    rw [hasked] at h
    exact ⟨h.1, same.playerId.trans h.2⟩

/-- What is left once the transaction is written with its balance. -/
theorem Sighting.accounts_observed {w : Wallet} (hrow : s.row = some t) (hhand : s.hand = some w)
    (hsaw : s.Saw t w) (hshows : ShowsBalance t t' (some w.balance))
    (hwritten : s.written = some t') : s.Accounts := by
  intro p hp
  obtain rfl := Option.some.inj (hrow.symm.trans hp)
  exact ⟨t', hwritten, .inl hshows.id,
    .observed hhand hsaw (fun _ => hshows.waiting) hshows.balance⟩

theorem Sighting.accounts_hidden (hrow : s.row = some t) (hid : t'.id = t.id)
    (hbalance : t'.resultBalance = none) (hwritten : s.written = some t') : s.Accounts := by
  intro p hp
  obtain rfl := Option.some.inj (hrow.symm.trans hp)
  exact ⟨t', hwritten, .inl hid, .hidden hbalance⟩

theorem sights_process {w wallet : Wallet} {entry : Option WalletLedgerEntry}
    {context : EventContext} {reference : Option Text} (h : s.Ready t w) (same : SamePurse w wallet)
    (hentry : entry = none → wallet = w) :
    Sights (process t wallet entry now context reference) s := by
  refine sights_domain fun t' ht' => ?_
  have hshows := markProcessed_shows ht'
  refine sights_call (.inl ⟨t, h.row, .inl hshows.id⟩) fun _ => ?_
  cases entry with
  | none =>
    obtain rfl := hentry rfl
    exact sights_call trivial fun _ => Sighting.accounts_observed h.row h.hand h.saw hshows rfl
  | some entry =>
    refine sights_call trivial fun _ => ?_
    refine sights_call ⟨w, h.hand, same.id, same.playerId, same.currency⟩ fun _ => ?_
    refine sights_call trivial fun _ => ?_
    refine sights_call trivial fun _ => ?_
    exact Sighting.accounts_observed h.row rfl (h.saw.purse same) hshows rfl

theorem sights_reject {w : Wallet} {code : FailureCode} {context : EventContext}
    (h : s.Ready t w) : Sights (reject t code (some w.balance) now context) s := by
  refine sights_domain fun t' ht' => ?_
  have hshows := reject_shows ht'
  refine sights_call (.inl ⟨t, h.row, .inl hshows.id⟩) fun _ => ?_
  exact sights_call trivial fun _ => Sighting.accounts_observed h.row h.hand h.saw hshows rfl

/-- A rejection that shows no balance needs no wallet. -/
theorem sights_reject_hidden {code : FailureCode} {context : EventContext}
    (hrow : s.row = some t) : Sights (reject t code none now context) s := by
  refine sights_domain fun t' ht' => ?_
  have hshows := reject_shows ht'
  refine sights_call (.inl ⟨t, hrow, .inl hshows.id⟩) fun _ => sights_call trivial fun _ => ?_
  exact Sighting.accounts_hidden hrow hshows.id hshows.balance rfl

theorem sights_move {w : Wallet} {direction : LedgerDirection}
    {f : WalletLedgerEntry × Wallet → Code β}
    (h : ∀ moved id, SamePurse w moved.2 → Sights (f moved) { s with ids := id :: s.ids }) :
    Sights (move w t direction now >>= f) s :=
  sights_call trivial fun id => sights_domain fun moved hmoved => h moved id (move_leaves hmoved).2.2.2

theorem Sighting.Ready.generated {w : Wallet} (h : s.Ready t w) (id : Text) :
    Sighting.Ready { s with ids := id :: s.ids } t w :=
  ⟨h.row, h.hand, h.saw⟩

theorem sights_applyResolvedReversal {reference : WagerTransaction} {wallet : Wallet}
    {context : EventContext} (h : s.Ready t wallet) :
    Sights (applyResolvedReversal t reference wallet now context) s := by
  refine sights_domain fun failure _ => ?_
  cases failure with
  | some failure => exact sights_reject h
  | none =>
    refine sights_call trivial fun alreadyReversed => ?_
    split
    · exact sights_reject h
    · refine sights_domain fun direction _ => ?_
      refine sights_domain fun rejection _ => ?_
      cases rejection with
      | some rejection => exact sights_reject h
      | none =>
        exact sights_move fun moved id same =>
          sights_process (h.generated id) same fun hnone => by cases hnone

theorem sights_applyReversal {wallet : Wallet} {context : EventContext} (h : s.Ready t wallet) :
    Sights (applyReversal t wallet now context) s := by
  refine sights_call trivial fun reference => ?_
  split
  · refine sights_domain fun t' ht' => ?_
    have hshows := markPendingReference_shows ht'
    refine sights_call (.inl ⟨t, h.row, .inl hshows.id⟩) fun _ => sights_call trivial fun _ => ?_
    exact Sighting.accounts_observed h.row h.hand h.saw hshows rfl
  · exact sights_applyResolvedReversal h

/-- `resolveOptionalReference` leaves everything as it was seen. -/
theorem sights_resolveOptionalReference {f : Except FailureCode (Option Text) → Code β}
    (hf : ∀ result, Sights (f result) s) : Sights (resolveOptionalReference t >>= f) s := by
  refine Program.testifies_bind ?_
  unfold resolveOptionalReference
  split
  · refine Program.testifies_call trivial fun reference => ?_
    simp only
    split
    · exact hf _
    · split
      · exact hf _
      · exact hf _
  · exact hf _

theorem sights_applyLocked {command : SubmitWagerCommand} {context : EventContext} {wallet : Wallet}
    (hrow : s.row = some t) (hhand : s.hand = some wallet)
    (hasked : ∃ asked, s.asked = some asked ∧ s.sought = some asked.walletId ∧
      asked.playerId = command.playerId) :
    Sights (applyLocked t command now context wallet) s := by
  unfold applyLocked
  split
  · exact sights_reject_hidden hrow
  · rename_i hplayer
    have h : s.Ready t wallet := by
      obtain ⟨asked, hsome, hsought, hname⟩ := hasked
      refine ⟨hrow, hhand, ?_⟩
      unfold Sighting.Saw
      rw [hsome]
      exact ⟨hsought, (not_not.mp hplayer).trans hname.symm⟩
    split
    · exact sights_reject h
    · split
      · exact sights_applyReversal h
      · split
        · exact sights_process h (.refl wallet) fun _ => rfl
        · refine sights_resolveOptionalReference fun result => ?_
          cases result with
          | error failure => exact sights_reject h
          | ok referenceId =>
            refine sights_domain fun direction _ => ?_
            refine sights_domain fun rejection _ => ?_
            cases rejection with
            | some rejection => exact sights_reject h
            | none =>
              exact sights_move fun moved id same =>
                sights_process (h.generated id) same fun hnone => by cases hnone

theorem sights_apply {command : SubmitWagerCommand} (hrow : s.row = some t) (hhand : s.hand = none)
    (hasked : ∃ asked, s.asked = some asked ∧ asked.walletId = command.walletId ∧
      asked.playerId = command.playerId) : Sights (apply t command now) s := by
  refine sights_call trivial fun eventId => ?_
  refine sights_call hhand fun wallet => ?_
  cases wallet with
  | none => exact sights_reject_hidden hrow
  | some wallet =>
    obtain ⟨asked, hsome, hwallet, hplayer⟩ := hasked
    exact sights_applyLocked hrow rfl ⟨asked, hsome, congrArg some hwallet.symm, hplayer⟩

theorem sights_resolveExisting {command : SubmitWagerCommand} {payloadHash : Text}
    (hrow : s.row = none) : Sights (resolveExisting command payloadHash) s := by
  have hnothing : s.Accounts := fun p hp => by
    rw [hrow] at hp
    cases hp
  refine sights_call trivial fun byKey => ?_
  cases byKey with
  | some byKey =>
    simp only
    split
    · exact trivial
    · exact hnothing
  | none =>
    refine sights_call trivial fun byExternal => ?_
    cases byExternal <;> exact trivial

theorem sights_executeWithin {command : SubmitWagerCommand} (hrow : s.row = none)
    (hhand : s.hand = none) : Sights (executeWithin command) s := by
  refine sights_domain fun money _ => ?_
  split
  · exact trivial
  · refine sights_call trivial fun now => ?_
    refine sights_call trivial fun id => ?_
    refine sights_domain fun reserved hreserved => ?_
    obtain ⟨-, -, hprops⟩ := WagerTransaction.create_ok hreserved
    obtain ⟨-, -, hreserved⟩ := WagerTransaction.reserve_ok hprops
    refine sights_call hrow fun owned => ?_
    cases owned with
    | none => exact sights_resolveExisting hrow
    | some owned =>
      exact @sights_apply _ _ owned _ _ rfl hhand
        ⟨reserved, rfl, by rw [hreserved]; rfl, by rw [hreserved]; rfl⟩

theorem sights_consumeWithin (delivery : InboxDelivery) (command : SubmitWagerCommand) :
    Sights (consumeWithin delivery command) .start := by
  have hnothing : Sighting.start.Accounts := fun p hp => by cases hp
  refine sights_call trivial fun receivedAt => ?_
  refine sights_call trivial fun reserved => ?_
  cases reserved with
  | none =>
    refine sights_call trivial fun existing => ?_
    cases existing with
    | none => exact hnothing
    | some existing =>
      simp only
      split
      · exact hnothing
      · split <;> exact hnothing
  | some reserved =>
    refine Program.testifies_bind (Program.testifies_mono (sights_executeWithin rfl rfl)
      (fun s result haccounts => ?_) fun _ _ h => h)
    exact ⟨trivial, fun processedAt => ⟨trivial, fun _ => haccounts⟩⟩

/-! ## The other units -/

theorem sights_recordOpening {command : CreateWalletCommand} {created : Wallet}
    {openingEntry : WalletLedgerEntry} {openingTransactionId : Text} {initialBalance : Money}
    (hrow : s.row = none) (hhand : s.hand = some created) (hsought : s.sought = some created.id)
    (hid : openingTransactionId ∈ s.ids) :
    Sights (recordOpening command created openingEntry openingTransactionId initialBalance now)
      s := by
  refine sights_domain fun opening hopening => ?_
  obtain ⟨-, -, hopening⟩ := WagerTransaction.reserve_ok hopening
  refine sights_call hrow fun owned => ?_
  refine sights_domain fun t' ht' => ?_
  have hshows := markProcessed_shows ht'
  have hname : opening.id = openingTransactionId ∧ opening.walletId = created.id ∧
      opening.playerId = created.playerId := by
    rw [hopening]
    exact ⟨rfl, rfl, rfl⟩
  cases owned with
  | none =>
    have hnothing : ∀ s' : Sighting, s'.row = none → s'.Accounts := fun s' hs' p hp => by
      rw [hs'] at hp
      cases hp
    have hgenerated : t'.id ∈ s.ids := by rwa [hshows.id, hname.1]
    refine sights_call (.inr ⟨hrow, hgenerated⟩) fun _ => sights_call trivial fun _ => ?_
    refine sights_call trivial fun eventId => sights_call trivial fun changedId => ?_
    exact sights_call trivial fun _ => hnothing _ hrow
  | some owned =>
    refine sights_call (.inl ⟨owned, rfl, .inr ⟨opening, rfl, hshows.id⟩⟩) fun _ => ?_
    refine sights_call trivial fun _ => ?_
    refine sights_call trivial fun eventId => sights_call trivial fun changedId => ?_
    refine sights_call trivial fun _ p hp => ?_
    refine ⟨t', rfl, .inr ⟨opening, rfl, hshows.id⟩, .observed hhand ?_ ?_ hshows.balance⟩
    · exact ⟨hsought.trans (congrArg some hname.2.1.symm), hname.2.2.symm⟩
    · intro hasked
      cases hasked

theorem sights_createWallet (command : CreateWalletCommand) :
    Sights (createWallet command) .start := by
  refine sights_domain fun initialBalance hmoney => ?_
  refine sights_call trivial fun now => ?_
  refine sights_call trivial fun walletId => ?_
  refine sights_call trivial fun openingTransactionId => ?_
  refine sights_call trivial fun openingEntryId => ?_
  refine sights_domain fun opening hopening => ?_
  have hid : opening.wallet.id = walletId := by
    obtain ⟨zero, -, -, hopen⟩ := Wallet.open_eq (Money.from_spec hmoney).1 walletId
      command.playerId now openingEntryId openingTransactionId
    rw [Except.ok.inj (hopening.symm.trans hopen)]
  refine sights_call rfl fun created => ?_
  cases created with
  | none => exact sights_call trivial fun existing => trivial
  | some created =>
    cases hentry : opening.openingEntry with
    | none => exact fun p hp => by cases hp
    | some entry =>
      refine sights_recordOpening rfl rfl ?_ ?_
      · apply if_pos
        rw [hid]
        exact List.mem_cons_of_mem _ (List.mem_cons_of_mem _ List.mem_cons_self)
      · exact List.mem_cons_of_mem _ List.mem_cons_self

theorem sights_recordRejected {context : EventContext} {p : WagerTransaction}
    (hrow : s.row = some p) (hid : t.id = p.id)
    (haccounts : ∀ s' : Sighting, s'.row = s.row → s'.hand = s.hand → s'.sought = s.sought →
      s'.asked = s.asked → s'.written = some t → s'.Accounts) :
    Sights (recordRejected t now context) s := by
  refine sights_call (.inl ⟨p, hrow, .inl hid⟩) fun _ => sights_call trivial fun _ => ?_
  exact haccounts _ rfl rfl rfl rfl rfl

/-- `settle`, of the reversal that was locked. -/
theorem sights_settle (hrow : s.row = some t) (hhand : s.hand = none) (hasked : s.asked = none) :
    Sights (settle t now) s := by
  refine sights_call trivial fun eventId => ?_
  refine sights_call hhand fun wallet => ?_
  cases wallet with
  | none =>
    refine sights_domain fun t' ht' => ?_
    have hshows := reject_shows ht'
    refine sights_recordRejected hrow hshows.id fun s' hs' _ _ _ hwritten => ?_
    exact Sighting.accounts_hidden (hs'.trans hrow) hshows.id hshows.balance hwritten
  | some wallet =>
    have h : ((s.next .nextId eventId).next (.lockWallet t.walletId) (some wallet)).Ready t
        wallet := by
      refine ⟨hrow, rfl, ?_⟩
      unfold Sighting.Saw
      rw [show ((s.next .nextId eventId).next (.lockWallet t.walletId) (some wallet)).asked = none
        from hasked]
      rfl
    refine sights_call trivial fun reference => ?_
    split
    · refine sights_domain fun t' ht' => ?_
      have hshows := reject_shows ht'
      refine sights_recordRejected hrow hshows.id fun s' hs' hhand' hsought' hasked' hwritten => ?_
      refine Sighting.accounts_observed (hs'.trans hrow) hhand' ?_ hshows hwritten
      unfold Sighting.Saw
      rw [hasked'.trans hasked]
      exact hsought'
    · exact Program.testifies_bind (Program.testifies_mono (sights_applyResolvedReversal h)
        (fun s' result haccounts => haccounts) fun _ _ h => h)

theorem sights_rescheduleReference (hrow : s.row = some t) (hasked : s.asked = none) :
    Sights (rescheduleReference t now) s := by
  refine sights_call trivial fun jitter => ?_
  refine sights_domain fun t' ht' => ?_
  obtain ⟨hid, hbalance⟩ := scheduleRetry_shows ht'
  refine sights_call (.inl ⟨t, hrow, .inl hid⟩) fun _ p hp => ?_
  obtain rfl := Option.some.inj (hrow.symm.trans hp)
  exact ⟨t', rfl, .inl hid, .kept hasked hbalance⟩

theorem sights_resolveDue : Sights resolveDue .start := by
  refine sights_call trivial fun now => ?_
  refine sights_call rfl fun pending => ?_
  cases pending with
  | none => exact fun p hp => by cases hp
  | some pending =>
    refine sights_call trivial fun _ => ?_
    refine sights_call trivial fun reference => ?_
    split
    · exact sights_rescheduleReference rfl rfl
    · exact sights_settle rfl rfl rfl

theorem sights_recordFailure (id : Text) (error : Failure) :
    Sights (recordFailure id error) .start := by
  refine sights_call trivial fun now => ?_
  refine sights_call rfl fun pending => ?_
  cases pending with
  | none => exact trivial
  | some pending =>
    refine sights_call rfl fun wallet => ?_
    cases wallet with
    | none => exact trivial
    | some wallet =>
      simp only
      split
      · exact trivial
      · refine sights_domain fun t' ht' => ?_
        have hshows := fail_shows ht'
        refine sights_call trivial fun eventId => ?_
        refine sights_recordRejected rfl hshows.id fun s' hs' hhand' hsought' hasked' hwritten => ?_
        refine Sighting.accounts_observed hs' hhand' ?_ hshows hwritten
        unfold Sighting.Saw
        rw [hasked']
        exact hsought'

/-! ## The units -/

theorem afterResolve_sights [Driver] (l : Local) (r : Except Failure Answer) :
    (afterResolve l r).Testifies sightings (fun s _ => s.Accounts) fun _ _ => True := by
  unfold afterResolve
  split
  · exact trivial
  · split
    · exact trivial
    · split
      · exact trivial
      · exact ⟨Program.testifies_map (sights_recordFailure _ _), fun _ _ => trivial⟩

/-- Every unit of work accounts for the balances that it records. -/
theorem units_sight [Driver] (entry : Entry) :
    (units entry).Testifies sightings (fun s _ => s.Accounts) fun _ _ => True := by
  cases entry with
  | createWallet command =>
    exact ⟨Program.testifies_map (sights_createWallet command), fun _ _ => trivial⟩
  | submit command =>
    exact ⟨Program.testifies_map (sights_executeWithin rfl rfl), fun _ _ => trivial⟩
  | consume delivery command =>
    exact ⟨Program.testifies_map (sights_consumeWithin delivery command), fun _ _ => trivial⟩
  | resolvePending => exact ⟨Program.testifies_map sights_resolveDue, afterResolve_sights⟩

end Wagering
