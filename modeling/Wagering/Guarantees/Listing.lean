import Wagering.Correctness.Paging
import Wagering.Guarantees.WalletOrder

/-!
# The order of a ledger

A listing goes downwards by `(created_at, id)`, and `created_at` is the clock as
the unit read it before it waited for the wallet.  The ledger itself grows in
the order in which the wallet was held.  So the listing shows the movements in
the order in which they were applied exactly when every unit that moved a wallet
had read its clock after those before it.
-/

namespace Wagering

open Interleave RunningBalance

/-- The full listing of a wallet's entries. -/
def ledgerListing (db : Database) (walletId : Text) : List WalletLedgerEntryRow :=
  Keyset.downwards WalletLedgerEntryRow.cursor LedgerCursor.lt (db.ledgerOf walletId)

/-- A page without a cursor is the beginning of the listing. -/
theorem pageRows_listing [Platform] (db : Database) (wallet : Wallet) (limit : Nat) :
    pageRows db wallet limit none = (ledgerListing db wallet.id).take (limit + 1) := by
  have hall : (db.ledgerOf wallet.id).filter
      (Keyset.below WalletLedgerEntryRow.cursor LedgerCursor.lt none) = db.ledgerOf wallet.id :=
    List.filter_eq_self.mpr fun _ _ => rfl
  rw [pageRows, Option.map_none, Keyset.found, hall, ledgerListing]

/-- The listing of a wallet is the reverse of the order in which its movements
were applied, which is that of the table: newer entries start where older ones
ended, and the first one shows the balance of the wallet. -/
structure ListsAsApplied (db : Database) (wallet : WalletRow) : Prop where
  reversed : ledgerListing db wallet.id = (db.ledgerOf wallet.id).reverse
  meets : (ledgerListing db wallet.id).IsChain fun newer older =>
    newer.balanceBefore = older.balanceAfter
  latest : ∀ entry, (ledgerListing db wallet.id).head? = some entry →
    entry.balanceAfter = wallet.balance

/-! ## Entries in order -/

/-- The rows that a statement adds to the ledger. -/
def Write.entries : Write → List WalletLedgerEntryRow
  | .insertLedger row => [row]
  | _ => []

/-- The rows that a sequence of statements adds to the ledger. -/
def newEntries (log : List Write) : List WalletLedgerEntryRow := log.flatMap Write.entries

theorem ledger_apply (db : Database) (write : Write) :
    (write.apply db).ledger = db.ledger ++ write.entries := by
  cases write <;> simp [Write.apply, Write.entries]

theorem ledger_after (db : Database) (log : List Write) :
    (db.after log).ledger = db.ledger ++ newEntries log := by
  induction log generalizing db with
  | nil => simp [newEntries]
  | cons write log ih =>
    rw [Database.after_cons, ih, ledger_apply, List.append_assoc]
    rfl

/-- The entries of every wallet stand in the order of their stamps. -/
def Database.Ascending (db : Database) : Prop :=
  ∀ walletId, (db.ledgerOf walletId).Pairwise fun earlier later => earlier.cursor.lt later.cursor

/-- The movement that the transaction makes stands, by the clock it read and the
identifier it generated, above those that its wallet has. -/
def Forward (sh : Shared) (l : Local) : Prop :=
  ∀ e ∈ newEntries l.log, ∀ earlier ∈ sh.db.ledger, earlier.walletId = e.walletId →
    earlier.cursor.lt e.cursor

section Statements

variable [Platform] {sh : Shared} {l : Local}

/-- A commit adds at most one entry. -/
theorem Ready.entries (h : Ready sh l) : (newEntries l.log).length ≤ 1 := by
  obtain ⟨c, -, hbooks, -, -⟩ := h.change
  obtain ⟨-, hledger, -⟩ := sh.db.books.withWallet_eq c.opened
  have hview : (l.view sh.db).books.ledger = sh.db.books.ledger ++ newEntries l.log :=
    ledger_after _ _
  rw [hbooks, Books.amend] at hview
  cases hdecision : c.decision with
  | none =>
    rw [hdecision, hledger] at hview
    have := congrArg List.length hview
    rw [List.length_append] at this
    omega
  | some d =>
    rw [hdecision] at hview
    have := congrArg List.length hview
    simp only [Books.record, hledger, List.length_append] at this
    have hmovement : (d.movement.map Prod.fst).toList.length ≤ 1 := by
      cases d.movement <;> simp
    omega

/-- A commit leaves the entries in order exactly when they were, and its own
movement stands above them. -/
theorem Ready.ascending_iff (h : Ready sh l) :
    (l.view sh.db).Ascending ↔ sh.db.Ascending ∧ Forward sh l := by
  have hview : ∀ walletId, (l.view sh.db).ledgerOf walletId = sh.db.ledgerOf walletId ++
      (newEntries l.log).filter fun e => e.walletId = walletId := by
    intro walletId
    rw [Database.ledgerOf, Local.view, ledger_after, List.filter_append]
    rfl
  have hone : ∀ walletId, ((newEntries l.log).filter fun e => e.walletId = walletId).Pairwise
      fun earlier later => earlier.cursor.lt later.cursor := by
    intro walletId
    have hentries := h.entries
    generalize newEntries l.log = rows at hentries
    rcases rows with _ | ⟨e, _ | ⟨e', rest⟩⟩
    · exact .nil
    · by_cases hwallet : e.walletId = walletId <;> simp [hwallet]
    · rw [List.length_cons, List.length_cons] at hentries
      omega
  constructor
  · intro hascending
    refine ⟨fun walletId => ?_, fun e he earlier hearlier hwallet => ?_⟩
    · have := hascending walletId
      rw [hview] at this
      exact (List.pairwise_append.mp this).1
    · have := hascending e.walletId
      rw [hview] at this
      exact (List.pairwise_append.mp this).2.2 earlier
        (List.mem_filter.mpr ⟨hearlier, decide_eq_true hwallet⟩) e
        (List.mem_filter.mpr ⟨he, decide_eq_true rfl⟩)
  · rintro ⟨hascending, hmovement⟩ walletId
    rw [hview, List.pairwise_append]
    refine ⟨hascending walletId, hone walletId, fun earlier hearlier e he => ?_⟩
    obtain ⟨hearlier, hwallet⟩ := List.mem_filter.mp hearlier
    obtain ⟨he, hwallet'⟩ := List.mem_filter.mp he
    rw [decide_eq_true_eq] at hwallet hwallet'
    exact hmovement e he earlier hearlier (hwallet.trans hwallet'.symm)

variable [Driver] {w : Service}

/-- Every transaction that committed was stamped above the earlier movements of
the wallet that it moved. -/
def ForwardRun (w : Service) : Prop :=
  ∀ i sh l a, (i, .committed sh l a) ∈ w.history → Forward sh l

omit [Driver] in
theorem forwardRun_iff_commits : ForwardRun w ↔
    ∀ i sh l a, (i, Ending.committed sh l a) ∈ World.commitsOf w.history → Forward sh l := by
  simp [ForwardRun, World.commitsOf, World.isCommit]

/-- The entries are in order exactly when every commit was. -/
theorem Reachable.ascending_iff (h : Reachable w) :
    w.shared.db.Ascending ↔ ForwardRun w := by
  induction h with
  | refl =>
    refine ⟨fun _ i sh l a hmem => ?_, fun _ walletId => ?_⟩
    · cases hmem
    · exact List.Pairwise.nil
  | @tail mid w' before last ih =>
    have hnext : Reachable w' := .tail before last
    obtain ⟨action, hstep⟩ := last
    obtain ⟨-, hshared⟩ := World.step_cases hstep
    rcases hshared with ⟨hcommits, hshared⟩ | ⟨i, l, a, heq, hhistory⟩
    · have hledger : w'.shared.db.ledger = mid.shared.db.ledger := by
        rcases hshared with heq | ⟨others, l, op, input, r, hop⟩ | ⟨a, -, ha⟩
        · rw [heq]
        · rw [(exec_effect hop).1]
        · obtain ⟨outbox, publishing, hsame, -, -⟩ := ambient_same ha
          rw [hsame]
      rw [forwardRun_iff_commits, hcommits, ← forwardRun_iff_commits, ← ih]
      simp only [Database.Ascending, Database.ledgerOf, hledger]
    · have hmem : (i, Ending.committed mid.shared l a) ∈ w'.history := by
        rw [hhistory]
        exact List.mem_append_right _ (List.mem_singleton.mpr rfl)
      obtain ⟨entry, past, hcommitted⟩ := hnext.commit_recorded hmem
      have hview : w'.shared.db = l.view mid.shared.db := by
        rw [heq]
        rfl
      rw [hview, hcommitted.ready.ascending_iff, ih]
      constructor
      · rintro ⟨hrun, hmovement⟩ j sh' l' a' hmem'
        rw [hhistory] at hmem'
        rcases List.mem_append.mp hmem' with hold | hnew
        · exact hrun j sh' l' a' hold
        · cases List.mem_singleton.mp hnew
          exact hmovement
      · intro hrun
        refine ⟨fun j sh' l' a' hold => hrun j sh' l' a' ?_, hrun i _ _ _ hmem⟩
        rw [hhistory]
        exact List.mem_append_left _ hold

omit [Driver] in
/-- No two entries of a wallet stand at the same place. -/
theorem Sound.ledgerCursors {sh : Shared} (h : Sound sh) (walletId : Text) :
    Keyed.Distinct WalletLedgerEntryRow.cursor (sh.db.ledgerOf walletId) := by
  have hkeys := h.keys
  simp only [Database.uniqueKeys, List.nodup_append] at hkeys
  have hledger : (sh.db.ledger.flatMap WalletLedgerEntryRow.uniqueKeys).Nodup := hkeys.1.1.2.1
  have hpairwise : sh.db.ledger.Pairwise fun e e' => e.cursor ≠ e'.cursor := by
    refine (List.nodup_flatMap.mp hledger).2.imp fun {e e'} hdisjoint heq => ?_
    have hid : e.id = e'.id := congrArg LedgerCursor.id heq
    exact hdisjoint (a := .ledgerId e.id) List.mem_cons_self (hid ▸ List.mem_cons_self)
  exact List.pairwise_map.mpr (hpairwise.sublist List.filter_sublist)

/-- In every reachable state the listings of all wallets show the movements as
they were applied, if every transaction that moved a wallet was stamped above the
wallet's earlier movements, and only then. -/
theorem Reachable.listsAsApplied_iff (h : Reachable w) :
    (∀ wallet ∈ w.shared.db.wallets, ListsAsApplied w.shared.db wallet) ↔ ForwardRun w := by
  rw [← h.ascending_iff]
  have hsound := h.sound.inv
  constructor
  · intro hlists walletId
    by_cases hwallet : ∃ wallet ∈ w.shared.db.wallets, wallet.id = walletId
    · obtain ⟨wallet, hmem, rfl⟩ := hwallet
      exact (Keyset.downwards_eq_reverse_iff (hsound.ledgerCursors _)).mp (hlists wallet hmem).reversed
    · have hnone : w.shared.db.books.walletEntries walletId = [] :=
        (hsound.books.untouched fun v hv heq => hwallet ⟨v, hv, heq⟩).2.1
      have hentries : w.shared.db.ledgerOf walletId = [] := hnone
      rw [hentries]
      exact .nil
  · intro hascending wallet hmem
    have hreversed := (Keyset.downwards_eq_reverse_iff (hsound.ledgerCursors wallet.id)).mpr
      (hascending wallet.id)
    have hchain : Chain WalletLedgerEntryRow.balanceBefore WalletLedgerEntryRow.balanceAfter 0
        (w.shared.db.ledgerOf wallet.id) wallet.balance := (hsound.books.wallets wallet hmem).chain
    refine ⟨hreversed, ?_, fun entry hentry => hchain.getLast? ?_⟩
    · rw [ledgerListing, hreversed]
      exact List.isChain_reverse.mpr hchain.isChain
    · rwa [ledgerListing, hreversed, List.head?_reverse] at hentry

end Statements

section Sample

local instance listingPlatform : Platform := samplePlatform

local instance listingDriver : Driver := sampleDriver

/-- `Forward`, evaluated. -/
def isForward (sh : Shared) (l : Local) : Bool :=
  (newEntries l.log).all fun e => sh.db.ledger.all fun earlier =>
    earlier.walletId ≠ e.walletId || earlier.cursor.lt e.cursor

theorem forward_of_isForward {sh : Shared} {l : Local} (h : isForward sh l = true) :
    Forward sh l := by
  intro e he earlier hearlier hwallet
  have := List.all_eq_true.mp (List.all_eq_true.mp h e he) earlier hearlier
  simpa [hwallet] using this

theorem sample_forward : ForwardRun sampleService := by
  have hall : (sampleService.history.all fun x => match x.2 with
      | .committed sh l _ => isForward sh l
      | .failed _ _ _ => true) = true := by
    decide +kernel
  intro i sh l a hmem
  exact forward_of_isForward (List.all_eq_true.mp hall _ hmem)

theorem sample_listsAsApplied : ForwardRun sampleService ∧
    ∀ wallet ∈ sampleService.shared.db.wallets,
      ListsAsApplied sampleService.shared.db wallet :=
  ⟨sample_forward, sample_reachable.listsAsApplied_iff.mpr sample_forward⟩

/-- The bet that was applied last is not listed first: the first entry shows
another balance than the wallet has. -/
theorem crossed_listing : Reachable crossedService ∧
    ∃ wallet ∈ crossedService.shared.db.wallets,
      ¬ ListsAsApplied crossedService.shared.db wallet ∧
      ∃ entry, (ledgerListing crossedService.shared.db wallet.id).head? = some entry ∧
        entry.balanceAfter ≠ wallet.balance := by
  -- the entries in the order of their commits: the opening, the first bet, the later one
  have hcrossed : ∃ wallet ∈ crossedService.shared.db.wallets,
      ∃ opening ∈ crossedService.shared.db.ledger, ∃ first ∈ crossedService.shared.db.ledger,
      ∃ later ∈ crossedService.shared.db.ledger,
        crossedService.shared.db.ledgerOf wallet.id = [opening, first, later] ∧
        opening.cursor.lt later.cursor ∧ later.cursor.lt first.cursor ∧
        first.balanceAfter ≠ wallet.balance := by
    decide +kernel
  obtain ⟨wallet, hmem, opening, -, first, -, later, -, hledger, hlow, hhigh, hbalance⟩ := hcrossed
  have hperm : (crossedService.shared.db.ledgerOf wallet.id).Perm [first, later, opening] := by
    rw [hledger]
    exact (List.perm_append_singleton opening [first, later]).symm
  have hlisting : ledgerListing crossedService.shared.db wallet.id = [first, later, opening] :=
    Keyset.downwards_eq (crossed_reachable.sound.inv.ledgerCursors wallet.id) hperm
      (by simp [hlow, hhigh, trans_of LedgerCursor.lt hlow hhigh])
  have hfirst : (ledgerListing crossedService.shared.db wallet.id).head? = some first := by
    rw [hlisting]
    rfl
  exact ⟨crossed_reachable, wallet, hmem, fun hlists => hbalance (hlists.latest first hfirst),
    first, hfirst, hbalance⟩

end Sample

end Wagering
