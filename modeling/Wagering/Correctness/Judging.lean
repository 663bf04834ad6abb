import Wagering.Correctness.Applying
import Wagering.Correctness.History
import Wagering.Correctness.Sighting
import Wagering.Correctness.Verdicts

/-!
# What a unit judges by

Function by function: what a unit was answered about the wallet, the reference
and its reversals, and that what it writes is the verdict of any snapshot that
shows these answers.  A fact that may change before the next question is
forgotten with it; a locked wallet and a settled transaction last.
-/

namespace Wagering

open Interleave

variable [Platform] {α β : Type}

/-! ## The typestate -/

/-- An answer of the tables. -/
inductive Finding : Type
  | wallet (id : Text) (found : Option Wallet)
  | transaction (providerId external : Text) (found : Option WagerTransaction)
  | reversed (id : Text) (found : Bool)

/-- Nobody changes a wallet that is locked, nor a transaction that is settled. -/
def Finding.lasts : Finding → Bool
  | .wallet _ found => found.isSome
  | .transaction _ _ found => found.any WagerTransaction.isTerminal
  | .reversed _ _ => false

/-- The snapshot answers so. -/
def Snapshot.Shows (snap : Snapshot) : Finding → Prop
  | .wallet id found =>
    snap.wallet id = found.map toWalletRow ∧ ∀ w ∈ found, w.Storable
  | .transaction providerId external found =>
    snap.transaction providerId external = found.map toWagerTransactionRow
  | .reversed id found => snap.reversed id = found

/-- What a unit has done: its clock readings, the transaction that it asked to
reserve and the one in its hand, what it was answered, and what it has written.
Nothing is said of a transaction that opens a wallet or gives a reversal up. -/
structure Judging : Type where
  aside : Bool
  readings : List Instant
  asked : Option WagerTransaction
  row : Option WagerTransaction
  facts : List Finding
  written : Option WagerTransaction
  entries : List WalletLedgerEntry

namespace Judging

def start : Judging := ⟨false, [], none, none, [], none, []⟩

/-- Nothing has been asked or written yet. -/
structure Blank (s : Judging) : Prop where
  row : s.row = none
  asked : s.asked = none
  facts : s.facts = []
  written : s.written = none
  entries : s.entries = []

/-- What each call may do: questions come before the one update, and it is that of
the transaction in hand. -/
def Allows (s : Judging) : Op → Prop
  | .reserve _ => s.aside = true ∨ s.Blank
  | .lockDuePendingReference _ => s.aside = true ∨ s.Blank
  | .lockWallet _ => s.aside = true ∨ s.written = none
  | .findByExternalId _ _ => s.aside = true ∨ s.written = none
  | .hasActiveReversal _ => s.aside = true ∨ s.written = none
  | .updateWager t => s.aside = true ∨ s.written = none ∧ ∃ p ∈ s.row, t.id = p.id
  | .updateWallet _ => s.aside = true ∨ s.written.isSome = true
  | _ => True

/-- A new answer, with what lasts of the earlier ones. -/
def learn (s : Judging) (fact : Finding) : Judging :=
  { s with facts := fact :: s.facts.filter Finding.lasts }

/-- Where a call and its answer lead. -/
def next (s : Judging) : (op : Op) → op.Answer → Judging
  | .now, at_ => { s with readings := at_ :: s.readings }
  | .insertIfAbsent _, _ => { s with aside := true }
  | .lockWager _, _ => { s with aside := true }
  | .lockWallet id, found => s.learn (.wallet id found)
  | .reserve transaction, some owned => { s with asked := some transaction, row := some owned }
  | .findByExternalId providerId external, found =>
    s.learn (.transaction providerId external found)
  | .hasActiveReversal id, found => s.learn (.reversed id found)
  | .lockDuePendingReference _, some pending => { s with row := some pending }
  | .updateWager transaction, _ => { s with written := some transaction }
  | .insertLedger entry, _ => { s with entries := s.entries ++ [entry] }
  | _, _ => s

/-- The snapshot answers all that the unit asked as the unit was answered. -/
def Shown (s : Judging) (snap : Snapshot) : Prop := ∀ f ∈ s.facts, snap.Shows f

end Judging

@[reducible] def judging : Typestate ports where
  State := Judging
  start := .start
  Allows := Judging.Allows
  next := Judging.next

/-! ## What a unit concludes -/

/-- Nothing has been decided about the transaction. -/
structure WagerTransaction.Undecided (p : WagerTransaction) : Prop where
  positive : 0 < p.money.cents
  unlinked : p.referenceTransactionId = none
  unfailed : p.failureCode = none

/-- `t` is `p` with the verdict. -/
structure WagerTransaction.Carries (t p : WagerTransaction) (v : Verdict) : Prop where
  same : t.toCreateWagerTransactionProps = p.toCreateWagerTransactionProps
  status : t.status = v.status
  failureCode : t.failureCode = v.failureCode
  referenceTransactionId : t.referenceTransactionId = v.referenceTransactionId
  resultBalance : t.resultBalance.map (fun m => (m.cents, m.currency)) = v.resultBalance

namespace Judging

/-- Between `s` and `s'` the unit stays with its transaction. -/
structure Frame (s s' : Judging) : Prop where
  aside : s'.aside = s.aside
  readings : s'.readings = s.readings
  asked : s'.asked = s.asked
  row : s'.row = s.row

theorem Frame.trans {s s' s'' : Judging} (h : s.Frame s') (h' : s'.Frame s'') : s.Frame s'' :=
  ⟨h'.aside.trans h.aside, h'.readings.trans h.readings, h'.asked.trans h.asked,
    h'.row.trans h.row⟩

theorem Frame.learn (s : Judging) (fact : Finding) : s.Frame (s.learn fact) := ⟨rfl, rfl, rfl, rfl⟩

/-- The transaction is written with the verdict, and its wallet moves accordingly. -/
structure Concludes (s : Judging) (p : WagerTransaction) (v : Verdict) : Prop where
  entries : s.entries.map WalletLedgerEntry.direction = v.movement.toList
  balance : ∀ e ∈ s.entries, some (e.balanceAfter.cents, e.balanceAfter.currency) = v.resultBalance
  written : p.Undecided → ∃ t ∈ s.written, t.Carries p v

/-- A verdict that moves nothing. -/
theorem Concludes.still {s : Judging} {p t : WagerTransaction} {v : Verdict} (h : s.entries = [])
    (hstill : v.movement = none) (ht : s.written = some t)
    (hcarries : p.Undecided → t.Carries p v) : s.Concludes p v where
  entries := by rw [h, hstill]; rfl
  balance := by rw [h]; exact fun e he => (List.not_mem_nil he).elim
  written := fun hp => ⟨t, ht, hcarries hp⟩

theorem Concludes.of_eq {s s' : Judging} {p : WagerTransaction} {v : Verdict}
    (h : s.Concludes p v) (hentries : s'.entries = s.entries) (hwritten : s'.written = s.written) :
    s'.Concludes p v :=
  ⟨hentries ▸ h.entries, hentries ▸ h.balance, hwritten ▸ h.written⟩

/-- From `s` on the unit has concluded `p`, and answers with what it has written. -/
structure Answers (s s' : Judging) (p : WagerTransaction) (v : Verdict)
    (result : SubmitWagerResult) : Prop where
  frame : s.Frame s'
  concludes : s'.Concludes p v
  result : ∃ t ∈ s'.written, result = resultOf t false

theorem Answers.of_learn {s s' : Judging} {fact : Finding} {p : WagerTransaction} {v : Verdict}
    {result : SubmitWagerResult} (h : (s.learn fact).Answers s' p v result) :
    s.Answers s' p v result :=
  { h with frame := (Frame.learn s fact).trans h.frame }

/-- The unit is about to write the transaction in its hand. -/
structure Ready (s : Judging) (p : WagerTransaction) : Prop where
  row : s.row = some p
  written : s.written = none
  entries : s.entries = []

theorem Ready.learn {s : Judging} {p : WagerTransaction} (h : s.Ready p) (fact : Finding) :
    (s.learn fact).Ready p :=
  ⟨h.row, h.written, h.entries⟩

end Judging

variable {s : Judging} {Q : Judging → α → Prop}

/-- The code goes on from `s` as the typestate allows, and ends in `Q`. -/
abbrev Judges (code : Code α) (Q : Judging → α → Prop) (s : Judging) : Prop :=
  code.Testifies judging Q (fun _ _ => True) s

theorem judges_call {op : Op} {f : op.Answer → Code α} (hallows : s.Allows op)
    (h : ∀ answer, Judges (f answer) Q (s.next op answer)) : Judges (call op >>= f) Q s :=
  Program.testifies_call hallows h

theorem judges_domain {x : Except DomainError β} {f : β → Code α}
    (h : ∀ a, x = .ok a → Judges (f a) Q s) : Judges (domain x >>= f) Q s :=
  testifies_domain h fun _ => trivial

/-! ## Transitions -/

variable {p t : WagerTransaction} {now : Instant}

theorem markProcessed_carries {reference : Option Text} {balance : Money}
    (h : p.markProcessed reference balance now = .ok t) (hp : p.Undecided)
    (movement : Option LedgerDirection) :
    t.Carries p (.processed reference (balance.cents, balance.currency) movement) := by
  obtain ⟨u, -, h⟩ := bind_ok h
  cases h
  exact ⟨rfl, rfl, hp.unfailed, rfl, rfl⟩

theorem markPendingReference_carries {balance : Money} {next expires : Instant}
    (h : p.markPendingReference balance next expires = .ok t) (hp : p.Undecided) :
    t.Carries p (.waits (balance.cents, balance.currency)) := by
  obtain ⟨u, -, h⟩ := bind_ok h
  split at h
  · cases h
  · cases h
    exact ⟨rfl, rfl, hp.unfailed, hp.unlinked, rfl⟩

theorem reject_carries {code : FailureCode} {balance : Option Money}
    (h : p.reject code balance now = .ok t) (hp : p.Undecided) :
    t.Carries p (.refused code (balance.map fun m => (m.cents, m.currency))) := by
  obtain ⟨u, -, h⟩ := bind_ok h
  split at h
  · cases h
  · split at h
    · cases h
    · split at h
      · cases h
      · cases h
        exact ⟨rfl, rfl, rfl, hp.unlinked, rfl⟩

/-! ## Decisions -/

variable {w : Wallet} {context : EventContext} {command : SubmitWagerCommand}

theorem judges_process {wallet : Wallet} {entry : Option WalletLedgerEntry}
    {reference : Option Text} (h : s.Ready p)
    (hbalance : ∀ e ∈ entry, e.balanceAfter = wallet.balance) :
    Judges (process p wallet entry now context reference) (fun s' result =>
      s.Answers s' p (.processed reference (wallet.balance.cents, wallet.balance.currency)
        (entry.map WalletLedgerEntry.direction)) result ∧ s'.facts = s.facts) s := by
  refine judges_domain fun t ht => ?_
  have hcarries := fun hp => markProcessed_carries ht hp (entry.map WalletLedgerEntry.direction)
  have hid : t.id = p.id := by
    obtain ⟨u, -, ht⟩ := bind_ok ht
    cases ht
    rfl
  refine judges_call (.inr ⟨h.written, p, h.row, hid⟩) fun _ => ?_
  cases entry with
  | none =>
    refine judges_call trivial fun _ => ⟨⟨⟨rfl, rfl, rfl, rfl⟩, ?_, t, rfl, rfl⟩, rfl⟩
    exact .still h.entries rfl rfl hcarries
  | some entry =>
    refine judges_call trivial fun _ => judges_call (.inr rfl) fun _ => ?_
    refine judges_call trivial fun eventId => judges_call trivial fun _ => ?_
    refine ⟨⟨⟨rfl, rfl, rfl, rfl⟩, ?_, t, rfl, rfl⟩, rfl⟩
    refine ⟨?_, fun e he => ?_, fun hp => ⟨t, rfl, hcarries hp⟩⟩
    · change (s.entries ++ [entry]).map WalletLedgerEntry.direction = [entry.direction]
      rw [h.entries]
      rfl
    · change e ∈ s.entries ++ [entry] at he
      rw [h.entries] at he
      obtain rfl := List.mem_singleton.mp he
      rw [hbalance e rfl]
      rfl

theorem judges_reject {code : FailureCode} {balance : Option Money} (h : s.Ready p) :
    Judges (reject p code balance now context) (fun s' result =>
      s.Answers s' p (.refused code (balance.map fun m => (m.cents, m.currency))) result ∧
        s'.facts = s.facts) s := by
  refine judges_domain fun t ht => ?_
  have hcarries := fun hp => reject_carries ht hp
  refine judges_call (.inr ⟨h.written, p, h.row, (reject_shows ht).id⟩) fun _ => ?_
  refine judges_call trivial fun _ => ⟨⟨⟨rfl, rfl, rfl, rfl⟩, ?_, t, rfl, rfl⟩, rfl⟩
  exact .still h.entries rfl rfl hcarries

/-- The balance of a wallet that a row can hold, as its row shows it. -/
theorem Wallet.Storable.shown (h : w.Storable) :
    (toWalletRow w).shown = (w.balance.cents, w.balance.currency) := by
  rw [h.currency]
  rfl

/-- A guarded movement of the wallet in hand. -/
theorem judges_movement {direction : LedgerDirection} {reference : Option Text}
    (h : s.Ready p) :
    Judges (do
      match ← domain (movementFailure w p direction) with
      | some rejection => reject p rejection (some w.balance) now context
      | none => do
        let (entry, wallet) ← move w p direction now
        process p wallet (some entry) now context reference) (fun s' result =>
      s'.facts = s.facts ∧ ∃ v, s.Answers s' p v result ∧ (w.Storable → p.Undecided →
        (toWagerTransactionRow p).judgeMovement (toWalletRow w) direction reference = v)) s := by
  refine judges_domain fun failure hfailure => ?_
  have hguard := fun (hw : w.Storable) (hp : p.Undecided) =>
    judgeMovement_guard hw hp.positive hfailure reference
  cases failure with
  | some code =>
    refine Program.testifies_mono (judges_reject h) (fun s' result hs' => ?_) fun _ _ h => h
    refine ⟨hs'.2, _, hs'.1, fun hw hp => ?_⟩
    rw [hguard hw hp, hw.shown]
    rfl
  | none =>
    refine judges_call trivial fun entryId => judges_domain fun moved hmoved => ?_
    rcases moved with ⟨entry, wallet⟩
    obtain ⟨hdirection, hafter, hcents, same⟩ := move_leaves hmoved
    have hready : (s.next .nextId entryId).Ready p := ⟨h.row, h.written, h.entries⟩
    have hbalance : ∀ e ∈ some entry, e.balanceAfter = wallet.balance :=
      fun e he => Option.some.inj he ▸ hafter
    refine Program.testifies_mono (judges_process hready hbalance) (fun s' result hs' => ?_)
      fun _ _ h => h
    refine ⟨hs'.2, _, ⟨hs'.1.frame, hs'.1.concludes, hs'.1.result⟩, fun hw hp => ?_⟩
    rw [hguard hw hp]
    simp only [Verdict.guarded, Option.map_some, hdirection, hcents, same.currency, hw.currency]

/-- What is known of the reference stays known, if it matters still. -/
def Judging.Keeps (s s' : Judging) (reference : WagerTransaction) : Prop :=
  ∀ f ∈ s.facts, (reference.isTerminal = true → f.lasts = true) → f ∈ s'.facts

theorem Judging.Keeps.of_eq {s s' : Judging} {reference : WagerTransaction}
    (h : s'.facts = s.facts) : s.Keeps s' reference :=
  fun _ hf _ => h ▸ hf

theorem judges_applyResolvedReversal {reference : WagerTransaction} (h : s.Ready p) :
    Judges (applyResolvedReversal p reference w now context) (fun s' result =>
      s.Keeps s' reference ∧ ∃ v, s.Answers s' p v result ∧ ∀ snap, s'.Shown snap →
        w.Storable → p.Undecided → (toWagerTransactionRow p).judgeReversal
          (toWagerTransactionRow reference) (toWalletRow w) (snap.reversed reference.id) = v) s := by
  refine judges_domain fun failure hfailure => ?_
  cases failure with
  | some code =>
    refine Program.testifies_mono (judges_reject h) (fun s' result hs' => ?_) fun _ _ h => h
    refine ⟨.of_eq hs'.2, _, hs'.1, fun snap _ hw _ => ?_⟩
    rw [judgeReversal_rules hfailure, hw.shown]
    rfl
  | none =>
    obtain ⟨hkind, bound, -⟩ := reversalFailure_eq_none.mp hfailure
    -- a reference that passes the rules is settled, so what is known of it lasts
    have hterminal : reference.isTerminal = true := by
      rw [WagerTransaction.isTerminal, bound.processed]
      rfl
    refine judges_call (.inr h.written) fun reversed => ?_
    have hready : (s.next (.hasActiveReversal reference.id) reversed).Ready p := h.learn _
    have hkeeps : ∀ {s' : Judging},
        s'.facts = (s.next (.hasActiveReversal reference.id) reversed).facts →
        s.Keeps s' reference ∧ Finding.reversed reference.id reversed ∈ s'.facts := by
      intro s' hfacts
      rw [hfacts]
      refine ⟨fun f hf hlasts => hfacts ▸ ?_, List.mem_cons_self⟩
      exact List.mem_cons_of_mem _ (List.mem_filter.mpr ⟨hf, hlasts hterminal⟩)
    split
    · rename_i htrue
      refine Program.testifies_mono (judges_reject hready) (fun s' result hs' => ?_) fun _ _ h => h
      obtain ⟨hkept, hknown⟩ := hkeeps hs'.2
      refine ⟨hkept, _, hs'.1.of_learn, fun snap hshown hw _ => ?_⟩
      rw [judgeReversal_rules hfailure, show snap.reversed reference.id = true from
        (hshown _ hknown).trans htrue, hw.shown]
      rfl
    · rename_i hfalse
      refine judges_domain fun direction hdirection => ?_
      refine Program.testifies_mono (judges_movement hready) (fun s' result hs' => ?_)
        fun _ _ h => h
      obtain ⟨hkept, hknown⟩ := hkeeps hs'.1
      obtain ⟨v, hanswers, hjudge⟩ := hs'.2
      refine ⟨hkept, v, hanswers.of_learn, fun snap hshown hw hp => ?_⟩
      rw [judgeReversal_rules hfailure, show snap.reversed reference.id = false from
        (hshown _ hknown).trans (Bool.not_eq_true _ ▸ hfalse), ← hjudge hw hp,
        ledgerDirectionFor_undoes hkind hdirection]
      rfl

/-! ## Submissions -/

/-- What the unit was told of the wallet in its hand. -/
def Judging.Knows (s : Judging) (walletId : Text) (w : Wallet) : Prop :=
  Finding.wallet walletId (some w) ∈ s.facts

theorem Judging.Knows.learn {walletId : Text} (h : s.Knows walletId w) (fact : Finding) :
    (s.learn fact).Knows walletId w :=
  List.mem_cons_of_mem _ (List.mem_filter.mpr ⟨h, rfl⟩)

theorem Judging.Knows.of_eq {s' : Judging} {walletId : Text} (h : s.Knows walletId w)
    (hfacts : s'.facts = s.facts) : s'.Knows walletId w := by
  unfold Judging.Knows
  rwa [hfacts]

theorem Judging.Shown.of_eq {s' : Judging} {snap : Snapshot} (h : s'.Shown snap)
    (hfacts : s'.facts = s.facts) : s.Shown snap :=
  fun f hf => h f (hfacts ▸ hf)

theorem Judging.Shown.wallet {snap : Snapshot} {walletId : Text} (h : s.Shown snap)
    (hknows : s.Knows walletId w) : snap.wallet walletId = some (toWalletRow w) ∧ w.Storable := by
  obtain ⟨hwallet, hstorable⟩ := h _ hknows
  exact ⟨hwallet, hstorable w rfl⟩

/-- The transaction is judged as any snapshot has it that shows the facts, by the
wallet in hand if its verdict shows one. -/
def Judging.Judged (s s' : Judging) (walletId playerId : Text) (p : WagerTransaction)
    (result : SubmitWagerResult) : Prop :=
  ∃ v, s.Answers s' p v result ∧ (v.resultBalance.isSome = true → ∃ w, s'.Knows walletId w) ∧
    ∀ snap, s'.Shown snap → p.Undecided →
      snap.judge walletId playerId (toWagerTransactionRow p) = v

/-- The reference that the lookup found, once it is decidable. -/
theorem Snapshot.decidable_eq {snap : Snapshot} {found : Option WagerTransaction}
    (h : snap.reference (toWagerTransactionRow p) = found.map toWagerTransactionRow) :
    snap.decidable (toWagerTransactionRow p) =
      (found.filter (isDecidable p)).map toWagerTransactionRow := by
  unfold Snapshot.decidable
  rw [h, Option.filter_map]
  rfl

theorem judges_applyReversal {walletId : Text} {playerId : Text} (h : s.Ready p)
    (hknows : s.Knows walletId w) (hplayer : w.playerId = playerId)
    (hcurrency : w.currency = p.money.currency) (hkind : p.kind.isReversal = true) :
    Judges (applyReversal p w now context)
      (fun s' result => s.Judged s' walletId playerId p result) s := by
  refine judges_call (.inr h.written) fun found => ?_
  have hready := h.learn
    (.transaction p.providerId (p.referenceExternalTransactionId.getD []) found)
  have hknown := hknows.learn
    (.transaction p.providerId (p.referenceExternalTransactionId.getD []) found)
  cases hfilter : found.filter (isDecidable p) with
  | none =>
    refine judges_domain fun t ht => ?_
    have hcarries := fun hp => markPendingReference_carries ht hp
    refine judges_call (.inr ⟨h.written, p, h.row, (markPendingReference_shows ht).id⟩) fun _ => ?_
    refine judges_call trivial fun _ => ⟨.waits (w.balance.cents, w.balance.currency),
      ⟨⟨rfl, rfl, rfl, rfl⟩, ?_, t, rfl, rfl⟩, fun _ => ⟨w, hknown⟩, fun snap hshown hp => ?_⟩
    · exact .still h.entries rfl rfl hcarries
    · obtain ⟨hwallet, hstorable⟩ := hshown.wallet hknown
      rw [Snapshot.judge_reversal (t := toWagerTransactionRow p) hwallet hplayer hcurrency hkind,
        Snapshot.decidable_eq (hshown _ List.mem_cons_self), hfilter, ← hstorable.shown]
      rfl
  | some r =>
    have hmem : Finding.transaction p.providerId (p.referenceExternalTransactionId.getD []) found ∈
        (s.learn (.transaction p.providerId (p.referenceExternalTransactionId.getD [])
          found)).facts := List.mem_cons_self
    refine Program.testifies_mono (judges_applyResolvedReversal hready) (fun s' result hs' => ?_)
      fun _ _ h => h
    obtain ⟨hkept, v, hanswers, hverdict⟩ := hs'
    refine ⟨v, hanswers.of_learn, fun _ => ⟨w, hkept _ hknown fun _ => rfl⟩,
      fun snap hshown hp => ?_⟩
    obtain ⟨hfound, -⟩ := Option.filter_eq_some_iff.mp hfilter
    have hlasts : r.isTerminal = true → (Finding.transaction p.providerId
        (p.referenceExternalTransactionId.getD []) found).lasts = true := by
      intro hterminal
      rw [hfound]
      exact hterminal
    obtain ⟨hwallet, hstorable⟩ := hshown.wallet (hkept _ hknown fun _ => rfl)
    rw [Snapshot.judge_reversal (t := toWagerTransactionRow p) hwallet hplayer hcurrency hkind,
      Snapshot.decidable_eq (hshown _ (hkept _ hmem hlasts)), hfilter]
    exact hverdict snap hshown hstorable hp

/-- The link of a WIN that a lookup found a transaction for. -/
theorem Snapshot.link_eq {snap : Snapshot} {external : Text} {found : Option WagerTransaction}
    (hkind : p.kind = .win) (hexternal : p.referenceExternalTransactionId = some external)
    (h : snap.Shows (.transaction p.providerId external found)) :
    snap.link (toWagerTransactionRow p) =
      match found.filter (isDecidable p) with
      | none => .ok none
      | some r =>
        match winReferenceFailure p r with
        | some code => .error code
        | none => .ok (some r.id) := by
  have href : snap.reference (toWagerTransactionRow p) = found.map toWagerTransactionRow := by
    unfold Snapshot.reference
    rw [show (toWagerTransactionRow p).referenceExternalTransactionId = some external from hexternal]
    exact h
  unfold Snapshot.link
  rw [if_pos (show (toWagerTransactionRow p).kind = .win ∧
    (toWagerTransactionRow p).referenceExternalTransactionId.isSome = true from
      ⟨hkind, congrArg Option.isSome hexternal⟩), Snapshot.decidable_eq href]
  cases found.filter (isDecidable p) with
  | none => rfl
  | some r =>
    simp only [Option.map_some, winReferenceFailure]
    by_cases hbet : r.kind = .bet
    · rw [if_neg (show ¬ (toWagerTransactionRow r).kind ≠ .bet from not_not.mpr hbet),
        if_neg (not_not.mpr hbet), ← bindingFailure_row]
      cases bindingFailure p r <;> rfl
    · rw [if_pos (show (toWagerTransactionRow r).kind ≠ .bet from hbet), if_pos hbet]

/-- `resolveOptionalReference`: the unit goes on with the link that any snapshot
finds which shows what it has learned. -/
theorem judges_resolveOptionalReference {f : Except FailureCode (Option Text) → Code α}
    {walletId : Text} (h : s.Ready p) (hknows : s.Knows walletId w)
    (hf : ∀ s' link, s.Frame s' → s'.Ready p → s'.Knows walletId w →
      (∀ snap, s'.Shown snap → snap.link (toWagerTransactionRow p) = link) →
      Judges (f link) Q s') : Judges (resolveOptionalReference p >>= f) Q s := by
  refine Program.testifies_bind ?_
  unfold resolveOptionalReference
  split
  case h_1 external hkind hexternal =>
    refine judges_call (.inr h.written) fun found => ?_
    have hgoes : ∀ link, (∀ snap : Snapshot, snap.Shows (.transaction p.providerId external found) →
        snap.link (toWagerTransactionRow p) = link) →
        Judges (f link) Q (s.learn (.transaction p.providerId external found)) :=
      fun link hlink => hf _ link (Judging.Frame.learn s _) (h.learn _) (hknows.learn _)
        fun snap hshown => hlink snap (hshown _ List.mem_cons_self)
    have hlink := fun snap : Snapshot => @Snapshot.link_eq _ p snap external found hkind hexternal
    cases hfilter : found.filter (isDecidable p) with
    | none =>
      simp only [hfilter] at hlink
      exact hgoes _ hlink
    | some r =>
      cases hfailure : winReferenceFailure p r with
      | some code =>
        simp only [hfilter, hfailure] at hlink ⊢
        exact hgoes _ hlink
      | none =>
        simp only [hfilter, hfailure] at hlink ⊢
        exact hgoes _ hlink
  case h_2 hnot =>
    refine hf s _ ⟨rfl, rfl, rfl, rfl⟩ h hknows fun snap _ => if_neg ?_
    rintro ⟨hkind, hsome⟩
    obtain ⟨external, hexternal⟩ := Option.isSome_iff_exists.mp hsome
    exact hnot external hkind hexternal

theorem judges_applyLocked (h : s.Ready p) (hknows : s.Knows command.walletId w) :
    Judges (applyLocked p command now context w)
      (fun s' result => s.Judged s' command.walletId command.playerId p result) s := by
  have hwallet : ∀ {s' : Judging} {snap : Snapshot}, s'.facts = s.facts → s'.Shown snap →
      snap.wallet command.walletId = some (toWalletRow w) ∧ w.Storable := by
    intro s' snap hfacts hshown
    exact hshown.wallet (hknows.of_eq hfacts)
  unfold applyLocked
  split
  · rename_i hplayer
    refine Program.testifies_mono (judges_reject h) (fun s' result hs' => ?_) fun _ _ h => h
    refine ⟨_, hs'.1, fun _ => ⟨w, hknows.of_eq hs'.2⟩, fun snap hshown _ => ?_⟩
    exact Snapshot.judge_foreign (hwallet hs'.2 hshown).1 hplayer
  rename_i hplayer
  split
  · rename_i hcurrency
    refine Program.testifies_mono (judges_reject h) (fun s' result hs' => ?_) fun _ _ h => h
    refine ⟨_, hs'.1, fun _ => ⟨w, hknows.of_eq hs'.2⟩, fun snap hshown _ => ?_⟩
    obtain ⟨hsnap, hstorable⟩ := hwallet hs'.2 hshown
    rw [Snapshot.judge_currency (t := toWagerTransactionRow p) hsnap (not_not.mp hplayer)
      hcurrency, hstorable.shown]
    rfl
  rename_i hcurrency
  split
  · rename_i hkind
    exact judges_applyReversal h hknows (not_not.mp hplayer) (not_not.mp hcurrency) hkind
  rename_i hkind
  split
  · rename_i hloss
    have hdirection : p.kind.baseDirection = none := by
      have : p.kind = .loss := by simpa [WagerTransaction.affectsBalance] using hloss
      rw [this]
      rfl
    refine Program.testifies_mono (judges_process h fun e he => by cases he)
      (fun s' result hs' => ?_) fun _ _ h => h
    refine ⟨_, hs'.1, fun _ => ⟨w, hknows.of_eq hs'.2⟩, fun snap hshown _ => ?_⟩
    obtain ⟨hsnap, hstorable⟩ := hwallet hs'.2 hshown
    rw [Snapshot.judge_direct (t := toWagerTransactionRow p) hsnap (not_not.mp hplayer)
        (not_not.mp hcurrency) hkind,
      show (toWagerTransactionRow p).kind.baseDirection = none from hdirection, hstorable.shown]
    rfl
  rename_i hmoves
  refine judges_resolveOptionalReference h hknows fun s₁ link hframe hready hknown hlink => ?_
  have hloss : p.kind ≠ .loss := by simpa [WagerTransaction.affectsBalance] using hmoves
  have hreversal : p.kind.isReversal = false := by
    simpa [WagerTransaction.requiresReference] using hkind
  obtain ⟨direction, hdirection, hbase⟩ := ledgerDirection_ok hloss hreversal
  have hanswers : ∀ {s' : Judging} {v : Verdict} {result : SubmitWagerResult},
      s₁.Answers s' p v result → s.Answers s' p v result :=
    fun h => { h with frame := hframe.trans h.frame }
  cases link with
  | error code =>
    refine Program.testifies_mono (judges_reject hready) (fun s' result hs' => ?_) fun _ _ h => h
    refine ⟨_, hanswers hs'.1, fun _ => ⟨w, hknown.of_eq hs'.2⟩, fun snap hshown _ => ?_⟩
    obtain ⟨hsnap, hstorable⟩ := hshown.wallet (hknown.of_eq hs'.2)
    rw [Snapshot.judge_direct (t := toWagerTransactionRow p) hsnap (not_not.mp hplayer)
        (not_not.mp hcurrency) hkind,
      show (toWagerTransactionRow p).kind.baseDirection = some direction from hbase,
      hlink snap (hshown.of_eq hs'.2), hstorable.shown]
    rfl
  | ok reference =>
    simp only [hdirection, domain_ok, Program.pure_ctor_bind_eq]
    refine Program.testifies_mono (judges_movement hready) (fun s' result hs' => ?_) fun _ _ h => h
    obtain ⟨hfacts, v, hv, hverdict⟩ := hs'
    refine ⟨v, hanswers hv, fun _ => ⟨w, hknown.of_eq hfacts⟩, fun snap hshown hp => ?_⟩
    obtain ⟨hsnap, hstorable⟩ := hshown.wallet (hknown.of_eq hfacts)
    rw [Snapshot.judge_direct (t := toWagerTransactionRow p) hsnap (not_not.mp hplayer)
        (not_not.mp hcurrency) hkind,
      show (toWagerTransactionRow p).kind.baseDirection = some direction from hbase,
      hlink snap (hshown.of_eq hfacts)]
    exact hverdict hstorable hp

/-- `apply`, of the transaction that was reserved. -/
theorem judges_apply (h : s.Ready p) :
    Judges (apply p command now)
      (fun s' result => s.Judged s' command.walletId command.playerId p result) s := by
  refine judges_call trivial fun eventId => judges_call (.inr h.written) fun wallet => ?_
  have hready : (s.learn (.wallet command.walletId wallet)).Ready p := h.learn _
  cases wallet with
  | none =>
    refine Program.testifies_mono (judges_reject hready) (fun s' result hs' => ?_) fun _ _ h => h
    refine ⟨_, hs'.1.of_learn, fun hshows => (Bool.false_ne_true hshows).elim,
      fun snap hshown _ => ?_⟩
    have hwallet : Finding.wallet command.walletId none ∈ s'.facts := hs'.2 ▸ List.mem_cons_self
    exact Snapshot.judge_missing (hshown _ hwallet).1
  | some wallet =>
    refine Program.testifies_mono (judges_applyLocked hready List.mem_cons_self)
      (fun s' result hs' => ?_) fun _ _ h => h
    obtain ⟨v, hanswers, hjudge⟩ := hs'
    exact ⟨v, hanswers.of_learn, hjudge⟩

/-- The command asks for this transaction. -/
def SubmitWagerCommand.AsksFor (command : SubmitWagerCommand) (t : WagerTransaction) : Prop :=
  ∃ id money now, Money.from command.money = .ok money ∧
    WagerTransaction.create (command.props id money now) = .ok t

/-- If the unit reserved a transaction, it was judged as any snapshot has it that
shows the answers, by the wallet in hand if it shows one; if not, the answer is a
replay. -/
structure Judging.Decided (s : Judging) (command : SubmitWagerCommand)
    (result : SubmitWagerResult) : Prop where
  aside : s.aside = false
  replayed : s.row = none → result.idempotentReplay = true
  decided : ∀ p ∈ s.row, ∃ asked ∈ s.asked, command.AsksFor asked ∧
    ∃ v, s.Concludes p v ∧ (∃ t ∈ s.written, result = resultOf t false) ∧
      (v.resultBalance.isSome = true → ∃ w, s.Knows command.walletId w) ∧
      ∀ snap, s.Shown snap → p.Undecided →
        snap.judge command.walletId command.playerId (toWagerTransactionRow p) = v

theorem judges_resolveExisting {payloadHash : Text} (haside : s.aside = false) (h : s.Blank) :
    Judges (resolveExisting command payloadHash)
      (fun s' result => s'.Decided command result) s := by
  refine judges_call trivial fun byKey => ?_
  cases byKey with
  | some byKey =>
    simp only
    split
    · exact trivial
    · refine ⟨haside, fun _ => rfl, fun p hp => ?_⟩
      rw [show (s.next (.findByIdempotencyKey command.providerId command.idempotencyKey)
        (some byKey)).row = none from h.row] at hp
      cases hp
  | none =>
    refine judges_call (.inr h.written) fun byExternal => ?_
    cases byExternal <;> exact trivial

theorem judges_executeWithin (haside : s.aside = false) (h : s.Blank) :
    Judges (executeWithin command) (fun s' result => s'.Decided command result) s := by
  refine judges_domain fun money hmoney => ?_
  split
  · exact trivial
  · refine judges_call trivial fun now => judges_call trivial fun id => ?_
    refine judges_domain fun asked hasked => ?_
    have hblank : ((s.next .now now).next .nextId id).Blank :=
      ⟨h.row, h.asked, h.facts, h.written, h.entries⟩
    refine judges_call (.inr hblank) fun owned => ?_
    cases owned with
    | none => exact judges_resolveExisting haside hblank
    | some owned =>
      refine Program.testifies_mono (judges_apply ⟨rfl, h.written, h.entries⟩)
        (fun s' result hs' => ?_) fun _ _ h => h
      obtain ⟨v, hanswers, hjudge⟩ := hs'
      refine ⟨hanswers.frame.aside.trans haside, fun hnone => ?_, fun p hp => ?_⟩
      · cases hanswers.frame.row.symm.trans hnone
      obtain rfl := Option.some.inj (hanswers.frame.row.symm.trans hp)
      exact ⟨asked, hanswers.frame.asked, ⟨id, money, now, hmoney, hasked⟩, v,
        hanswers.concludes, hanswers.result, hjudge⟩

theorem judges_consumeWithin (delivery : InboxDelivery) :
    Judges (consumeWithin delivery command) (fun s' outcome =>
      ∀ result, outcome = .processed result → s'.Decided command result) .start := by
  refine judges_call trivial fun receivedAt => judges_call trivial fun reserved => ?_
  cases reserved with
  | none =>
    refine judges_call trivial fun existing => ?_
    cases existing with
    | none => exact fun result h => by cases h
    | some existing =>
      simp only
      split
      · exact fun result h => by cases h
      · split
        all_goals exact fun result h => by cases h
  | some reserved =>
    refine Program.testifies_bind (Program.testifies_mono
      (judges_executeWithin rfl ⟨rfl, rfl, rfl, rfl, rfl⟩) (fun s' result hs' => ?_)
      fun _ _ h => h)
    refine judges_call trivial fun processedAt => judges_call trivial fun _ result' heq => ?_
    cases heq
    refine ⟨hs'.aside, hs'.replayed, fun p hp => ?_⟩
    obtain ⟨asked, hasked, hasks, v, hconcludes, hresult, hknows, hjudge⟩ := hs'.decided p hp
    exact ⟨asked, hasked, hasks, v, hconcludes.of_eq rfl rfl, hresult, hknows, hjudge⟩

/-! ## The worker -/

variable {found : Option WagerTransaction} {snap : Snapshot}

/-- The lookup of the transaction that `p` refers to. -/
abbrev WagerTransaction.lookup (p : WagerTransaction) (found : Option WagerTransaction) : Finding :=
  .transaction p.providerId (p.referenceExternalTransactionId.getD []) found

/-- The settled reference that the lookup found. -/
theorem Snapshot.settled_eq (h : snap.Shows (p.lookup found)) :
    snap.settled (toWagerTransactionRow p) =
      (found.filter referenceIsSettled).map toWagerTransactionRow := by
  have hreference : snap.reference (toWagerTransactionRow p) = found.map toWagerTransactionRow := h
  unfold Snapshot.settled
  rw [hreference, Option.filter_map]
  rfl

/-- A reversal that may wait. -/
theorem Snapshot.judgeLate_waits (h : snap.Shows (p.lookup found))
    (hwaits : (!found.any referenceIsSettled && !isExhausted p now) = true) :
    snap.judgeLate now (toWagerTransactionRow p) = none := by
  unfold Snapshot.judgeLate
  rw [Snapshot.settled_eq h, Option.isNone_map, Option.isNone_filter]
  cases found <;> exact if_pos hwaits

/-- A reversal that was due is due still: a settled reference stays. -/
theorem Snapshot.judgeLate_due
    (hdue : ¬ (!found.any referenceIsSettled && !isExhausted p now) = true)
    (hstill : found.any referenceIsSettled = true → snap.Shows (p.lookup found)) :
    snap.judgeLate now (toWagerTransactionRow p) =
      some (snap.judgeDue (toWagerTransactionRow p)) := by
  unfold Snapshot.judgeLate
  refine if_neg fun hwaits => hdue ?_
  rw [Bool.and_eq_true] at hwaits ⊢
  refine ⟨?_, hwaits.2⟩
  cases hsettled : found.any referenceIsSettled with
  | false => rfl
  | true =>
    rw [Snapshot.settled_eq (hstill hsettled), Option.isNone_map, Option.isNone_filter] at hwaits
    cases found with
    | none => cases hsettled
    | some r =>
      have hr : referenceIsSettled r = true := hsettled
      simp [hr] at hwaits

/-- The waiting reversal was judged as any snapshot has it that shows the answers,
by the wallet in hand if its verdict shows one, or it goes on waiting. -/
structure Judging.Resolved (s : Judging) (outcome : PendingReferenceOutcome) : Prop where
  aside : s.aside = false
  idle : s.row = none → outcome = .idle
  resolved : ∀ p ∈ s.row, s.asked = none ∧ ∃ now, s.readings = [now] ∧ ∃ verdict,
    (∀ snap, s.Shown snap → p.Undecided →
      snap.judgeLate now (toWagerTransactionRow p) = verdict) ∧
    match verdict with
    | none => s.entries = [] ∧
        (∃ next, s.written =
          some { p with attempts := p.attempts + 1, nextAttemptAt := some next }) ∧
        outcome = .rescheduled p.id p.walletId p.providerId p.correlationId (p.attempts + 1)
    | some v => s.Concludes p v ∧
        (p.Undecided → outcome = settledOutcome p v.status v.failureCode) ∧
        (v.resultBalance.isSome = true → ∃ w, s.Knows p.walletId w)

theorem WagerTransaction.Carries.outcome {v : Verdict} (h : t.Carries p v) :
    settledOutcome t t.status t.failureCode = settledOutcome p v.status v.failureCode := by
  unfold settledOutcome
  rw [h.same, h.status, h.failureCode]

/-- A rejection by the worker. -/
theorem judges_recordRejected {code : FailureCode} {balance : Option Money} (h : s.Ready p)
    (ht : p.reject code balance now = .ok t) :
    Judges (recordRejected t now context) (fun s' outcome => s.Frame s' ∧ s'.facts = s.facts ∧
      s'.Concludes p (.refused code (balance.map fun m => (m.cents, m.currency))) ∧
      (p.Undecided → outcome = settledOutcome p .rejected (some code))) s := by
  refine judges_call (.inr ⟨h.written, p, h.row, (reject_shows ht).id⟩) fun _ => ?_
  refine judges_call trivial fun _ => ⟨⟨rfl, rfl, rfl, rfl⟩, rfl, ?_, fun hp => ?_⟩
  · exact .still h.entries rfl rfl (reject_carries ht)
  · exact (reject_carries ht hp).outcome

/-- `rescheduleReference`, where no settled reference was found. -/
theorem judges_rescheduleReference (h : s.Ready p) (haside : s.aside = false)
    (hasked : s.asked = none) (hnow : s.readings = [now]) (hfound : p.lookup found ∈ s.facts)
    (hwaits : (!found.any referenceIsSettled && !isExhausted p now) = true) :
    Judges (rescheduleReference p now) (fun s' outcome => s'.Resolved outcome) s := by
  refine judges_call trivial fun jitter => judges_domain fun t ht => ?_
  have hretried : ∃ next,
      t = { p with attempts := p.attempts + 1, nextAttemptAt := some next } := by
    unfold WagerTransaction.scheduleRetry at ht
    split at ht
    · cases ht
    · cases ht
      exact ⟨_, rfl⟩
  obtain ⟨next, rfl⟩ := hretried
  refine judges_call (.inr ⟨h.written, p, h.row, rfl⟩) fun _ =>
    ⟨haside, fun hnone => (Option.some_ne_none _ (h.row.symm.trans hnone)).elim, fun p' hp' => ?_⟩
  obtain rfl := Option.some.inj (h.row.symm.trans hp')
  exact ⟨hasked, now, hnow, none, fun snap hshown _ =>
    Snapshot.judgeLate_waits (hshown _ hfound) hwaits, h.entries, ⟨next, rfl⟩, rfl⟩

/-- `settle`, where a settled reference was found or the reversal is exhausted. -/
theorem judges_settle (h : s.Ready p) (haside : s.aside = false) (hasked : s.asked = none)
    (hnow : s.readings = [now]) (hfound : p.lookup found ∈ s.facts)
    (hdue : ¬ (!found.any referenceIsSettled && !isExhausted p now) = true) :
    Judges (settle p now) (fun s' outcome => s'.Resolved outcome) s := by
  -- a settled reference is still there when the unit has concluded
  have hresolved : ∀ {s' : Judging} {outcome : PendingReferenceOutcome} {v : Verdict},
      s.Frame s' → (found.any referenceIsSettled = true → p.lookup found ∈ s'.facts) →
      s'.Concludes p v → (p.Undecided → outcome = settledOutcome p v.status v.failureCode) →
      (v.resultBalance.isSome = true → ∃ w, s'.Knows p.walletId w) →
      (∀ snap, s'.Shown snap → p.Undecided → snap.judgeDue (toWagerTransactionRow p) = v) →
      s'.Resolved outcome := by
    intro s' outcome v hframe hstill hconcludes houtcome hknows hjudge
    have hrow := hframe.row.trans h.row
    refine ⟨hframe.aside.trans haside,
      fun hnone => (Option.some_ne_none _ (hrow.symm.trans hnone)).elim, fun p' hp' => ?_⟩
    obtain rfl := Option.some.inj (hrow.symm.trans hp')
    refine ⟨hframe.asked.trans hasked, now, hframe.readings.trans hnow, some v,
      fun snap hshown hp => ?_, hconcludes, houtcome, hknows⟩
    rw [Snapshot.judgeLate_due hdue fun hsettled => hshown _ (hstill hsettled),
      hjudge snap hshown hp]
  refine judges_call trivial fun eventId => judges_call (.inr h.written) fun wallet => ?_
  have hready : (s.learn (.wallet p.walletId wallet)).Ready p := h.learn _
  have hframe := Judging.Frame.learn s (.wallet p.walletId wallet)
  have hstill : found.any referenceIsSettled = true →
      p.lookup found ∈ (s.learn (.wallet p.walletId wallet)).facts := fun hsettled =>
    List.mem_cons_of_mem _ (List.mem_filter.mpr ⟨hfound, hsettled⟩)
  cases wallet with
  | none =>
    refine judges_domain fun t ht => ?_
    refine Program.testifies_mono (judges_recordRejected hready ht) (fun s' outcome hs' => ?_)
      fun _ _ h => h
    obtain ⟨hframe', hfacts, hconcludes, houtcome⟩ := hs'
    refine hresolved (hframe.trans hframe') (fun hsettled => hfacts ▸ hstill hsettled) hconcludes
      houtcome (fun hshows => (Bool.false_ne_true hshows).elim) fun snap hshown _ => ?_
    have hwallet : Finding.wallet p.walletId none ∈ s'.facts := hfacts ▸ List.mem_cons_self
    unfold Snapshot.judgeDue
    rw [show snap.wallet (toWagerTransactionRow p).walletId = none from (hshown _ hwallet).1]
    rfl
  | some wallet =>
    refine judges_call (.inr h.written) fun found' => ?_
    have hframe₂ := hframe.trans (Judging.Frame.learn _ (p.lookup found'))
    have hready₂ := hready.learn (p.lookup found')
    have hstill₂ : found.any referenceIsSettled = true → p.lookup found ∈
        ((s.learn (.wallet p.walletId (some wallet))).learn (p.lookup found')).facts :=
      fun hsettled => List.mem_cons_of_mem _ (List.mem_filter.mpr ⟨hstill hsettled, hsettled⟩)
    have hknown : ((s.learn (.wallet p.walletId (some wallet))).learn (p.lookup found')).Knows
        p.walletId wallet :=
      Judging.Knows.learn List.mem_cons_self _
    have hlooked : p.lookup found' ∈
        ((s.learn (.wallet p.walletId (some wallet))).learn (p.lookup found')).facts :=
      List.mem_cons_self
    have hjudge : ∀ {s' : Judging} {snap : Snapshot}, s'.Knows p.walletId wallet →
        p.lookup found' ∈ s'.facts → s'.Shown snap → wallet.Storable ∧
          snap.judgeDue (toWagerTransactionRow p) =
            match found'.filter referenceIsSettled with
            | none => .refused (if found'.isNone then .referenceNotFound else .referenceNotProcessed)
                (some (toWalletRow wallet).shown)
            | some r => (toWagerTransactionRow p).judgeReversal (toWagerTransactionRow r)
                (toWalletRow wallet) (snap.reversed r.id) := by
      intro s' snap hwallet hlookup hshown
      obtain ⟨hsnap, hstorable⟩ := hshown.wallet hwallet
      have hreference : snap.reference (toWagerTransactionRow p) =
          found'.map toWagerTransactionRow := hshown _ hlookup
      refine ⟨hstorable, ?_⟩
      unfold Snapshot.judgeDue
      rw [show snap.wallet (toWagerTransactionRow p).walletId = some (toWalletRow wallet) from hsnap,
        Snapshot.settled_eq (hshown _ hlookup), hreference, Option.isNone_map]
      cases found'.filter referenceIsSettled <;> rfl
    cases hfilter : found'.filter referenceIsSettled with
    | none =>
      refine judges_domain fun t ht => ?_
      refine Program.testifies_mono (judges_recordRejected hready₂ ht) (fun s' outcome hs' => ?_)
        fun _ _ h => h
      obtain ⟨hframe', hfacts, hconcludes, houtcome⟩ := hs'
      refine hresolved (hframe₂.trans hframe') (fun hsettled => hfacts ▸ hstill₂ hsettled)
        hconcludes houtcome (fun _ => ⟨wallet, hknown.of_eq hfacts⟩) fun snap hshown _ => ?_
      obtain ⟨hstorable, heq⟩ := hjudge (hknown.of_eq hfacts) (hfacts ▸ hlooked) hshown
      rw [heq, hfilter, hstorable.shown]
      rfl
    | some r =>
      refine Program.testifies_bind (Program.testifies_mono
        (judges_applyResolvedReversal hready₂) (fun s' result hs' => ?_) fun _ _ h => h)
      obtain ⟨hkept, v, hanswers, hverdict⟩ := hs'
      obtain ⟨hfound', hsettled'⟩ := Option.filter_eq_some_iff.mp hfilter
      have hlasts : (p.lookup found').lasts = true := by
        rw [hfound']
        exact hsettled'
      refine hresolved (hframe₂.trans hanswers.frame)
        (fun hsettled => hkept _ (hstill₂ hsettled) fun _ => hsettled) hanswers.concludes
        (fun hp => ?_) (fun _ => ⟨wallet, hkept _ hknown fun _ => rfl⟩) fun snap hshown hp => ?_
      · obtain ⟨t, hwritten, hcarries⟩ := hanswers.concludes.written hp
        obtain ⟨t', hwritten', rfl⟩ := hanswers.result
        obtain rfl := Option.some.inj (hwritten.symm.trans hwritten')
        have hid : t.id = p.id := by rw [hcarries.same]
        simp only [settledOutcome, resultOf, hid, hcarries.status, hcarries.failureCode]
      · obtain ⟨hstorable, heq⟩ := hjudge (hkept _ hknown fun _ => rfl)
          (hkept _ hlooked fun _ => hlasts) hshown
        rw [heq, hfilter]
        exact hverdict snap hshown hstorable hp

theorem judges_resolveDue : Judges resolveDue (fun s' outcome => s'.Resolved outcome) .start := by
  refine judges_call trivial fun now => ?_
  refine judges_call (.inr ⟨rfl, rfl, rfl, rfl, rfl⟩) fun pending => ?_
  cases pending with
  | none => exact ⟨rfl, fun _ => rfl, fun p hp => by cases hp⟩
  | some pending =>
    refine judges_call trivial fun _ => judges_call (.inr rfl) fun found => ?_
    split
    · rename_i hwaits
      exact judges_rescheduleReference ⟨rfl, rfl, rfl⟩ rfl rfl rfl List.mem_cons_self hwaits
    · rename_i hdue
      exact judges_settle ⟨rfl, rfl, rfl⟩ rfl rfl rfl List.mem_cons_self hdue

/-! ## Apart from the submissions -/

theorem Judging.next_aside {op : Op} {answer : op.Answer} (h : s.aside = true) :
    (s.next op answer).aside = true := by
  cases op
  case insertIfAbsent => rfl
  case lockWager => rfl
  case reserve => cases answer <;> exact h
  case lockDuePendingReference => cases answer <;> exact h
  all_goals exact h

/-- Nothing is said any more. -/
theorem judges_aside {code : Code α} (h : s.aside = true) :
    Judges code (fun s' _ => s'.aside = true) s := by
  refine Program.testifies_mono (Program.testifies_free (I := fun s : Judging => s.aside = true)
    (fun s op h => ?_) (fun s op answer h => Judging.next_aside h) h) (fun _ _ h => h)
    fun _ _ _ => trivial
  cases op
  case reserve => exact .inl h
  case lockDuePendingReference => exact .inl h
  case lockWallet => exact .inl h
  case findByExternalId => exact .inl h
  case hasActiveReversal => exact .inl h
  case updateWager => exact .inl h
  case updateWallet => exact .inl h
  all_goals exact trivial

theorem judges_createWallet (command : CreateWalletCommand) :
    Judges (createWallet command) (fun s' _ => s'.aside = true) .start := by
  refine judges_domain fun initialBalance _ => ?_
  refine judges_call trivial fun now => judges_call trivial fun walletId => ?_
  refine judges_call trivial fun openingTransactionId => ?_
  refine judges_call trivial fun openingEntryId => ?_
  refine judges_domain fun opening _ => ?_
  exact judges_call trivial fun created => judges_aside rfl

/-- The outcome of a reversal that is given up. -/
def PendingReferenceOutcome.GivenUp (outcome : PendingReferenceOutcome) : Prop :=
  ∃ t : WagerTransaction, outcome = settledOutcome t .failed (some .infrastructureFailure)

theorem judges_recordFailure (id : Text) (error : Failure) :
    Judges (recordFailure id error) (fun s' outcome => s'.aside = true ∧ outcome.GivenUp)
      .start := by
  refine judges_call trivial fun now => judges_call trivial fun pending => ?_
  cases pending with
  | none => exact trivial
  | some pending =>
    refine judges_call (.inl rfl) fun wallet => ?_
    cases wallet with
    | none => exact trivial
    | some wallet =>
      simp only
      split
      · exact trivial
      · refine judges_domain fun t ht => judges_call trivial fun eventId => ?_
        refine judges_call (.inl rfl) fun _ => judges_call trivial fun _ => ⟨rfl, t, ?_⟩
        obtain ⟨u, -, ht⟩ := bind_ok ht
        cases ht
        rfl

/-! ## The units -/

/-- What the answer of a unit says of what it has done. -/
def Entry.Judged (entry : Entry) (s : Judging) (a : Answer) : Prop :=
  match entry with
  | .createWallet _ => True
  | .submit command | .consume _ command => ∀ result ∈ a.result?, s.Decided command result
  | .resolvePending => ∃ outcome, a = .resolved outcome ∧
      (s.Resolved outcome ∨ s.aside = true ∧ outcome.GivenUp)

theorem afterResolve_judges [Driver] (l : Local) (r : Except Failure Answer) :
    (afterResolve l r).Testifies judging (Entry.resolvePending.Judged) fun _ _ => True := by
  unfold afterResolve
  split
  · exact trivial
  · split
    · exact trivial
    · split
      · exact trivial
      · refine ⟨Program.testifies_map (Program.testifies_mono (judges_recordFailure _ _)
          (fun s' outcome hs' => ?_) fun _ _ h => h), fun _ _ => trivial⟩
        exact ⟨outcome, rfl, .inr hs'⟩

/-- Every unit of work judges by what it was answered. -/
theorem units_judge [Driver] (entry : Entry) :
    (units entry).Testifies judging entry.Judged fun _ _ => True := by
  cases entry with
  | createWallet command =>
    refine ⟨Program.testifies_map (Program.testifies_mono (judges_createWallet command)
      (fun _ _ _ => trivial) fun _ _ h => h), fun _ _ => trivial⟩
  | submit command =>
    refine ⟨Program.testifies_map (Program.testifies_mono
      (judges_executeWithin rfl ⟨rfl, rfl, rfl, rfl, rfl⟩) (fun s' result hs' => ?_)
      fun _ _ h => h), fun _ _ => trivial⟩
    intro result' heq
    cases heq
    exact hs'
  | consume delivery command =>
    refine ⟨Program.testifies_map (Program.testifies_mono (judges_consumeWithin delivery)
      (fun s' outcome hs' => ?_) fun _ _ h => h), fun _ _ => trivial⟩
    intro result' heq
    cases outcome with
    | processed result =>
      cases heq
      exact hs' _ rfl
    | duplicate => cases heq
    | permanent reason => cases heq
    | transient reason => cases heq
  | resolvePending =>
    refine ⟨Program.testifies_map (Program.testifies_mono judges_resolveDue
      (fun s' outcome hs' => ⟨outcome, rfl, .inl hs'⟩) fun _ _ h => h), afterResolve_judges⟩

end Wagering
