import Wagering.Guarantees.Judgements
import Wagering.Guarantees.Reads
import Wagering.Guarantees.Reversals

/-!
# The order of commits

A submission is decided as the very tables have it on which its decision is
committed, so the order of the commits is an order in which the service might
have decided one request after the other.  Only what the request names can
overtake it: a wallet that is opened, or a reference that is settled, while it
runs.
-/

namespace Wagering

open Interleave

variable {db db' : Database} {command : SubmitWagerCommand} {t r : WagerTransactionRow}

/-! ## What a verdict depends on -/

/-- The verdict on the transaction looks at what it refers to. -/
def WagerTransactionRow.Refers (t : WagerTransactionRow) : Prop :=
  t.kind.isReversal = true ∨ t.kind = .win ∧ t.referenceExternalTransactionId.isSome = true

/-- The transaction that a new one refers to is itself, or a settled one. -/
theorem Database.New.decidable (h : db.New t) : (db.reserving t).snapshot.decidable t =
    if (Text.stored t.providerId, Text.stored (t.referenceExternalTransactionId.getD [])) =
        (t.providerId, t.externalTransactionId) then some t
    else db.snapshot.settled t := by
  have hreference : (db.reserving t).snapshot.reference t = (db.snapshot.reference t).or
      (Keyed.lookup (fun row : WagerTransactionRow => (row.providerId, row.externalTransactionId))
        (Text.stored t.providerId, Text.stored (t.referenceExternalTransactionId.getD [])) [t]) :=
    Keyed.lookup_append
  unfold Snapshot.decidable Snapshot.settled
  rw [hreference]
  split
  · rename_i hself
    have hnone : db.snapshot.reference t = none :=
      Keyed.lookup_eq_none.mpr fun r hr heq => h.external r hr (heq.trans hself)
    simp [hnone, Keyed.lookup, hself]
  · rename_i hother
    have hnone : Keyed.lookup (fun row : WagerTransactionRow =>
        (row.providerId, row.externalTransactionId))
        (Text.stored t.providerId, Text.stored (t.referenceExternalTransactionId.getD [])) [t] =
        none :=
      Keyed.lookup_eq_none.mpr fun r hr heq => hother (List.mem_singleton.mp hr ▸ heq).symm
    rw [hnone, Option.or_none]
    cases hfound : db.snapshot.reference t with
    | none => rfl
    | some r =>
      have hne := h.id r (Keyed.mem_of_lookup hfound)
      simp [Option.filter, hne]

theorem hasActiveReversal_concat (hpending : t.status = .pending)
    (wagers : List WagerTransactionRow) (id : Text) :
    hasActiveReversal (wagers ++ [t]) id = hasActiveReversal wagers id := by
  have hactive : isActiveReversal (wagers ++ [t]) id = isActiveReversal wagers id := by
    funext u
    simp [isActiveReversal, hpending]
  have hnew : isActiveReversal wagers id t = false := by simp [isActiveReversal, hpending]
  simp [hasActiveReversal, hactive, hnew]

/-- Of a wallet, nothing but its balance is read. -/
theorem judgeMovement_congr {w w' : WalletRow} {direction : LedgerDirection}
    {reference : Option Text} (hshown : w.shown = w'.shown) :
    t.judgeMovement w direction reference = t.judgeMovement w' direction reference := by
  obtain ⟨hbalance, hcurrency⟩ := Prod.mk.inj hshown
  unfold WagerTransactionRow.judgeMovement
  rw [hbalance, hcurrency, hshown]

/-- The slot of the reference is the last thing that a reversal looks at. -/
theorem judgeReversal_congr {w w' : WalletRow} {reversed reversed' : Bool}
    (hshown : w.shown = w'.shown) (h : t.mismatch r = none → reversed = reversed') :
    t.judgeReversal r w reversed = t.judgeReversal r w' reversed' := by
  unfold WagerTransactionRow.judgeReversal
  rw [hshown, judgeMovement_congr hshown]
  cases hmismatch : t.mismatch r with
  | some code => rfl
  | none => rw [h hmismatch]

/-- Nothing may build on a transaction that is new. -/
theorem mismatch_pending (hpending : r.status = .pending) :
    t.mismatch r = some .referenceNotProcessed := by
  simp [WagerTransactionRow.mismatch, hpending]

/-- What a transaction may build on is processed, and names the same wallet. -/
theorem mismatch_none (h : t.mismatch r = none) :
    r.status = .processed ∧ r.walletId = t.walletId := by
  unfold WagerTransactionRow.mismatch at h
  split at h
  · cases h
  rename_i hstatus
  split at h
  · cases h
  rename_i hbound
  simp only [ne_eq, decide_not, Bool.or_eq_true, Bool.not_eq_true', decide_eq_false_iff_not,
    not_or, not_not] at hbound
  exact ⟨not_not.mp hstatus, hbound.1.2⟩

/-- What a request of the player learns of either wallet is the same: whose it
is, and if it is the player's, its balance. -/
inductive SameTo (playerId : Text) : Option WalletRow → Option WalletRow → Prop
  | missing : SameTo playerId none none
  | own {w w' : WalletRow} (left : w.playerId = playerId) (right : w'.playerId = playerId)
    (shown : w.shown = w'.shown) : SameTo playerId (some w) (some w')
  | foreign {w w' : WalletRow} (left : w.playerId ≠ playerId) (right : w'.playerId ≠ playerId) :
    SameTo playerId (some w) (some w')

/-- The wallet of the request, if it is its player's. -/
def Database.ownWallet (db : Database) (command : SubmitWagerCommand) : Option WalletRow :=
  (db.walletById (uuidText command.walletId)).filter fun w => w.playerId = command.playerId

/-- A verdict depends on the wallet, on the reference and on its slot, and on
nothing else of the tables. -/
theorem Database.New.verdict_congr (h : db.New t) (h' : db'.New t)
    (hwallet : SameTo command.playerId (db.walletById (uuidText command.walletId))
      (db'.walletById (uuidText command.walletId)))
    (hsettled : t.Refers → db.snapshot.settled t = db'.snapshot.settled t)
    (hreversed : ∀ w ∈ db.ownWallet command, ∀ r ∈ db.snapshot.settled t, t.mismatch r = none →
      hasActiveReversal db.wagers r.id = hasActiveReversal db'.wagers r.id) :
    db.verdict command t = db'.verdict command t := by
  have hdecidable : t.Refers → (db.reserving t).snapshot.decidable t =
      (db'.reserving t).snapshot.decidable t := by
    intro hrefers
    rw [h.decidable, h'.decidable, hsettled hrefers]
  generalize hw : db.walletById (uuidText command.walletId) = o at hwallet
  generalize hw' : db'.walletById (uuidText command.walletId) = o' at hwallet
  have hl : (db.reserving t).snapshot.wallet command.walletId = o := hw
  have hr : (db'.reserving t).snapshot.wallet command.walletId = o' := hw'
  unfold Database.verdict
  cases hwallet with
  | missing => rw [Snapshot.judge_missing hl, Snapshot.judge_missing hr]
  | foreign left right => rw [Snapshot.judge_foreign hl left, Snapshot.judge_foreign hr right]
  | @own w w' left right shown =>
    have hsame : w.currency = w'.currency := congrArg Prod.snd shown
    by_cases hcurrency : w.currency = t.currency
    case neg =>
      rw [Snapshot.judge_currency hl left hcurrency,
        Snapshot.judge_currency hr right (hsame ▸ hcurrency), shown]
    have hcurrency' : w'.currency = t.currency := hsame ▸ hcurrency
    have hown : w ∈ db.ownWallet command := by
      rw [Database.ownWallet, hw]
      simp [Option.filter, left]
    by_cases hkind : t.kind.isReversal = true
    · rw [Snapshot.judge_reversal hl left hcurrency hkind,
        Snapshot.judge_reversal hr right hcurrency' hkind, ← hdecidable (.inl hkind), shown]
      cases hfound : (db.reserving t).snapshot.decidable t with
      | none => rfl
      | some r =>
        refine judgeReversal_congr shown fun hfits => ?_
        have hsettled : r ∈ db.snapshot.settled t := by
          rw [h.decidable] at hfound
          split at hfound
          · obtain rfl := Option.some.inj hfound
            rw [mismatch_pending h.pending] at hfits
            cases hfits
          · exact hfound
        exact (hasActiveReversal_concat h.pending _ _).trans
          ((hreversed w hown r hsettled hfits).trans
            (hasActiveReversal_concat h.pending _ _).symm)
    · rw [Snapshot.judge_direct hl left hcurrency hkind,
        Snapshot.judge_direct hr right hcurrency' hkind]
      have hlink : (db.reserving t).snapshot.link t = (db'.reserving t).snapshot.link t := by
        unfold Snapshot.link
        split
        · rename_i hwin
          rw [hdecidable (.inr hwin)]
        · rfl
      simp only [hlink, shown, judgeMovement_congr shown]

/-! ## What a wallet keeps -/

section Kept

variable [Platform] {sh sh' : Shared} {w : WalletRow}

/-- As long as its row stays, nothing is entered for a wallet. -/
theorem Evolves.walletEntries_same (h : Evolves sh sh') (hs : Sound sh) (hs' : Sound sh')
    (hw : w ∈ sh.db.wallets) (hw' : w ∈ sh'.db.wallets) :
    sh'.db.books.walletEntries w.id = sh.db.books.walletEntries w.id := by
  have hversion := (hs.books.wallets w hw).version
  have hversion' := (hs'.books.wallets w hw').version
  have hfirst : sh'.db.books.firstVersion w.id = sh.db.books.firstVersion w.id := by
    rw [Books.firstVersion, Books.firstVersion, h.opened w hw]
  rw [hfirst] at hversion'
  have hbefore : sh.db.books.walletEntries w.id <+: sh'.db.books.walletEntries w.id :=
    h.ledger.filter _
  -- the version counts the entries
  have hlength : (sh.db.books.walletEntries w.id).length =
      (sh'.db.books.walletEntries w.id).length := by omega
  exact (hbefore.eq_of_length hlength).symm

/-- Nor is a transaction processed that moves it. -/
theorem Evolves.processed_same (h : Evolves sh sh') (hs : Sound sh) (hs' : Sound sh')
    (hw : w ∈ sh.db.wallets) (hw' : w ∈ sh'.db.wallets) (ht : t ∈ sh'.db.wagers)
    (hstatus : t.status = .processed) (hkind : t.kind ≠ .loss) (hwallet : t.walletId = w.id) :
    t ∈ sh.db.wagers := by
  obtain ⟨e, hentries, henters⟩ := (hs'.books.wagers t ht).settled.moved hstatus hkind
  have he : e ∈ sh'.db.books.entriesOf t.id := hentries ▸ List.mem_cons_self
  obtain ⟨hledger, hid⟩ := List.mem_filter.mp he
  have hmem : e ∈ sh'.db.books.walletEntries w.id :=
    Books.mem_walletEntries.mpr ⟨hledger, henters.walletId.trans hwallet⟩
  rw [h.walletEntries_same hs hs' hw hw'] at hmem
  obtain ⟨u, hu, huid, hentered⟩ := hs.books.entry_of (Books.mem_walletEntries.mp hmem).1
  have hprocessed := ((hs.books.wagers u hu).settled.of_entry hentered).1
  have hu' : u ∈ sh'.db.wagers := h.terminal u hu (by rw [hprocessed]; rfl)
  obtain rfl : u = t := hs'.books.eq_of_id hu' ht (huid.trans (of_decide_eq_true hid))
  exact hu

/-- So its transactions keep their reversals. -/
theorem Evolves.reversals_same (h : Evolves sh sh') (hs : Sound sh) (hs' : Sound sh')
    (hw : w ∈ sh.db.wallets) (hw' : w ∈ sh'.db.wallets) (hr : r ∈ sh.db.wagers)
    (hr' : r ∈ sh'.db.wagers) (hwallet : r.walletId = w.id) :
    t ∈ sh'.db.books.reversalsOf r ↔ t ∈ sh.db.books.reversalsOf r := by
  constructor
  · intro ht
    obtain ⟨hmem, hkind, hid⟩ := Books.mem_reversalsOf.mp ht
    obtain ⟨hprocessed, reverses⟩ := hs'.books.reverses ht hr'
    have hloss : t.kind ≠ .loss := by
      intro hloss
      rw [hloss] at hkind
      cases hkind
    exact Books.mem_reversalsOf.mpr ⟨h.processed_same hs hs' hw hw' hmem hprocessed hloss
      (reverses.walletId.symm.trans hwallet), hkind, hid⟩
  · intro ht
    obtain ⟨hmem, hkind, hid⟩ := Books.mem_reversalsOf.mp ht
    have hprocessed := (hs.books.reverses ht hr).1
    exact Books.mem_reversalsOf.mpr ⟨h.terminal t hmem (by rw [hprocessed]; rfl), hkind, hid⟩

/-- The slot of a transaction is taken by a reversal that nothing reverses. -/
theorem Sound.hasActiveReversal_iff (hs : Sound sh) (hr : r ∈ sh.db.wagers) :
    hasActiveReversal sh.db.wagers r.id = true ↔
      ∃ u ∈ sh.db.books.reversalsOf r, sh.db.books.reversalsOf u = [] := by
  unfold hasActiveReversal
  rw [List.any_eq_true]
  constructor
  · rintro ⟨u, hu, hactive⟩
    obtain ⟨hid, -, hkind, -⟩ := Books.isActiveReversal_iff.mp hactive
    have hmem : u ∈ sh.db.books.reversalsOf r := Books.mem_reversalsOf.mpr ⟨hu, hkind, hid⟩
    exact ⟨u, hmem, (hs.books.active_iff hmem hr).mp hactive⟩
  · rintro ⟨u, hu, hnone⟩
    exact ⟨u, (Books.mem_reversalsOf.mp hu).1, (hs.books.active_iff hu hr).mpr hnone⟩

/-- Two states agree on a slot if they agree on the reversals of a kind of
transactions that is closed under being reversed. -/
theorem Sound.hasActiveReversal_congr (hs : Sound sh) (hs' : Sound sh')
    {C : WagerTransactionRow → Prop}
    (hsame : ∀ u v, u ∈ sh.db.wagers → u ∈ sh'.db.wagers → C u →
      (v ∈ sh'.db.books.reversalsOf u ↔ v ∈ sh.db.books.reversalsOf u))
    (hclosed : ∀ u v, C u → Reverses v u → C v) (hr : r ∈ sh.db.wagers)
    (hr' : r ∈ sh'.db.wagers) (hC : C r) :
    hasActiveReversal sh.db.wagers r.id = hasActiveReversal sh'.db.wagers r.id := by
  have hnone : ∀ u ∈ sh.db.books.reversalsOf r,
      (sh.db.books.reversalsOf u = [] ↔ sh'.db.books.reversalsOf u = []) := by
    intro u hu
    obtain ⟨-, reverses⟩ := hs.books.reverses hu hr
    have hmem := (Books.mem_reversalsOf.mp hu).1
    have hmem' := (Books.mem_reversalsOf.mp ((hsame r u hr hr' hC).mpr hu)).1
    have hiff := fun v => hsame u v hmem hmem' (hclosed r u hC reverses)
    simp only [List.eq_nil_iff_forall_not_mem, hiff]
  rw [Bool.eq_iff_iff, hs.hasActiveReversal_iff hr, hs'.hasActiveReversal_iff hr']
  constructor
  · rintro ⟨u, hu, hempty⟩
    exact ⟨u, (hsame r u hr hr' hC).mpr hu, (hnone u hu).mp hempty⟩
  · rintro ⟨u, hu, hempty⟩
    have hold := (hsame r u hr hr' hC).mp hu
    exact ⟨u, hold, (hnone u hold).mpr hempty⟩

/-- The slots of the transactions of a wallet stay as they are with it. -/
theorem Evolves.hasActiveReversal_same (h : Evolves sh sh') (hs : Sound sh) (hs' : Sound sh')
    (hw : w ∈ sh.db.wallets) (hw' : w ∈ sh'.db.wallets) (hr : r ∈ sh.db.wagers)
    (hr' : r ∈ sh'.db.wagers) (hwallet : r.walletId = w.id) :
    hasActiveReversal sh.db.wagers r.id = hasActiveReversal sh'.db.wagers r.id :=
  hs.hasActiveReversal_congr hs' (C := fun u => u.walletId = w.id)
    (fun _ _ hu hu' hnamed => h.reversals_same hs hs' hw hw' hu hu' hnamed)
    (fun _ _ hnamed reverses => reverses.walletId.symm.trans hnamed) hr hr' hwallet

/-- A reference that is settled stays the one that is found. -/
theorem Evolves.settled (h : Evolves sh sh') (hs : Sound sh) (hs' : Sound sh')
    (hfound : sh.db.snapshot.settled t = some r) : sh'.db.snapshot.settled t = some r := by
  obtain ⟨hlookup, hterminal⟩ := Option.filter_eq_some_iff.mp hfound
  obtain ⟨hmem, hkey⟩ := (hs.mem_wagerByExternal _ _ r).mp hlookup
  apply Option.filter_eq_some_iff.mpr
  exact ⟨(hs'.mem_wagerByExternal _ _ r).mpr ⟨h.terminal r hmem hterminal, hkey⟩, hterminal⟩

/-- Only a reference that was open can come to be settled. -/
theorem Evolves.settled_same (h : Evolves sh sh') (hs : Sound sh) (hs' : Sound sh')
    (hopen : sh.db.snapshot.settled t = none → ¬ (sh'.db.snapshot.settled t).isSome = true) :
    sh.db.snapshot.settled t = sh'.db.snapshot.settled t := by
  cases hfound : sh.db.snapshot.settled t with
  | some r => exact (h.settled hs hs' hfound).symm
  | none => exact (Option.not_isSome_iff_eq_none.mp (hopen hfound)).symm

/-- So does the slot of the reference that a transaction of the wallet may build on. -/
theorem Evolves.slot_same (h : Evolves sh sh') (hs : Sound sh) (hs' : Sound sh')
    (hw : w ∈ sh.db.wallets) (hw' : w ∈ sh'.db.wallets)
    (hr : sh.db.snapshot.settled t = some r) (hfits : t.mismatch r = none)
    (hwallet : t.walletId = w.id) :
    hasActiveReversal sh.db.wagers r.id = hasActiveReversal sh'.db.wagers r.id := by
  obtain ⟨hprocessed, hnamed⟩ := mismatch_none hfits
  obtain ⟨hlookup, -⟩ := Option.filter_eq_some_iff.mp hr
  have hmem := Keyed.mem_of_lookup hlookup
  have hmem' := h.terminal r hmem (by rw [hprocessed]; rfl)
  exact h.hasActiveReversal_same hs hs' hw hw' hmem hmem' (hnamed.trans hwallet)

end Kept

/-! ## What a verdict shows -/

section Shows

variable {w : WalletRow}

theorem judgeMovement_shows {direction : LedgerDirection} {reference : Option Text} :
    (t.judgeMovement w direction reference).resultBalance.isSome = true := by
  unfold WagerTransactionRow.judgeMovement
  simp only
  split
  · rfl
  · split <;> rfl

theorem judgeReversal_shows {reversed : Bool} :
    (t.judgeReversal r w reversed).resultBalance.isSome = true := by
  unfold WagerTransactionRow.judgeReversal
  split
  · rfl
  · cases t.mismatch r with
    | some code => rfl
    | none =>
      simp only [Verdict.guarded]
      split
      · rfl
      · split
        · rfl
        · exact judgeMovement_shows

/-- A verdict shows the balance of the player's own wallet. -/
theorem Database.verdict_shows (hw : w ∈ db.ownWallet command) :
    (db.verdict command t).resultBalance.isSome = true := by
  obtain ⟨hlookup, hown⟩ := Option.filter_eq_some_iff.mp hw
  have hl : (db.reserving t).snapshot.wallet command.walletId = some w := hlookup
  have hplayer : w.playerId = command.playerId := of_decide_eq_true hown
  unfold Database.verdict
  by_cases hcurrency : w.currency = t.currency
  case neg =>
    rw [Snapshot.judge_currency hl hplayer hcurrency]
    rfl
  by_cases hkind : t.kind.isReversal = true
  · rw [Snapshot.judge_reversal hl hplayer hcurrency hkind]
    split
    · rfl
    · exact judgeReversal_shows
  · rw [Snapshot.judge_direct hl hplayer hcurrency hkind]
    split
    · rfl
    · split
      · rfl
      · exact judgeMovement_shows

theorem judgeMovement_reference {direction : LedgerDirection} :
    (t.judgeMovement w direction none).referenceTransactionId = none := by
  unfold WagerTransactionRow.judgeMovement
  simp only
  split
  · rfl
  · split <;> rfl

/-- A verdict on what is not settled yet links to nothing. -/
theorem Database.New.unlinked (h : db.New t) (hrefers : t.Refers)
    (hopen : db.snapshot.settled t = none) :
    (db.verdict command t).referenceTransactionId = none := by
  have hdecidable : ∀ r ∈ (db.reserving t).snapshot.decidable t, r = t := by
    intro r hr
    rw [h.decidable] at hr
    split at hr
    · exact (Option.some.inj hr).symm
    · rw [hopen] at hr
      cases hr
  have hself : t.mismatch t = some .referenceNotProcessed := mismatch_pending h.pending
  unfold Database.verdict
  cases hl : (db.reserving t).snapshot.wallet command.walletId with
  | none =>
    rw [Snapshot.judge_missing hl]
    rfl
  | some w =>
    by_cases hplayer : w.playerId = command.playerId
    case neg =>
      rw [Snapshot.judge_foreign hl hplayer]
      rfl
    by_cases hcurrency : w.currency = t.currency
    case neg =>
      rw [Snapshot.judge_currency hl hplayer hcurrency]
      rfl
    by_cases hkind : t.kind.isReversal = true
    · rw [Snapshot.judge_reversal hl hplayer hcurrency hkind]
      cases hfound : (db.reserving t).snapshot.decidable t with
      | none => rfl
      | some r =>
        -- a reversal of itself is refused
        obtain rfl := hdecidable r hfound
        simp only [WagerTransactionRow.judgeReversal, hself]
        split <;> rfl
    · rw [Snapshot.judge_direct hl hplayer hcurrency hkind]
      obtain ⟨hwin, hsome⟩ := hrefers.resolve_left hkind
      have hlink : (db.reserving t).snapshot.link t = .ok none ∨
          ∃ code, (db.reserving t).snapshot.link t = .error code := by
        unfold Snapshot.link
        rw [if_pos ⟨hwin, hsome⟩]
        cases hfound : (db.reserving t).snapshot.decidable t with
        | none => exact .inl rfl
        | some r =>
          obtain rfl := hdecidable r hfound
          have hbet : r.kind ≠ .bet := by
            rw [hwin]
            intro hbet
            cases hbet
          exact .inr ⟨_, if_pos hbet⟩
      rw [hwin]
      rcases hlink with hnone | ⟨code, herror⟩
      · rw [hnone]
        exact judgeMovement_reference
      · rw [herror]
        rfl

end Shows

/-! ## Over every run -/

section Statements

/-- The tables have come to know a wallet, or a settled reference, that the
request names. -/
inductive Outpaced (command : SubmitWagerCommand) (t : WagerTransactionRow)
    (before after : Database) : Prop
  | wallet (missing : before.walletById (uuidText command.walletId) = none)
    (opened : (after.walletById (uuidText command.walletId)).isSome = true) :
    Outpaced command t before after
  | reference (refers : t.Refers) (open_ : before.snapshot.settled t = none)
    (settled : (after.snapshot.settled t).isSome = true) : Outpaced command t before after

variable [Platform] [Driver]

/-- The decision and its answer are as the tables `sh` have it, unless these have
outpaced the request. -/
inductive InOrder (w : Service) (i : Nat) (ending : Ending store Answer) (sh : Shared)
    (command : SubmitWagerCommand) (result : SubmitWagerResult) (t : WagerTransactionRow)
    (d : Decision) : Prop
  | current (answer : result = (sh.db.verdict command t).result t.id)
    (follows : d.Follows t (sh.db.verdict command t)) : InOrder w i ending sh command result t d
  | outpaced {m : Service} (during : During w m i ending)
    (outpaced : Outpaced command t m.shared.db sh.db)
    (answer : result = (m.shared.db.verdict command t).result t.id)
    (follows : d.Follows t (m.shared.db.verdict command t))
    (unlinked : (m.shared.db.verdict command t).referenceTransactionId = none) :
    InOrder w i ending sh command result t d

/-- Every submission that the run decides is decided by the tables that its commit
finds. -/
def JudgesInCommitOrder (w : Service) : Prop :=
  ∀ i sh l a s command result, (i, .committed sh l a) ∈ w.history → w.sessions[i]? = some s →
    s.entry.command? = some command → a.result? = some result →
    result.idempotentReplay = false →
    ∃ t d, command.Requests t ∧ sh.db.New t ∧ (l.view sh.db).books = sh.db.books.record d ∧
      InOrder w i (.committed sh l a) sh command result t d

end Statements

section Proofs

variable [Platform] [Driver] {m u w : Service} {i : Nat} {result : SubmitWagerResult}
  {d : Decision}

omit [Driver] in
theorem SubmitWagerCommand.Requests.walletId (h : command.Requests t) :
    t.walletId = uuidText command.walletId := by
  obtain ⟨asked, ⟨id, money, now, -, hcreate⟩, rfl⟩ := h
  obtain ⟨-, -, hreserve⟩ := WagerTransaction.create_ok hcreate
  obtain ⟨-, -, rfl⟩ := WagerTransaction.reserve_ok hreserve
  rfl

omit [Platform] [Driver] in
/-- Who is outpaced has not built on what came to be known. -/
theorem Outpaced.unlinked (h : Outpaced command t db db') (hnew : db.New t) :
    (db.verdict command t).referenceTransactionId = none := by
  cases h with
  | wallet missing =>
    unfold Database.verdict
    rw [Snapshot.judge_missing missing]
    rfl
  | reference refers open_ => exact hnew.unlinked refers open_

/-- What was decided in one state is decided so when it is committed. -/
theorem DecidedIn.current (h : DecidedIn m u i command result t d) (hu : Reachable u) :
    m.shared.db.verdict command t = u.shared.db.verdict command t ∨
      Outpaced command t m.shared.db u.shared.db := by
  by_cases hover : Outpaced command t m.shared.db u.shared.db
  · exact .inr hover
  have hevolves := h.reachable.evolves h.later
  have hs := h.reachable.sound.inv
  have hs' := hu.sound.inv
  -- a wallet of the player is the one in hand
  have hown : ∀ w ∈ m.shared.db.ownWallet command,
      m.shared.db.walletById (uuidText command.walletId) = some w ∧
        u.shared.db.walletById (uuidText command.walletId) = some w := by
    intro w hw
    obtain ⟨hlookup, -⟩ := Option.filter_eq_some_iff.mp hw
    exact ⟨hlookup, (h.wallet (Database.verdict_shows hw)).trans hlookup⟩
  refine .inl (h.new.1.verdict_congr h.new.2 ?wallet
    (fun hrefers => hevolves.settled_same hs hs' fun hopen hsettled =>
      hover (.reference hrefers hopen hsettled))
    fun w hw r hr hfits => ?slot)
  case wallet =>
    cases hw : m.shared.db.walletById (uuidText command.walletId) with
    | none =>
      cases hw' : u.shared.db.walletById (uuidText command.walletId) with
      | none => exact .missing
      | some w' => exact absurd (.wallet hw (by rw [hw']; rfl)) hover
    | some w =>
      by_cases hplayer : w.playerId = command.playerId
      · have hmem : w ∈ m.shared.db.ownWallet command :=
          Option.filter_eq_some_iff.mpr ⟨hw, decide_eq_true hplayer⟩
        rw [(hown w hmem).2]
        exact .own hplayer hplayer rfl
      · obtain ⟨w', hw', same⟩ := hevolves.wallets w (Keyed.mem_of_lookup hw)
        have hlookup : u.shared.db.walletById (uuidText command.walletId) = some w' :=
          (Keyed.Distinct.lookup_eq_some hs'.books.walletIds).mpr
            ⟨hw', same.id ▸ Keyed.key_of_lookup hw⟩
        rw [hlookup]
        exact .foreign hplayer (same.playerId ▸ hplayer)
  case slot =>
    obtain ⟨hthen, hnow⟩ := hown w hw
    apply hevolves.slot_same hs hs' (Keyed.mem_of_lookup hthen) (Keyed.mem_of_lookup hnow) hr hfits
    exact h.requests.walletId.trans (Keyed.key_of_lookup hthen).symm

/-- Over every run of the service the submissions are decided in the order of their
commits. -/
theorem Reachable.judgesInCommitOrder (h : Reachable w) : JudgesInCommitOrder w := by
  intro i sh l a x command result hmem hx hcommand hresult hfirst
  obtain ⟨u, hu, huw, rfl, hpast, m, t, d, hin, hbooks⟩ :=
    h.decided_commit hmem hx hcommand hresult hfirst
  refine ⟨t, d, hin.requests, hin.new.2, hbooks, ?_⟩
  rcases hin.current hu with heq | hover
  · exact .current (heq ▸ hin.answer) (heq ▸ hin.follows)
  · exact .outpaced (.of_steps hin.reachable hin.begun hin.later huw hpast) hover hin.answer
      hin.follows (hover.unlinked hin.new.1)

end Proofs

theorem sample_judgesInCommitOrder :
    @JudgesInCommitOrder samplePlatform sampleDriver sampleService :=
  @Reachable.judgesInCommitOrder samplePlatform sampleDriver sampleService sample_reachable

end Wagering
