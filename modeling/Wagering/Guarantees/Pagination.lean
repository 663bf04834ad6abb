import Wagering.Correctness.Paging
import Wagering.Correctness.Service

/-!
# Pagination

A client asks for page after page with the cursor of the one before, while
entries are added anywhere in the ledger.  Each answer is the page that the
keyset gives, and its cursor is read back as the place it was made for, so the
requests are a walk (`followLedger_walk`), which passes every entry once.
-/

namespace Wagering

open Text Keyset

/-! ## Following the cursors -/

/-- A request: the tables that it finds, and the limit that it asks for. -/
structure Visit : Type where
  db : Database
  limit : Option Text

section Statements

variable [Platform]

/-- The answers to the requests, each with the cursor of the one before, until
there is none; and where that has come to. -/
def followLedger (walletId : Text) :
    Option Text → List Visit → Except Failure (List LedgerResponse × Progress Text)
  | cursor, [] => .ok ([], .at cursor)
  | cursor, visit :: visits => do
    let response ← (getLedger walletId cursor visit.limit visit.db).1
    match response.nextCursor with
    | none => pure ([response], .over)
    | some next => do
      let (responses, progress) ← followLedger walletId (some next) visits
      pure (response :: responses, progress)

/-- From request to request rows are only added to the wallet's ledger, and the
limits are some that are accepted: all from 1 to 200 (`parseLimit_decimal`). -/
def Growing (walletId : Text) : Database → List Visit → Prop
  | _, [] => True
  | db, visit :: visits =>
    (∀ row ∈ db.ledgerOf walletId, row ∈ visit.db.ledgerOf walletId) ∧
      visit.db.Lists walletId ∧ (∃ n, parseLimit visit.limit = .ok n) ∧
      Growing walletId visit.db visits

/-- The tables that the last request finds. -/
def finalTables : Database → List Visit → Database
  | db, [] => db
  | _, visit :: visits => finalTables visit.db visits

variable {walletId : Text} {db : Database} {visits : List Visit} {cursor : Option Text}
  {after : Option LedgerCursor}

theorem Growing.final (h : Growing walletId db visits) :
    ∀ row ∈ db.ledgerOf walletId, row ∈ (finalTables db visits).ledgerOf walletId := by
  induction visits generalizing db with
  | nil => exact fun row hrow => hrow
  | cons visit visits ih => exact fun row hrow => ih h.2.2.2 row (h.1 row hrow)

theorem Growing.lists (h : Growing walletId db visits) (hne : visits ≠ []) :
    (finalTables db visits).Lists walletId := by
  induction visits generalizing db with
  | nil => exact absurd rfl hne
  | cons visit visits ih =>
    cases visits with
    | nil => exact h.2.1
    | cons next visits => exact ih h.2.2.2 (List.cons_ne_nil _ _)

/-- Rows with different identifiers are at different places. -/
theorem Database.Lists.distinct (h : db.Lists walletId) :
    Keyed.Distinct WalletLedgerEntryRow.cursor (db.ledgerOf walletId) := by
  have hids : ((db.ledgerOf walletId).map WalletLedgerEntryRow.cursor).map LedgerCursor.id =
      (db.ledgerOf walletId).map WalletLedgerEntryRow.id := List.map_map
  exact List.Nodup.of_map LedgerCursor.id (hids ▸ h.ids)

/-- The cursor of a request is read as the place to go on from. -/
structure ReadAs (cursor : Option Text) (after : Option LedgerCursor) : Prop where
  parsed : ∀ {limit : Option Text} {n : Nat}, parseLimit limit = .ok n →
    parseLedgerQuery cursor limit = .ok ⟨n, after⟩
  canonical : ∀ c ∈ after, uuidText c.id = c.id

theorem ReadAs.none : ReadAs none none where
  parsed hlimit := by rw [parseLedgerQuery, hlimit]; rfl
  canonical _ hc := by cases hc

/-- So is the cursor that was made for a row. -/
theorem ReadAs.row {row : WalletLedgerEntryRow} (h : row.Listed) :
    ReadAs (some (encodeLedgerCursor row.cursor)) (some row.cursor) where
  parsed {limit n} hlimit := by
    have hdecode : decodeCursor (encodeLedgerCursor row.cursor) = .ok row.cursor :=
      decodeCursor_encode h.isTimestamp h.isUuid
    have hne : encodeLedgerCursor row.cursor ≠ [] :=
      encodeLedgerCursor_ne_nil h.isTimestamp h.isUuid
    obtain ⟨u, t, ht⟩ := List.exists_cons_of_ne_nil hne
    rw [ht] at hdecode ⊢
    simp only [parseLedgerQuery, hdecode, hlimit]
    rfl
  canonical c hc := by
    cases hc
    exact (isCanonicalUuid_iff.mp h.uuid).2

/-- The requests, as a walk over the rows of the wallet. -/
structure Followed (walletId : Text) (db : Database) (after : Option LedgerCursor)
    (visits : List Visit) (responses : List LedgerResponse) (progress : Progress Text)
    (pages : List (List WalletLedgerEntryRow)) : Prop where
  walk : ∃ progress' : Progress LedgerCursor, (progress = .over ↔ progress' = .over) ∧
    Walk WalletLedgerEntryRow.cursor LedgerCursor.lt (db.ledgerOf walletId) after pages progress'
  items : responses.map LedgerResponse.items =
    pages.map fun page => page.map WalletLedgerEntryRow.view
  most : pages.length ≤ visits.length
  length : progress ≠ .over → pages.length = visits.length
  own : ∀ row ∈ pages.flatten, row ∈ (finalTables db visits).ledgerOf walletId
  cursors : ∀ response ∈ responses, response.hasMore = true → response.nextCursor.isSome = true

/-- Whatever is added between them, the requests are answered and are a walk. -/
theorem followLedger_walk (hid : isUuid walletId = true)
    (hgrows : Growing (uuidText walletId) db visits) (hread : ReadAs cursor after) :
    ∃ responses progress pages, followLedger walletId cursor visits = .ok (responses, progress) ∧
      Followed (uuidText walletId) db after visits responses progress pages := by
  induction visits generalizing db cursor after with
  | nil =>
    refine ⟨[], .at cursor, [], rfl, ⟨_, ?_, .start⟩, rfl, Nat.le_refl _,
      fun _ => rfl, by simp, by simp⟩
    simp
  | cons visit visits ih =>
    obtain ⟨hgrows, hlists, ⟨n, hlimit⟩, hrest⟩ := hgrows
    have hanswer := getLedger_eq hid hlists (hread.parsed hlimit) hread.canonical
    have hown : ∀ row ∈ page n (foundRows visit.db (uuidText walletId) n after),
        row ∈ (finalTables visit.db visits).ledgerOf (uuidText walletId) :=
      fun row hrow => hrest.final row (mem_found (List.mem_of_mem_take hrow)).1
    cases hmore : hasMore n (foundRows visit.db (uuidText walletId) n after) with
    | false =>
      rw [hmore] at hanswer
      refine ⟨[responseOf (page n (foundRows visit.db (uuidText walletId) n after)) false], .over,
        [page n (foundRows visit.db (uuidText walletId) n after)], ?_,
        ⟨.over, by simp, .last hgrows hlists.distinct hmore⟩, rfl, by simp, fun h => absurd rfl h,
        ?_, ?_⟩
      · rw [followLedger, hanswer]
        rfl
      · rw [List.flatten_singleton]
        exact hown
      · simp [responseOf]
    | true =>
      rw [hmore] at hanswer
      obtain ⟨row, hrow⟩ : ∃ row,
          (page n (foundRows visit.db (uuidText walletId) n after)).getLast? = some row :=
        ⟨_, List.getLast?_eq_getLast_of_ne_nil (hasMore_ne_nil (parseLimit_bounds hlimit).1 hmore)⟩
      have hlisted := hlists.rows row
        (mem_found (List.mem_of_mem_take (List.mem_of_getLast? hrow))).1
      have hnext : (responseOf (page n (foundRows visit.db (uuidText walletId) n after))
          true).nextCursor = some (encodeLedgerCursor row.cursor) := by
        simp [responseOf, hrow]
      obtain ⟨responses, progress, pages, hfollow, ⟨progress', hover, hwalk⟩, hitems, hmost,
        hlength, hrows, hcursors⟩ := ih hrest (ReadAs.row hlisted)
      refine ⟨responseOf (page n (foundRows visit.db (uuidText walletId) n after)) true :: responses,
        progress, page n (foundRows visit.db (uuidText walletId) n after) :: pages, ?_,
        ⟨progress', hover, .next hgrows hlists.distinct hrow hwalk⟩, ?_,
        Nat.succ_le_succ hmost, ?_, ?_, ?_⟩
      · rw [followLedger, hanswer]
        show (match (responseOf (page n (foundRows visit.db (uuidText walletId) n after))
          true).nextCursor with
          | none => _
          | some next => _) = _
        rw [hnext]
        show (followLedger walletId (some (encodeLedgerCursor row.cursor)) visits >>= _) = _
        rw [hfollow]
        rfl
      · rw [List.map_cons, List.map_cons, hitems]
        rfl
      · intro hprogress
        rw [List.length_cons, List.length_cons, hlength hprogress]
      · intro y hy
        rw [List.flatten_cons] at hy
        rcases List.mem_append.mp hy with hy | hy
        · exact hown y hy
        · exact hrows y hy
      · intro response hresponse
        rcases List.mem_cons.mp hresponse with rfl | hresponse
        · simp [hnext]
        · exact hcursors response hresponse

/-! ## What a walk shows -/

/-- What the answers show, as rows of the wallet: strictly downwards, each row
once, and in the end all that were there at the start.  There is a cursor
wherever there is more, and the walk ends when rows are no longer added. -/
structure Shows (walletId : Text) (db : Database) (visits : List Visit)
    (responses : List LedgerResponse) (progress : Progress Text)
    (pages : List (List WalletLedgerEntryRow)) : Prop where
  items : responses.map LedgerResponse.items =
    pages.map fun page => page.map WalletLedgerEntryRow.view
  descending : pages.flatten.Pairwise fun x y => y.cursor.lt x.cursor
  once : (pages.flatten.map WalletLedgerEntryRow.id).Nodup
  own : ∀ row ∈ pages.flatten, row ∈ (finalTables db visits).ledger ∧ row.walletId = walletId
  complete : progress = .over → ∀ row ∈ db.ledger, row.walletId = walletId →
    pages.flatten.count row = 1
  cursors : ∀ response ∈ responses, response.hasMore = true → response.nextCursor.isSome = true
  ends : ((finalTables db visits).ledgerOf walletId).length + 1 < visits.length → progress = .over

theorem Followed.shows {responses : List LedgerResponse} {progress : Progress Text}
    {pages : List (List WalletLedgerEntryRow)} (hgrows : Growing walletId db visits)
    (h : Followed walletId db none visits responses progress pages) :
    Shows walletId db visits responses progress pages := by
  obtain ⟨⟨progress', hover, hwalk⟩, hitems, hmost, hlength, hown, hcursors⟩ := h
  have hpasses := hwalk.passes
  have hnodup : pages.flatten.Nodup := hpasses.downwards.imp fun {a b} hlt heq => by
    rw [heq] at hlt
    exact irrefl_of LedgerCursor.lt _ hlt
  refine
    { items := hitems
      descending := hpasses.downwards
      once := ?_
      own := fun row hrow => by simpa [Database.ledgerOf] using hown row hrow
      complete := fun hend row hrow hwallet => ?_
      cursors := hcursors
      ends := fun hlong => ?_ }
  · cases visits with
    | nil =>
      have hnone : pages = [] := List.eq_nil_of_length_eq_zero (Nat.le_zero.mp hmost)
      rw [hnone]
      exact .nil
    | cons visit visits =>
      have hids := (hgrows.lists (List.cons_ne_nil _ _)).ids
      exact hnodup.map_on fun x hx y hy heq => hids.eq_of_key (hown x hx) (hown y hy) heq
  · have hmem := hpasses.complete (hover.mp hend) row
      (List.mem_filter.mpr ⟨hrow, decide_eq_true hwallet⟩) rfl
    exact List.count_eq_one_of_mem hnodup hmem
  · by_contra hne
    have hpages := hwalk.length_le hown
    rw [hlength hne] at hpages
    omega

/-- Whatever tables the requests of a walk find, as long as rows are only added,
they are answered, and show every row of the start exactly once and none twice,
downwards.  What a cursor was made from is read back from it. -/
theorem followLedger_shows (walletId : Text) (db : Database) (visits : List Visit)
    (hid : isUuid walletId = true) (hgrows : Growing (uuidText walletId) db visits) :
    (∃ responses progress pages,
      followLedger walletId none visits = .ok (responses, progress) ∧
        Shows (uuidText walletId) db visits responses progress pages) ∧
    ∀ cursor : LedgerCursor, cursor.createdAt.isTimestamp = true → isUuid cursor.id = true →
      decodeCursor (encodeLedgerCursor cursor) = .ok cursor := by
  refine ⟨?_, fun cursor => decodeCursor_encode⟩
  obtain ⟨responses, progress, pages, hfollow, hfollowed⟩ :=
    followLedger_walk hid hgrows ReadAs.none
  exact ⟨responses, progress, pages, hfollow, hfollowed.shows hgrows⟩

end Statements

/-! ## A walk -/

local instance pagingPlatform : Platform := samplePlatform

/-- A wallet with entries that share their instant, and one that was made later
with an earlier reading. -/
def pagedWallet : WalletRow :=
  ⟨sampleId 1, utf16 "p1", utf16 "BRL", 4000, 4, 1000, 1000⟩

def pagedEntry (n : Nat) (before : Int) (createdAt : Instant) : WalletLedgerEntryRow :=
  ⟨sampleId n, sampleId 1, sampleId (n + 16), .credit, 1000, utf16 "BRL", before, before + 1000,
    createdAt⟩

def pagedTables (late : List WalletLedgerEntryRow) : Database :=
  { Database.empty with
    wallets := [pagedWallet]
    ledger := [pagedEntry 2 0 1000, pagedEntry 3 1000 1000, pagedEntry 4 2000 1000] ++ late }

/-- Two entries a page; the late one comes in between. -/
def pagedVisits : List Visit :=
  [⟨pagedTables [], some (utf16 "2")⟩, ⟨pagedTables [pagedEntry 5 3000 500], some (utf16 "2")⟩]

theorem paged_lists (late : List WalletLedgerEntryRow)
    (hrows : ∀ row ∈ (pagedTables late).ledgerOf (sampleId 1), row.Listed)
    (hids : Keyed.Distinct WalletLedgerEntryRow.id ((pagedTables late).ledgerOf (sampleId 1))) :
    (pagedTables late).Lists (sampleId 1) where
  wallet := ⟨pagedWallet, rfl, by decide, by decide⟩
  rows := hrows
  ids := hids

theorem pagedVisits_growing :
    Growing (uuidText (sampleId 1)) (pagedTables []) pagedVisits := by
  rw [show uuidText (sampleId 1) = sampleId 1 by decide]
  exact ⟨by decide +kernel, paged_lists [] (by decide +kernel) (by decide +kernel),
    ⟨2, by decide⟩, by decide +kernel, paged_lists _ (by decide +kernel) (by decide +kernel),
    ⟨2, by decide⟩, trivial⟩

/-- The walk passes the late entry, on its last page. -/
theorem pagedVisits_shows :
    (∃ responses progress pages,
      followLedger (sampleId 1) none pagedVisits = .ok (responses, progress) ∧
        Shows (uuidText (sampleId 1)) (pagedTables []) pagedVisits responses progress pages) ∧
    ∀ cursor : LedgerCursor, cursor.createdAt.isTimestamp = true → isUuid cursor.id = true →
      decodeCursor (encodeLedgerCursor cursor) = .ok cursor :=
  followLedger_shows (sampleId 1) (pagedTables []) pagedVisits (by decide) pagedVisits_growing

end Wagering
