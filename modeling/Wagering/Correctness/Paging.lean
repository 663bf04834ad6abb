import Wagering.Correctness.Hashing
import Wagering.Interface.LedgerQuery
import Wagering.Persistence.Valid

/-!
# Pages

A cursor that a page ends with is read back as the place it was written for:
its instant through the digits of `toISOString`, its identifier behind the
separator, both through UTF-8 and base64.  A request for a page is answered
with the rows that the keyset gives (`getLedger_eq`).
-/

namespace Wagering

open Text Interleave

/-! ## Instants -/

theorem value_padded {k n : Nat} (h : n < 10 ^ k) : (digitsValue (padded k n) : Int) = n := by
  rw [digitsValue_padded, Nat.mod_eq_of_lt h]

/-- The digits of an ISO text after the year. -/
theorem numberAt_rest (m d ms : Nat) (hm : m < 100) (hd : d < 100) (hms : ms < 86400000)
    {rest : Text} (hrest : rest = utf16 "-" ++ padded 2 m ++ utf16 "-" ++ padded 2 d ++
      utf16 "T" ++ isoTime ms ++ utf16 "Z") :
    numberAt rest 1 2 = m ∧ numberAt rest 4 2 = d ∧ numberAt rest 7 2 = (ms / 3600000 : Nat) ∧
      numberAt rest 10 2 = (ms / 60000 % 60 : Nat) ∧ numberAt rest 13 2 = (ms / 1000 % 60 : Nat) ∧
      numberAt rest 16 3 = (ms % 1000 : Nat) := by
  subst hrest
  exact ⟨value_padded (k := 2) hm, value_padded (k := 2) hd, value_padded (k := 2) (by omega),
    value_padded (k := 2) (by omega), value_padded (k := 2) (by omega),
    value_padded (k := 3) (by omega)⟩

/-- No digit is a sign. -/
theorem digit_ne_sign {d : Nat} (h : d < 10) : digit d ≠ 43 ∧ digit d ≠ 45 := by
  have hd := toNat_digit h
  constructor
  · intro heq
    rw [heq] at hd
    have : (43 : UInt16).toNat = 43 := rfl
    omega
  · intro heq
    rw [heq] at hd
    have : (45 : UInt16).toNat = 45 := rfl
    omega

theorem readIsoYear_append {y : Int} (hy : y.natAbs < 1000000) (rest : Text) :
    readIsoYear (isoYear y ++ rest) = (y, rest) := by
  unfold isoYear
  split
  · rename_i hplain
    simp only [Bool.and_eq_true, decide_eq_true_eq] at hplain
    obtain ⟨u, t, ht, hu⟩ : ∃ u t, padded 4 y.toNat ++ rest = u :: t ∧ u ≠ 43 ∧ u ≠ 45 :=
      ⟨_, _, rfl, digit_ne_sign (Nat.mod_lt _ (by decide))⟩
    have hread : readIsoYear (padded 4 y.toNat ++ rest) =
        (numberAt (padded 4 y.toNat ++ rest) 0 4, (padded 4 y.toNat ++ rest).drop 4) := by
      rw [ht, readIsoYear]
      · exact fun t h => hu.1 (List.cons.inj h).1
      · exact fun t h => hu.2 (List.cons.inj h).1
    have hnumber : numberAt (padded 4 y.toNat ++ rest) 0 4 = y :=
      (value_padded (k := 4) (by omega)).trans (by omega)
    rw [hread, hnumber]
    rfl
  · have hnumber : numberAt (padded 6 y.natAbs ++ rest) 0 6 = y.natAbs :=
      value_padded (k := 6) (by omega)
    split
    · show (-numberAt (padded 6 y.natAbs ++ rest) 0 6, rest) = (y, rest)
      rw [hnumber]
      congr 1
      omega
    · show (numberAt (padded 6 y.natAbs ++ rest) 0 6, rest) = (y, rest)
      rw [hnumber]
      congr 1
      omega

/-- The text of an instant is read as the instant. -/
theorem readIso_toISOString (at_ : TimeValue) : readIso (toISOString at_) = some at_ := by
  have hyear := Calendar.civil_year_bounds (n := at_.val / 86400000) (by have := at_.2; omega)
  have hdate := Calendar.civil_bounds (at_.val / 86400000)
  have hdays := Calendar.days_civil (at_.val / 86400000)
  obtain ⟨hm, hd, hhour, hmin, hsec, hms⟩ := numberAt_rest
    (Calendar.civil (at_.val / 86400000)).month.toNat
    (Calendar.civil (at_.val / 86400000)).day.toNat (at_.val % 86400000).toNat
    (by omega) (by omega) (by omega) rfl
  have hcivil : (⟨(Calendar.civil (at_.val / 86400000)).year,
      ((Calendar.civil (at_.val / 86400000)).month.toNat : Int),
      ((Calendar.civil (at_.val / 86400000)).day.toNat : Int)⟩ : Calendar.Civil) =
      Calendar.civil (at_.val / 86400000) := by
    rw [Int.toNat_of_nonneg (by omega), Int.toNat_of_nonneg (by omega)]
  simp only [readIso, toISOString, readIsoYear_append hyear, hm, hd, hhour, hmin, hsec, hms,
    hcivil, hdays]
  have hvalue : at_.val / 86400000 * 86400000 +
      (((((at_.val % 86400000).toNat / 3600000 : Nat) : Int) * 60 +
        ((at_.val % 86400000).toNat / 60000 % 60 : Nat)) * 60 +
        ((at_.val % 86400000).toNat / 1000 % 60 : Nat)) * 1000 +
      ((at_.val % 86400000).toNat % 1000 : Nat) = at_.val := by
    omega
  rw [dif_pos (by rw [hvalue]; exact at_.2)]
  exact congrArg some (Subtype.ext hvalue)

/-! ## Cursors -/

/-- No character of an ISO text is the separator, and all are ASCII. -/
def isDateUnit (u : UInt16) : Bool :=
  isDigit u || u.toNat = 43 || u.toNat = 45 || u.toNat = 58 || u.toNat = 46 || u.toNat = 84 ||
    u.toNat = 90

theorem padded_dateUnit (k n : Nat) : (padded k n).all isDateUnit = true := by
  induction k generalizing n with
  | zero => rfl
  | succ k ih =>
    simp only [padded, List.all_append, ih, isDateUnit, isDigit_digit (Nat.mod_lt _ (by decide)),
      List.all_cons, List.all_nil, Bool.true_or, Bool.and_self]

theorem toISOString_dateUnit (at_ : TimeValue) : (toISOString at_).all isDateUnit = true := by
  have hliteral : (utf16 "-").all isDateUnit = true ∧ (utf16 "T").all isDateUnit = true ∧
      (utf16 ":").all isDateUnit = true ∧ (utf16 ".").all isDateUnit = true ∧
      (utf16 "Z").all isDateUnit = true := by decide
  have hyear : ∀ y, (isoYear y).all isDateUnit = true := by
    intro y
    unfold isoYear
    split
    · exact padded_dateUnit 4 _
    · split
      · exact Bool.and_eq_true_iff.mpr ⟨by decide, padded_dateUnit 6 _⟩
      · exact Bool.and_eq_true_iff.mpr ⟨by decide, padded_dateUnit 6 _⟩
  simp only [toISOString, isoTime, List.all_append, hyear, padded_dateUnit, hliteral, Bool.and_self]

theorem not_separator {u : UInt16} (h : isDateUnit u = true) : u ≠ 124 ∧ isSurrogate u = false := by
  simp only [isDateUnit, isDigit, Bool.or_eq_true, Bool.and_eq_true, decide_eq_true_eq] at h
  refine ⟨?_, ?_⟩
  · rintro rfl
    have : (124 : UInt16).toNat = 124 := rfl
    omega
  · simp only [isSurrogate, Bool.and_eq_false_iff, decide_eq_false_iff_not]
    omega

theorem Instant.date_val {at_ : Instant} (h : at_.isTimestamp = true) : at_.date.val = at_ := by
  simp only [Instant.isTimestamp, Bool.and_eq_true, decide_eq_true_eq] at h
  have hlow : (-8640000000000000 : Int) ≤ at_ := Int.le_trans (by decide) h.1
  show max (-8640000000000000) (min at_ 8640000000000000) = at_
  rw [min_eq_left h.2, max_eq_right hlow]

variable [Platform]

theorem dateOf_of_read {t : Text} {at_ : TimeValue} (h : readIso t = some at_)
    (hwritten : toISOString at_ = t) : dateOf t = some at_ := by
  unfold dateOf
  rw [h]
  exact if_pos hwritten

/-- A cursor is read back as it was. -/
theorem decodeCursor_encode {cursor : LedgerCursor} (hat : cursor.createdAt.isTimestamp = true)
    (hid : isUuid cursor.id = true) : decodeCursor (encodeLedgerCursor cursor) = .ok cursor := by
  obtain ⟨-, -, hlength⟩ := isUuid_plain hid
  have hdate : ∀ u ∈ toISOString cursor.createdAt.date, isDateUnit u = true :=
    List.all_eq_true.mp (toISOString_dateUnit _)
  have hplain : stored (toISOString cursor.createdAt.date ++ utf16 "|" ++ cursor.id) =
      toISOString cursor.createdAt.date ++ utf16 "|" ++ cursor.id := by
    refine stored_of_plain fun u hu => ?_
    rcases List.mem_append.mp hu with hu | hu
    · rcases List.mem_append.mp hu with hu | hu
      · exact (not_separator (hdate u hu)).2
      · obtain rfl : u = 124 := by simpa [utf16] using hu
        rfl
    · exact (isUuid_unit hid u hu).2
  have htext : fromUtf8 (Base64.decode (encodeLedgerCursor cursor)) =
      toISOString cursor.createdAt.date ++ 124 :: cursor.id := by
    rw [encodeLedgerCursor, Base64.decode_encode (utf8_lt _), fromUtf8_utf8, hplain,
      List.append_assoc]
    rfl
  have hinside : ∀ u ∈ toISOString cursor.createdAt.date, decide (u ≠ 124) = true :=
    fun u hu => decide_eq_true (not_separator (hdate u hu)).1
  have hdrop : (toISOString cursor.createdAt.date ++ 124 :: cursor.id).dropWhile (· ≠ 124) =
      124 :: cursor.id := by
    rw [List.dropWhile_append_of_pos hinside]
    rfl
  have htake : (toISOString cursor.createdAt.date ++ 124 :: cursor.id).takeWhile (· ≠ 124) =
      toISOString cursor.createdAt.date := by
    rw [List.takeWhile_append_of_pos hinside]
    exact List.append_nil _
  have hne : cursor.id ≠ [] := by
    intro hnil
    rw [hnil] at hlength
    cases hlength
  have huuid : requireUuid (some (.string cursor.id)) (utf16 "cursor id") = .ok cursor.id :=
    if_pos hid
  simp only [decodeCursor, htext, hdrop, htake, dateOf_of_read (readIso_toISOString _) rfl,
    if_neg hne, huuid,
    Instant.date_val hat, bind, Except.bind, pure, Except.pure]

theorem encodeLedgerCursor_ne_nil {cursor : LedgerCursor} (hat : cursor.createdAt.isTimestamp = true)
    (hid : isUuid cursor.id = true) : encodeLedgerCursor cursor ≠ [] := by
  intro hnil
  have hdecode := decodeCursor_encode hat hid
  rw [hnil] at hdecode
  cases hdecode

/-! ## The order of the ledger -/

omit [Platform] in
theorem Text.lt_or_eq_or_gt (s t : Text) :
    (Text.le s t = true ∧ s ≠ t) ∨ s = t ∨ (Text.le t s = true ∧ t ≠ s) := by
  by_cases heq : s = t
  · exact .inr (.inl heq)
  · rcases Text.le_total s t with h | h
    · exact .inl ⟨h, heq⟩
    · exact .inr (.inr ⟨h, Ne.symm heq⟩)

instance : IsStrictTotalOrder LedgerCursor LedgerCursor.lt where
  trichotomous a b hab hba := by
    rcases Int.lt_trichotomy a.createdAt b.createdAt with h | h | h
    · exact absurd (.inl h) hab
    · rcases Text.lt_or_eq_or_gt a.id b.id with h' | h' | h'
      · exact absurd (.inr ⟨h, h'⟩) hab
      · cases a
        cases b
        simp_all
      · exact absurd (.inr ⟨h.symm, h'⟩) hba
    · exact absurd (.inl h) hba
  irrefl a h := by
    rcases h with h | ⟨-, -, h⟩
    · exact Int.lt_irrefl _ h
    · exact h rfl
  trans a b c hab hbc := by
    rcases hab with hab | ⟨hab, hle, hne⟩ <;> rcases hbc with hbc | ⟨hbc, hle', hne'⟩
    · exact .inl (Int.lt_trans hab hbc)
    · exact .inl (hbc ▸ hab)
    · exact .inl (hab ▸ hbc)
    · refine .inr ⟨hab.trans hbc, Text.le_trans hle hle', fun heq => hne ?_⟩
      exact Text.le_antisymm hle (heq ▸ hle')

/-! ## Limits -/

omit [Platform] in
theorem parseLimit_bounds {raw : Option Text} {n : Nat} (h : parseLimit raw = .ok n) :
    1 ≤ n ∧ n ≤ ledgerMaxLimit := by
  unfold parseLimit at h
  split at h
  · cases h
    decide
  · cases h
    decide
  · split at h
    · cases h
    · simp only at h
      split at h
      · cases h
      · rename_i hrange
        cases h
        simp only [Bool.or_eq_true, decide_eq_true_eq, not_or, Nat.not_lt] at hrange
        exact hrange

omit [Platform] in
/-- Every number that a page may have is a limit. -/
theorem parseLimit_decimal {n : Nat} (h : 1 ≤ n) (h' : n ≤ ledgerMaxLimit) :
    parseLimit (some (decimal n)) = .ok n := by
  unfold parseLimit
  split
  · rename_i heq
    cases heq
  · rename_i heq
    exact absurd (Option.some.inj heq) (decimal_ne_nil n)
  · rename_i raw hne heq
    cases heq
    have hdigits : (decimal n).all isDigit = true := List.all_eq_true.mpr (decimal_isDigit n)
    have hrange : (decide (n < 1) || decide (ledgerMaxLimit < n)) = false := by
      simp only [Bool.or_eq_false_iff, decide_eq_false_iff_not]
      omega
    simp only [hdigits, digitsValue_decimal, hrange, Bool.not_true, Bool.false_eq_true, if_false]

/-! ## The request for a page -/

/-- What the view of a row's entry shows. -/
def WalletLedgerEntryRow.view (row : WalletLedgerEntryRow) : LedgerEntryView where
  id := row.id
  transactionId := row.transactionId
  direction := row.direction
  money := ⟨toFixed row.amount, row.currency⟩
  balanceBefore := ⟨toFixed row.balanceBefore, row.currency⟩
  balanceAfter := ⟨toFixed row.balanceAfter, row.currency⟩
  createdAt := toISOString row.createdAt.date

/-- The answer that shows these rows of a table. -/
def responseOf (rows : List WalletLedgerEntryRow) (more : Bool) : LedgerResponse where
  items := rows.map WalletLedgerEntryRow.view
  hasMore := more
  nextCursor :=
    if more then rows.getLast?.map fun row => encodeLedgerCursor row.cursor else none

/-- A row of the ledger that a page can show: it passes the rules of its table,
and its currency is one that the runtime knows. -/
structure WalletLedgerEntryRow.Listed (row : WalletLedgerEntryRow) : Prop where
  rules : ∀ rule ∈ ledgerRules row, rule.holds = true
  uuid : isCanonicalUuid row.id = true
  isoCurrency : isIsoCurrency row.currency = true

instance (row : WalletLedgerEntryRow) : Decidable row.Listed :=
  decidable_of_iff ((∀ rule ∈ ledgerRules row, rule.holds = true) ∧
    isCanonicalUuid row.id = true ∧ isIsoCurrency row.currency = true)
    ⟨fun h => ⟨h.1, h.2.1, h.2.2⟩, fun h => ⟨h.rules, h.uuid, h.isoCurrency⟩⟩

theorem WalletLedgerEntryRow.Listed.isTimestamp {row : WalletLedgerEntryRow}
    (h : row.Listed) : row.createdAt.isTimestamp = true := by
  have hrules := h.rules
  simp only [ledgerRules, List.forall_mem_cons] at hrules
  exact hrules.2.2.2.2.1

theorem WalletLedgerEntryRow.Listed.isUuid {row : WalletLedgerEntryRow}
    (h : row.Listed) : isUuid row.id = true :=
  (isCanonicalUuid_iff.mp h.uuid).1

/-- A row that can be shown is read. -/
theorem WalletLedgerEntryRow.Listed.load {row : WalletLedgerEntryRow} (h : row.Listed) :
    ∃ entry, toLedgerEntry row = .ok entry ∧ ledgerEntryView entry = row.view ∧
      (⟨entry.createdAt, entry.id⟩ : LedgerCursor) = row.cursor := by
  have hrules := h.rules
  simp only [ledgerRules, List.forall_mem_cons] at hrules
  obtain ⟨hamount, -, hbefore, hafter, -, hpositive, -, hbefore', hafter', -⟩ := hrules
  simp only [moneyRule, check, decide_eq_true_eq] at hamount hbefore hafter hpositive hbefore' hafter'
  have hread : ∀ {cents : Int} (hrange : cents.natAbs ≤ maxAbsolute), 0 ≤ cents →
      moneyColumn cents row.currency = .ok ⟨cents, row.currency, hrange, h.isoCurrency⟩ :=
    fun hrange hnonneg => Money.from_toFixed hnonneg hrange h.isoCurrency
  let entry : WalletLedgerEntry :=
    { id := row.id
      walletId := row.walletId
      transactionId := row.transactionId
      direction := row.direction
      money := ⟨row.amount, row.currency, hamount, h.isoCurrency⟩
      balanceBefore := ⟨row.balanceBefore, row.currency, hbefore, h.isoCurrency⟩
      balanceAfter := ⟨row.balanceAfter, row.currency, hafter, h.isoCurrency⟩
      createdAt := row.createdAt }
  refine ⟨entry, ?_, rfl, rfl⟩
  simp only [toLedgerEntry, hread hamount hpositive.le, hread hbefore hbefore',
    hread hafter hafter', bind, Except.bind, pure, Except.pure, entry]

/-- The rows of a page are read. -/
theorem mapM_toLedgerEntry {rows : List WalletLedgerEntryRow} (h : ∀ row ∈ rows, row.Listed) :
    ∃ entries, rows.mapM toLedgerEntry = .ok entries ∧
      entries.map ledgerEntryView = rows.map WalletLedgerEntryRow.view ∧
      entries.map (fun entry => (⟨entry.createdAt, entry.id⟩ : LedgerCursor)) =
        rows.map WalletLedgerEntryRow.cursor := by
  induction rows with
  | nil => exact ⟨[], rfl, rfl, rfl⟩
  | cons row rows ih =>
    obtain ⟨hrow, hrows⟩ := List.forall_mem_cons.mp h
    obtain ⟨entry, hload, hview, hcursor⟩ := hrow.load
    obtain ⟨entries, hloads, hviews, hcursors⟩ := ih hrows
    refine ⟨entry :: entries, ?_, ?_, ?_⟩
    · rw [List.mapM_cons, hload, hloads]
      rfl
    · rw [List.map_cons, List.map_cons, hview, hviews]
    · rw [List.map_cons, List.map_cons, hcursor, hcursors]

/-- The page of these rows is shown as they are. -/
theorem ledgerResponse_page {rows : List WalletLedgerEntryRow} {entries : List WalletLedgerEntry}
    {more : Bool} (hviews : entries.map ledgerEntryView = rows.map WalletLedgerEntryRow.view)
    (hcursors : entries.map (fun entry => (⟨entry.createdAt, entry.id⟩ : LedgerCursor)) =
      rows.map WalletLedgerEntryRow.cursor) :
    ledgerResponse ⟨entries, more⟩ = responseOf rows more := by
  have hlast : (entries.getLast?.map fun last => encodeLedgerCursor ⟨last.createdAt, last.id⟩) =
      rows.getLast?.map fun row => encodeLedgerCursor row.cursor := by
    have h := congrArg (fun cursors => cursors.getLast?.map encodeLedgerCursor) hcursors
    rw [List.getLast?_map, List.getLast?_map, Option.map_map, Option.map_map] at h
    exact h
  simp only [ledgerResponse, responseOf, hviews, hlast]

/-- What a request for the ledger of a wallet finds: the wallet, and rows that can
be shown, each with its own identifier. -/
structure Database.Lists (db : Database) (walletId : Text) : Prop where
  wallet : ∃ row, db.walletById walletId = some row ∧
    (∀ rule ∈ walletRules row, rule.holds = true) ∧ isIsoCurrency row.currency = true
  rows : ∀ row ∈ db.ledgerOf walletId, row.Listed
  ids : Keyed.Distinct WalletLedgerEntryRow.id (db.ledgerOf walletId)

omit [Platform] in
theorem hasMore_ne_nil {limit : Nat} {rows : List WalletLedgerEntryRow} (hlimit : 1 ≤ limit)
    (hmore : Keyset.hasMore limit rows = true) : Keyset.page limit rows ≠ [] := by
  simp only [Keyset.hasMore, decide_eq_true_eq] at hmore
  apply List.ne_nil_of_length_pos
  rw [Keyset.page, List.length_take]
  omega

variable {db : Database} {walletId : Text} {cursor limit : Option Text} {n : Nat}
  {after : Option LedgerCursor}

/-- The rows that a request finds. -/
def foundRows (db : Database) (walletId : Text) (n : Nat) (after : Option LedgerCursor) :
    List WalletLedgerEntryRow :=
  Keyset.found WalletLedgerEntryRow.cursor LedgerCursor.lt (db.ledgerOf walletId) n after

/-- A request for a page of a wallet that is there is answered with the rows found. -/
theorem getLedger_eq (hid : isUuid walletId = true) (hlists : db.Lists (uuidText walletId))
    (hparsed : parseLedgerQuery cursor limit = .ok ⟨n, after⟩)
    (hafter : ∀ c ∈ after, uuidText c.id = c.id) :
    getLedger walletId cursor limit db =
      (.ok (responseOf (Keyset.page n (foundRows db (uuidText walletId) n after))
        (Keyset.hasMore n (foundRows db (uuidText walletId) n after))), db) := by
  obtain ⟨row, hrow, hrules, hiso⟩ := hlists.wallet
  obtain ⟨w, hw, hwid, -⟩ := toWallet_of_rules hrules hiso
  have hfind : snapshotAnswer (.findWallet walletId) db = (.ok (some w), db) := by
    simp [snapshotAnswer, findWalletById, hid, hrow, hw, Except.mapError]
  have hrowid : row.id = uuidText walletId := Keyed.key_of_lookup hrow
  have hrows : pageRows db w n after = foundRows db (uuidText walletId) n after := by
    have hsame : (after.map fun cursor => { cursor with id := uuidText cursor.id }) = after := by
      cases after with
      | none => rfl
      | some c => rw [Option.map_some, hafter c rfl]
    rw [pageRows, foundRows, hsame, hwid, hrowid]
  have hlisted : ∀ row ∈ Keyset.page n (foundRows db (uuidText walletId) n after), row.Listed :=
    fun row hx => hlists.rows row (Keyset.mem_found (List.mem_of_mem_take hx)).1
  obtain ⟨entries, hentries, hviews, hcursors⟩ := mapM_toLedgerEntry hlisted
  have hpage : snapshotAnswer (.page w n after) db =
      (.ok ⟨entries, Keyset.hasMore n (foundRows db (uuidText walletId) n after)⟩, db) := by
    simp [snapshotAnswer, ledgerPage, hrows, hentries, bind, Except.bind, pure, Except.pure,
      Except.mapError]
  have hread : readOnly (readLedger walletId ⟨n, after⟩) db =
      (.ok ⟨entries, Keyset.hasMore n (foundRows db (uuidText walletId) n after)⟩, db) := by
    unfold readOnly readLedger
    rw [Program.perform_bind_eq, Program.serve_call hfind]
    show Program.serve snapshotAnswer (.call (.page w n after) _) db = _
    rw [Program.serve_call hpage]
    rfl
  have huuid : requireUuid (some (.string walletId)) (utf16 "walletId") = .ok walletId := if_pos hid
  simp only [getLedger, huuid, hparsed, hread, Except.map, ledgerResponse_page hviews hcursors]

end Wagering
