import Wagering.Interface.Envelope
import Wagering.Lib.Base64
import Wagering.Persistence.Ledger
import Wagering.Utf8

/-!
# Pages of the ledger

`interface/http/ledger-query.ts`, and the request for a page (`getLedger` of
`interface/http/wagering.controller.ts`).
-/

namespace Wagering

open Text Interleave

/-! ## `Date`s of a cursor -/

/-- The `Date` of an instant; a `timestamptz` that the driver reads is never beyond its range. -/
def Instant.date (at_ : Instant) : TimeValue :=
  ⟨max (-8640000000000000) (min at_ 8640000000000000), by omega⟩

/-- The number that stands at a place of a text. -/
def numberAt (t : Text) (start length : Nat) : Int := digitsValue ((t.drop start).take length)

/-- The year of an ISO text, and what follows it. -/
def readIsoYear : Text → Int × Text
  | 43 :: t => (numberAt t 0 6, t.drop 6)
  | 45 :: t => (-numberAt t 0 6, t.drop 6)
  | t => (numberAt t 0 4, t.drop 4)

/-- The time value that the digits of an ISO text stand for. -/
def readIso (t : Text) : Option TimeValue :=
  let (year, rest) := readIsoYear t
  let day := Calendar.days ⟨year, numberAt rest 1 2, numberAt rest 4 2⟩
  let seconds := (numberAt rest 7 2 * 60 + numberAt rest 10 2) * 60 + numberAt rest 13 2
  let at_ := day * 86400000 + seconds * 1000 + numberAt rest 16 3
  if h : at_.natAbs ≤ 8640000000000000 then some ⟨at_, h⟩ else none

/-- `LEDGER_DEFAULT_LIMIT`. -/
def ledgerDefaultLimit : Nat := 50

/-- `LEDGER_MAX_LIMIT`. -/
def ledgerMaxLimit : Nat := 200

variable [Platform]

/-- `new Date(text)`: what `toISOString` writes is read by the digits, anything
else that the parser takes is the runtime's affair. -/
def dateOf (t : Text) : Option TimeValue :=
  match readIso t with
  | some at_ => if toISOString at_ = t then some at_ else Platform.parseDate t
  | none => Platform.parseDate t

/-! ## The query -/

/-- `LedgerQuery`. -/
structure LedgerQuery : Type where
  limit : Nat
  after : Option LedgerCursor
deriving DecidableEq

/-- `encodeLedgerCursor`. -/
def encodeLedgerCursor (cursor : LedgerCursor) : Text :=
  Base64.encode (utf8 (toISOString cursor.createdAt.date ++ utf16 "|" ++ cursor.id))

/-- `decodeCursor`. -/
def decodeCursor (raw : Text) : Except Failure LedgerCursor :=
  let decoded := fromUtf8 (Base64.decode raw)
  match decoded.dropWhile (· ≠ 124) with
  | [] => invalid (utf16 "cursor is not a valid ledger cursor")
  | _ :: id =>
    match dateOf (decoded.takeWhile (· ≠ 124)) with
    | none => invalid (utf16 "cursor is not a valid ledger cursor")
    | some createdAt =>
      if id = [] then invalid (utf16 "cursor is not a valid ledger cursor")
      else do
        let id ← requireUuid (some (.string id)) (utf16 "cursor id")
        pure { createdAt := createdAt.val, id }

/-- `parseLimit`. -/
def parseLimit (raw : Option Text) : Except Failure Nat :=
  match raw with
  | none | some [] => .ok ledgerDefaultLimit
  | some raw =>
    if !raw.all isDigit then invalid (utf16 "limit must be an integer")
    else
      let limit := digitsValue raw
      if limit < 1 || ledgerMaxLimit < limit then
        invalid (utf16 "limit must be between 1 and " ++ decimal ledgerMaxLimit)
      else .ok limit

/-- `parseLedgerQuery`. -/
def parseLedgerQuery (cursor limit : Option Text) : Except Failure LedgerQuery := do
  let after ← match cursor with
    | none | some [] => pure none
    | some raw => some <$> decodeCursor raw
  let limit ← parseLimit limit
  pure { limit, after }

/-! ## The request -/

/-- What `ledgerEntryView` shows of an entry. -/
structure LedgerEntryView : Type where
  id : Text
  transactionId : Text
  direction : LedgerDirection
  money : MoneyProps
  balanceBefore : MoneyProps
  balanceAfter : MoneyProps
  createdAt : Text
deriving DecidableEq

/-- `ledgerEntryView`. -/
def ledgerEntryView (entry : WalletLedgerEntry) : LedgerEntryView where
  id := entry.id
  transactionId := entry.transactionId
  direction := entry.direction
  money := entry.money.toJSON
  balanceBefore := entry.balanceBefore.toJSON
  balanceAfter := entry.balanceAfter.toJSON
  createdAt := toISOString entry.createdAt.date

/-- What `getLedger` answers. -/
structure LedgerResponse : Type where
  items : List LedgerEntryView
  hasMore : Bool
  nextCursor : Option Text
deriving DecidableEq

/-- The answer that shows a page. -/
def ledgerResponse (page : LedgerPage) : LedgerResponse where
  items := page.entries.map ledgerEntryView
  hasMore := page.hasMore
  nextCursor :=
    if page.hasMore then
      page.entries.getLast?.map fun last => encodeLedgerCursor ⟨last.createdAt, last.id⟩
    else none

/-- The work of `getLedger`, which `readOnly` runs. -/
def readLedger (walletId : Text) (request : LedgerQuery) : ReadCode LedgerPage := do
  match ← query (.findWallet walletId) with
  | none =>
    .raise (.application ⟨.resourceNotFound, utf16 "wallet not found", none⟩)
  | some wallet => query (.page wallet request.limit request.after)

/-- `getLedger`: the answer, and the tables afterwards. -/
def getLedger (walletId : Text) (cursor limit : Option Text) (db : Database) :
    Except Failure LedgerResponse × Database :=
  match requireUuid (some (.string walletId)) (utf16 "walletId") with
  | .error e => (.error e, db)
  | .ok validWalletId =>
    match parseLedgerQuery cursor limit with
    | .error e => (.error e, db)
    | .ok request =>
      let (page, db) := readOnly (readLedger validWalletId request) db
      (page.map ledgerResponse, db)

end Wagering
