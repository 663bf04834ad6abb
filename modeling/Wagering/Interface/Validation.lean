import Wagering.Persistence.Rows

/-!
# Validation of what comes in

`interface/validation.ts`: the fields of a parsed body, checked and normalised
one by one.  Every refusal is an `ApplicationError`.
-/

namespace Wagering

open Text

/-- The fields of a JSON object. -/
abbrev Record : Type := List (Text × Json)

/-- `source[field]`; a field that is missing is `undefined`. -/
def Record.get (source : Record) (field : Text) : Option Json := source.lookup field

/-- `invalid`. -/
def invalid {α : Type} (message : Text) : Except Failure α :=
  .error (.application ⟨.invalidPayload, message, none⟩)

/-- `asRecord`. -/
def asRecord : Option Json → Except Failure Record
  | some (.object fields) => .ok fields
  | _ => invalid (utf16 "body must be a JSON object")

/-- The white space and line terminators that `String.prototype.trim` removes. -/
def isSpace (u : UInt16) : Bool :=
  let code := u.toNat
  (9 ≤ code && code ≤ 13) || code = 0x20 || code = 0xA0 || code = 0x1680 ||
    (0x2000 ≤ code && code ≤ 0x200A) || code = 0x2028 || code = 0x2029 || code = 0x202F ||
    code = 0x205F || code = 0x3000 || code = 0xFEFF

/-- `value.trim() === ''`. -/
def isBlank (value : Text) : Bool := value.all isSpace

/-- `hasControlCharacter`; a code unit below U+0080 is a whole character. -/
def hasControlCharacter (value : Text) : Bool :=
  value.any fun u => u.toNat < 0x20 || u.toNat = 0x7F

/-- `requireUuid`; `UUID_FORMAT` is the form that the server prints, in either case. -/
def requireUuid (value : Option Json) (field : Text) : Except Failure Text :=
  match value with
  | some (.string value) =>
    if isUuid value then .ok value else invalid (field ++ utf16 " must be a UUID")
  | _ => invalid (field ++ utf16 " must be a UUID")

/-- `REFERENCE_BEARING_KINDS`. -/
def WagerTransactionKind.bearsReference : WagerTransactionKind → Bool
  | .refund | .rollback | .win => true
  | _ => false

/-- `SUBMITTABLE_KINDS`. -/
def submittableKinds : List WagerTransactionKind := [.bet, .win, .loss, .refund, .rollback]

/-- `Number.MAX_SAFE_INTEGER`. -/
def maxSafeInteger : Nat := 9007199254740991

variable [Platform]

/-- `boundedString`. -/
def boundedString (value : Option Json) (field : Text) (maxLength : Nat) :
    Except Failure Text :=
  match value with
  | some (.string value) =>
    if isBlank value then invalid (field ++ utf16 " must be a non-empty string")
    else if hasControlCharacter value then
      invalid (field ++ utf16 " must not contain control characters")
    else
      let normalized := Platform.normalizeNfc value
      if maxLength < normalized.length then
        invalid (field ++ utf16 " must have at most " ++ decimal maxLength ++ utf16 " characters")
      else .ok normalized
  | _ => invalid (field ++ utf16 " must be a non-empty string")

/-- `requiredString`. -/
def requiredString (source : Record) (field : Text) (maxLength : Nat) : Except Failure Text :=
  boundedString (source.get field) field maxLength

/-- `optionalString`. -/
def optionalString (source : Record) (field : Text) (maxLength : Nat) :
    Except Failure (Option Text) :=
  match source.get field with
  | none | some .null => .ok none
  | value => some <$> boundedString value field maxLength

/-- The properties of a value with `typeof value === 'object'`; those of an array
have other names than the ones that are asked for. -/
def propertiesOf : Option Json → Option Record
  | some (.object fields) => some fields
  | some (.array _) => some []
  | _ => none

/-- `money`. -/
def money (source : Record) (field : Text) : Except Failure MoneyProps :=
  match propertiesOf (source.get field) with
  | none => invalid (field ++ utf16 " must be an object with amount and currency")
  | some props =>
    match props.get (utf16 "amount") with
    | some (.string amount) =>
      match props.get (utf16 "currency") with
      | some (.string currency) =>
        match Money.from ⟨amount, currency⟩ with
        | .ok money => .ok money.toJSON
        | .error (.invalidMoney message) => invalid (field ++ utf16 " is invalid: " ++ message)
        | .error e => .error (.domain e)
      | _ => invalid (field ++ utf16 ".currency must be a string")
    | _ => invalid (field ++ utf16 ".amount must be a decimal string")

/-- `CreateWalletBody`. -/
structure CreateWalletBody : Type where
  playerId : Text
  initialBalance : MoneyProps
deriving DecidableEq

/-- `parseCreateWallet`. -/
def parseCreateWallet (body : Json) : Except Failure CreateWalletBody := do
  let source ← asRecord body
  let playerId ← requiredString source (utf16 "playerId") 64
  let initialBalance ← money source (utf16 "initialBalance")
  pure { playerId, initialBalance }

/-- `SubmitWagerBody`. -/
structure SubmitWagerBody : Type where
  providerId : Text
  externalTransactionId : Text
  playerId : Text
  walletId : Text
  roundId : Text
  gameId : Text
  kind : WagerTransactionKind
  money : MoneyProps
  referenceExternalTransactionId : Option Text
deriving DecidableEq

/-- The kind that a text names, if it can be submitted. -/
def submittableKind (text : Text) : Option WagerTransactionKind :=
  submittableKinds.find? fun kind => kind.text = text

/-- The last checks of `parseSubmitWager`, on the reference. -/
def checkReference (parsed : SubmitWagerBody) : Except Failure SubmitWagerBody :=
  let needsReference := parsed.kind = .refund || parsed.kind = .rollback
  if needsReference && parsed.referenceExternalTransactionId.isNone then
    .error (.application ⟨.referenceRequired,
      parsed.kind.text ++ utf16 " requires referenceExternalTransactionId", none⟩)
  -- mirrors `wager_reference_external_by_kind_ck`
  else if parsed.referenceExternalTransactionId.isSome && !parsed.kind.bearsReference then
    invalid (parsed.kind.text ++ utf16 " must not carry referenceExternalTransactionId")
  else .ok parsed

/-- `parseSubmitWager`. -/
def parseSubmitWager (body : Json) : Except Failure SubmitWagerBody := do
  let source ← asRecord body
  let kind ← requiredString source (utf16 "kind") maxSafeInteger
  match submittableKind kind with
  | none => invalid (utf16 "kind must be one of " ++ utf16 "BET, WIN, LOSS, REFUND, ROLLBACK")
  | some kind =>
    let providerId ← requiredString source (utf16 "providerId") 64
    if providerId = internalProviderId then
      .error (.application ⟨.reservedProviderId,
        internalProviderId ++ utf16 " is reserved for internal transactions", none⟩)
    else
      let externalTransactionId ← requiredString source (utf16 "externalTransactionId") 128
      let playerId ← requiredString source (utf16 "playerId") 64
      let walletId ← requireUuid (source.get (utf16 "walletId")) (utf16 "walletId")
      let roundId ← requiredString source (utf16 "roundId") 128
      let gameId ← requiredString source (utf16 "gameId") 128
      let money ← money source (utf16 "money")
      let referenceExternalTransactionId ←
        optionalString source (utf16 "referenceExternalTransactionId") 128
      checkReference
        { providerId, externalTransactionId, playerId, walletId, roundId, gameId, kind, money,
          referenceExternalTransactionId }

/-- `requireIdempotencyKey`, with the number of times the header was sent. -/
def requireIdempotencyKey (header : Option Text) (occurrences : Nat) : Except Failure Text :=
  match header with
  | none =>
    .error (.application ⟨.missingIdempotencyKey,
      utf16 "the Idempotency-Key header is required", none⟩)
  | some header =>
    if isBlank header then
      .error (.application ⟨.missingIdempotencyKey,
        utf16 "the Idempotency-Key header is required", none⟩)
    else if 1 < occurrences || header.contains 44 then
      invalid (utf16 "Idempotency-Key must be sent exactly once")
    else boundedString (some (.string header)) (utf16 "Idempotency-Key") 255

end Wagering
