import Mathlib.Data.List.Sort
import Wagering.Domain.WagerTransaction

/-!
# Payload hashes

`application/idempotency/payload-hash.ts`: a canonical JSON text with sorted
keys, hashed with SHA-256 and written in hexadecimal.
-/

namespace Wagering

open Text

/-- `Array.prototype.join`. -/
def join (separator : Text) (parts : List Text) : Text :=
  (parts.intersperse separator).flatten

/-- An object from its already canonical values: the keys are sorted. -/
def canonicalObject (entries : List (Text × Text)) : Text :=
  utf16 "\x7b" ++ join (utf16 ",") ((entries.insertionSort fun a b => Text.le a.1 b.1).map
    fun entry => jsonString entry.1 ++ utf16 ":" ++ entry.2) ++ utf16 "\x7d"

mutual

/-- What `canonicalize` returns, if it does.  `JSON.stringify` of a number that is
not finite is `null`. -/
def canonicalize : Json → Text
  | .null => utf16 "null"
  | .bool true => utf16 "true"
  | .bool false => utf16 "false"
  | .number literal => if literal.isFiniteLiteral then literal else utf16 "null"
  | .string value => jsonString value
  | .array items => utf16 "[" ++ join (utf16 ",") (canonicalizeItems items) ++ utf16 "]"
  | .object fields => canonicalObject (canonicalizeFields fields)

def canonicalizeItems : List Json → List Text
  | [] => []
  | item :: items => canonicalize item :: canonicalizeItems items

def canonicalizeFields : List (Text × Json) → List (Text × Text)
  | [] => []
  | (key, value) :: fields => (key, canonicalize value) :: canonicalizeFields fields

end

mutual

/-- `canonicalize`, where the call stack has room for `depth` arrays and objects
one inside the other: the recursion stands in no `try`. -/
def canonicalizeWithin : Nat → Json → Except Failure Text
  | depth + 1, .array items => do
    let parts ← canonicalizeItemsWithin depth items
    pure (utf16 "[" ++ join (utf16 ",") parts ++ utf16 "]")
  | depth + 1, .object fields => do
    let entries ← canonicalizeFieldsWithin depth fields
    pure (canonicalObject entries)
  | 0, .array _ | 0, .object _ => .error .stackOverflow
  | _, scalar => .ok (canonicalize scalar)

def canonicalizeItemsWithin : Nat → List Json → Except Failure (List Text)
  | _, [] => .ok []
  | depth, item :: items => do
    let part ← canonicalizeWithin depth item
    let parts ← canonicalizeItemsWithin depth items
    pure (part :: parts)

def canonicalizeFieldsWithin : Nat → List (Text × Json) → Except Failure (List (Text × Text))
  | _, [] => .ok []
  | depth, (key, value) :: fields => do
    let text ← canonicalizeWithin depth value
    let entries ← canonicalizeFieldsWithin depth fields
    pure ((key, text) :: entries)

end

/-- `digest('hex')`. -/
def hexDigest (digest : BitVec 256) : Text :=
  (List.range 64).map fun i => hexDigit (digest.toNat / 16 ^ (63 - i) % 16)

@[simp] theorem length_hexDigest (digest : BitVec 256) : (hexDigest digest).length = 64 := by
  simp [hexDigest]

variable [Platform]

/-- `sha256Hex`. -/
def sha256Hex (value : Text) : Text := hexDigest (Platform.sha256 value)

/-- `BusinessPayload`. -/
structure BusinessPayload : Type where
  providerId : Text
  externalTransactionId : Text
  playerId : Text
  walletId : Text
  roundId : Text
  gameId : Text
  kind : WagerTransactionKind
  money : Money
  referenceExternalTransactionId : Option Text

/-- The fields that are hashed; an absent reference is left out. -/
def BusinessPayload.fields (payload : BusinessPayload) : List (Text × Text) :=
  [(utf16 "providerId", payload.providerId),
   (utf16 "externalTransactionId", payload.externalTransactionId),
   (utf16 "playerId", payload.playerId),
   (utf16 "walletId", payload.walletId),
   (utf16 "roundId", payload.roundId),
   (utf16 "gameId", payload.gameId),
   (utf16 "kind", payload.kind.text),
   (utf16 "amount", payload.money.toString),
   (utf16 "currency", payload.money.currency)] ++
  payload.referenceExternalTransactionId.toList.map
    fun reference => (utf16 "referenceExternalTransactionId", reference)

/-- `payloadHashOf`. -/
def payloadHashOf (payload : BusinessPayload) : Text :=
  sha256Hex (canonicalize (.object (payload.fields.map fun f => (f.1, .string f.2))))

@[simp] theorem length_payloadHashOf (payload : BusinessPayload) :
    (payloadHashOf payload).length = 64 := by
  simp [payloadHashOf, sha256Hex]

end Wagering
