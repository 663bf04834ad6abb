import Wagering.Correctness.Parsing
import Wagering.Correctness.Service

/-!
# Messages

A message whose body cannot be accepted is refused for good, and a message that
is accepted carries a command in normal form.  What nests too deep to be hashed
is neither: it comes back, however often it is delivered.
-/

namespace Wagering

open Text

variable [Platform]

/-- What `parseWagerMessage` may do with a body. -/
structure ParsesOrRefuses [Driver] (rawBody : Text) : Prop where
  refused : ∀ e, parseWagerMessage rawBody = .error e →
    (∃ code message, e = .application ⟨code, message, none⟩ ∧ code ∈ permanentInputCodes) ∧
      ∃ reason, refusalOutcome e = .permanent reason
  accepted : ∀ message, parseWagerMessage rawBody = .ok message →
    message.Normal ∧
      parseSubmitWager (.object message.command.body.record) = .ok message.command.body

/-- Malformed messages are permanent, and what is accepted is a fixed point of the
parser, exactly if the stack suffices for what is hashed. -/
theorem parsesOrRefuses_iff [Driver] (laws : NfcLaws) (rawBody : Text) :
    ParsesOrRefuses rawBody ↔ StackSuffices rawBody := by
  constructor
  · intro h envelope data hreaches
    by_contra hdeep
    obtain ⟨⟨code, message, he, -⟩, -⟩ :=
      h.refused .stackOverflow (hreaches.overflows (Nat.le_of_not_lt hdeep))
    cases he
  · intro hstack
    constructor
    case refused =>
      intro e h
      obtain ⟨code, message, rfl, hcode⟩ := parseWagerMessage_refuses hstack e h
      refine ⟨⟨code, message, rfl, hcode⟩, code.text ++ utf16 ": " ++ message, ?_⟩
      simp only [refusalOutcome, hcode, if_true]
    case accepted =>
      intro message h
      have hnormal := parseWagerMessage_normal laws h
      exact ⟨hnormal, (hnormal.body.parsed laws).accepted⟩

/-! ## A sample message -/

/-- The data of a bet on a wallet. -/
def sampleData (walletId : Text) : Record :=
  [(utf16 "providerId", .string (utf16 "pragmatic")),
   (utf16 "externalTransactionId", .string (utf16 "bet-1")),
   (utf16 "idempotencyKey", .string (utf16 "key-1")),
   (utf16 "playerId", .string (utf16 "p1")),
   (utf16 "walletId", .string walletId),
   (utf16 "roundId", .string (utf16 "r1")),
   (utf16 "gameId", .string (utf16 "g1")),
   (utf16 "kind", .string (utf16 "BET")),
   (utf16 "money", .object
     [(utf16 "amount", .string (utf16 "10.00")), (utf16 "currency", .string (utf16 "BRL"))])]

/-- The envelope around some data. -/
def envelopeOf (messageId : Text) (data : Record) : Record :=
  [(utf16 "messageId", .string messageId),
   (utf16 "type", .string expectedType),
   (utf16 "occurredAt", .string (utf16 "2026-07-29T15:00:00.000Z")),
   (utf16 "data", .object data)]

/-- The envelope of a bet. -/
def sampleEnvelope (messageId walletId : Text) : Json :=
  .object (envelopeOf messageId (sampleData walletId))

/-- The runtime, where `JSON.parse` reads back the texts of some values and the
date of the sample message is known. -/
@[reducible] def messagePlatform (known : List Json) : Platform :=
  { samplePlatform with
    parseJson := fun raw => known.find? fun value => canonicalize value = raw
    parseDate := fun text =>
      if text = utf16 "2026-07-29T15:00:00.000Z" then some ⟨1785337200000, by decide⟩ else none }

omit [Platform] in
theorem messagePlatform_nfc (known : List Json) : @NfcLaws (messagePlatform known) :=
  @NfcLaws.mk (messagePlatform known) (fun _ => rfl) (fun _ h => h) (fun _ h => h) fun _ _ => rfl

/-- The bet of the sample message. -/
def sampleMessage : Json := sampleEnvelope (utf16 "msg-1") (sampleId 1)

omit [Platform] in
/-- The only known text is read back. -/
theorem messagePlatform_parseJson (x : Json) :
    (messagePlatform [x]).parseJson (canonicalize x) = some x :=
  List.find?_cons_of_pos (decide_eq_true rfl)

omit [Platform] in
/-- In the envelope of a known message, only the data is open. -/
theorem envelopeOf_stackSuffices {messageId : Text} {data : Record}
    (h : (Json.object data).nesting < samplePlatform.maxNesting) :
    @StackSuffices (messagePlatform [.object (envelopeOf messageId data)])
      (canonicalize (.object (envelopeOf messageId data))) := by
  rintro envelope data' ⟨hparsed, -, -, -, hfilled, -⟩
  rw [messagePlatform_parseJson] at hparsed
  cases hparsed
  rw [show Record.get (envelopeOf messageId data) (utf16 "data") = some (.object data) from rfl]
    at hfilled
  cases hfilled
  exact h

omit [Platform] in
theorem sample_parses :
    (@parseWagerMessage (messagePlatform [sampleMessage]) (canonicalize sampleMessage)).isOk =
      true := by
  decide +kernel

omit [Platform] in
theorem sample_parsesOrRefuses :
    @ParsesOrRefuses (messagePlatform [sampleMessage]) sampleDriver (canonicalize sampleMessage) ∧
      (@parseWagerMessage (messagePlatform [sampleMessage]) (canonicalize sampleMessage)).isOk =
        true :=
  ⟨(@parsesOrRefuses_iff (messagePlatform [sampleMessage]) sampleDriver
    (messagePlatform_nfc [sampleMessage]) (canonicalize sampleMessage)).mpr
      (envelopeOf_stackSuffices (by decide +kernel)), sample_parses⟩

/-! ## A message that is too deep -/

/-- Arrays, one inside the other. -/
def nested : Nat → Json
  | 0 => .array []
  | n + 1 => .array [nested n]

omit [Platform] in
theorem nesting_nested (n : Nat) : (nested n).nesting = n + 1 := by
  induction n with
  | zero => rfl
  | succ n ih => simp [nested, Json.nesting, Json.itemsNesting, ih]

omit [Platform] in
theorem length_nested (n : Nat) : (canonicalize (nested n)).length = 2 * (n + 1) := by
  induction n with
  | zero => rfl
  | succ n ih =>
    have hshape : canonicalize (nested (n + 1)) = 91 :: (canonicalize (nested n) ++ [93]) := by
      simp [nested, canonicalize, canonicalizeItems, join, utf16]
    rw [hshape]
    simp only [List.length_cons, List.length_append, List.length_nil, ih]
    omega

/-- A bet with one more field, which nobody reads. -/
def deepData (n : Nat) : Record := sampleData (sampleId 1) ++ [(utf16 "note", nested n)]

/-- The message that brings it. -/
def deepMessage (n : Nat) : Json := .object (envelopeOf (utf16 "msg-1") (deepData n))

omit [Platform] in
theorem deep_reachesHash (n : Nat) :
    @ReachesHash (messagePlatform [deepMessage n]) (canonicalize (deepMessage n))
      (envelopeOf (utf16 "msg-1") (deepData n)) (deepData n) :=
  @ReachesHash.mk (messagePlatform [deepMessage n]) _ _ _ (messagePlatform_parseJson _)
    ⟨_, rfl⟩ rfl ⟨_, rfl⟩ rfl ⟨_, rfl⟩

omit [Platform] in
theorem nesting_deepData (n : Nat) : (Json.object (deepData n)).nesting = n + 2 := by
  simp [deepData, sampleData, Json.nesting, Json.fieldsNesting, nesting_nested]

omit [Platform] in
theorem length_canonicalize_concat (fields : Record) (key : Text) (value : Json) :
    (canonicalize (.object (fields ++ [(key, value)]))).length =
      (fields.flatMap fun f => printField f ++ [44]).length + (jsonString key).length +
        (canonicalize value).length + 3 := by
  rw [length_canonicalize_object (by simp), List.flatMap_append, List.flatMap_singleton, printField]
  simp only [List.length_append, List.length_cons, List.length_nil]
  omega

omit [Platform] in
/-- The message is not long: two characters for each level. -/
theorem length_deepMessage (n : Nat) : (canonicalize (deepMessage n)).length ≤ 2 * n + 500 := by
  have hbet : ((sampleData (sampleId 1)).flatMap fun f => printField f ++ [44]).length ≤ 300 := by
    decide +kernel
  have hhead : (((envelopeOf (utf16 "msg-1") []).take 3).flatMap fun f =>
      printField f ++ [44]).length ≤ 150 := by
    decide +kernel
  have hkeys : (jsonString (utf16 "note")).length = 6 ∧ (jsonString (utf16 "data")).length = 6 :=
    ⟨rfl, rfl⟩
  have hdata := length_canonicalize_concat (sampleData (sampleId 1)) (utf16 "note") (nested n)
  have hmessage := length_canonicalize_concat ((envelopeOf (utf16 "msg-1") []).take 3)
    (utf16 "data") (.object (deepData n))
  rw [length_nested] at hdata
  change (canonicalize (deepMessage n)).length = _ at hmessage
  change (canonicalize (.object (deepData n))).length = _ at hdata
  omega

/-- Its text, of 40 kB. -/
def deepBody : Text := canonicalize (deepMessage 20000)

omit [Platform] in
theorem length_deepBody : (utf8 deepBody).length < 262144 := by
  have hshort : deepBody.length ≤ 2 * 20000 + 500 := length_deepMessage 20000
  have hbytes := length_utf8_le deepBody
  omega

omit [Platform] in
theorem deepBody_overflows :
    @parseWagerMessage (messagePlatform [deepMessage 20000]) deepBody = .error .stackOverflow := by
  refine @ReachesHash.overflows (messagePlatform [deepMessage 20000]) _ _ _
    (deep_reachesHash 20000) ?_
  rw [nesting_deepData]
  decide

omit [Platform] in
/-- A short body that brings a bet is returned for retry, as often as it comes. -/
theorem deepBody_returns :
    (utf8 deepBody).length < 262144 ∧ @NfcLaws (messagePlatform [deepMessage 20000]) ∧
      @parseWagerMessage (messagePlatform [deepMessage 20000]) deepBody = .error .stackOverflow ∧
      @refusalOutcome sampleDriver .stackOverflow =
        .transient (utf16 "Maximum call stack size exceeded.") ∧
      ¬ @ParsesOrRefuses (messagePlatform [deepMessage 20000]) sampleDriver deepBody := by
  refine ⟨length_deepBody, messagePlatform_nfc _, deepBody_overflows, rfl, fun h => ?_⟩
  obtain ⟨⟨code, message, he, -⟩, -⟩ :=
    @ParsesOrRefuses.refused (messagePlatform [deepMessage 20000]) sampleDriver _ h _
      deepBody_overflows
  cases he

end Wagering
