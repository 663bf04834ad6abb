import Wagering.Correctness.Canonical
import Wagering.Interface.Worker

/-!
# What parsing accepts and how it refuses

A body is refused with one of the codes that the worker takes for permanent, and
with nothing else, unless its data nests too deep to be hashed.  What is accepted
is in normal form: parsing it again gives the same fields.
-/

namespace Wagering

open Text

/-! ## Refusals -/

/-- What is thrown, if anything, is an `ApplicationError` with one of the codes. -/
def RefusesWith (codes : List ErrorCode) {α : Type} (r : Except Failure α) : Prop :=
  ∀ e, r = .error e → ∃ code message, e = .application ⟨code, message, none⟩ ∧ code ∈ codes

section Refusals

variable {α β : Type} {codes : List ErrorCode}

theorem RefusesWith.ok (a : α) : RefusesWith codes (.ok a : Except Failure α) := by
  intro e h
  cases h

theorem RefusesWith.error {code : ErrorCode} {message : Text} (h : code ∈ codes) :
    RefusesWith codes (.error (.application ⟨code, message, none⟩) : Except Failure α) := by
  rintro e ⟨⟩
  exact ⟨code, message, rfl, h⟩

theorem RefusesWith.bind {r : Except Failure α} {f : α → Except Failure β}
    (h : RefusesWith codes r) (hf : ∀ a, r = .ok a → RefusesWith codes (f a)) :
    RefusesWith codes (r >>= f) := by
  cases r with
  | error e =>
    intro e' h'
    obtain ⟨code, message, rfl, hcode⟩ := h e rfl
    cases h'
    exact ⟨code, message, rfl, hcode⟩
  | ok a => exact hf a rfl

theorem RefusesWith.map {r : Except Failure α} (h : RefusesWith codes r) (f : α → β) :
    RefusesWith codes (f <$> r) := by
  cases r with
  | error e =>
    intro e' h'
    obtain ⟨code, message, rfl, hcode⟩ := h e rfl
    cases h'
    exact ⟨code, message, rfl, hcode⟩
  | ok a => exact .ok (f a)

theorem invalid_refuses (message : Text) :
    RefusesWith permanentInputCodes (invalid message : Except Failure α) :=
  .error (by decide)

theorem asRecord_refuses (body : Option Json) : RefusesWith permanentInputCodes (asRecord body) := by
  unfold asRecord
  split
  · exact .ok _
  · exact invalid_refuses _

theorem asRecord_ok {body : Option Json} {fields : Record} (h : asRecord body = .ok fields) :
    body = some (.object fields) := by
  unfold asRecord at h
  split at h
  · cases h
    rfl
  · cases h

theorem requireUuid_refuses (value : Option Json) (field : Text) :
    RefusesWith permanentInputCodes (requireUuid value field) := by
  unfold requireUuid
  split
  · split
    · exact .ok _
    · exact invalid_refuses _
  · exact invalid_refuses _

theorem checkReference_refuses (parsed : SubmitWagerBody) :
    RefusesWith permanentInputCodes (checkReference parsed) := by
  unfold checkReference
  simp only
  split
  · exact .error (by decide)
  · split
    · exact invalid_refuses _
    · exact .ok _

variable [Platform]

theorem boundedString_refuses (value : Option Json) (field : Text) (maxLength : Nat) :
    RefusesWith permanentInputCodes (boundedString value field maxLength) := by
  unfold boundedString
  split
  · split
    · exact invalid_refuses _
    · split
      · exact invalid_refuses _
      · simp only
        split
        · exact invalid_refuses _
        · exact .ok _
  · exact invalid_refuses _

theorem requiredString_refuses (source : Record) (field : Text) (maxLength : Nat) :
    RefusesWith permanentInputCodes (requiredString source field maxLength) :=
  boundedString_refuses _ _ _

theorem optionalString_refuses (source : Record) (field : Text) (maxLength : Nat) :
    RefusesWith permanentInputCodes (optionalString source field maxLength) := by
  unfold optionalString
  split
  · exact .ok _
  · exact .ok _
  · exact (boundedString_refuses _ _ _).map _

/-- `Money.from` throws nothing but `InvalidMoneyError`. -/
theorem Money.from_error {props : MoneyProps} {e : DomainError}
    (h : Money.from props = .error e) : ∃ message, e = .invalidMoney message := by
  unfold Money.from at h
  cases hc : assertCurrency props.currency with
  | error e' =>
    rw [hc] at h
    cases h
    unfold assertCurrency at hc
    split at hc
    · cases hc
      exact ⟨_, rfl⟩
    · split at hc
      · cases hc
      · cases hc
        exact ⟨_, rfl⟩
  | ok currency =>
    rw [hc] at h
    simp only [bind, Except.bind] at h
    split at h
    · cases h
      exact ⟨_, rfl⟩
    · split at h
      · cases h
        exact ⟨_, rfl⟩
      · split at h
        · cases h
        · cases h
          exact ⟨_, rfl⟩

theorem money_refuses (source : Record) (field : Text) :
    RefusesWith permanentInputCodes (money source field) := by
  unfold money
  split
  · exact invalid_refuses _
  · split
    · split
      · split
        · exact .ok _
        · exact invalid_refuses _
        · rename_i e hne hfrom
          obtain ⟨message, rfl⟩ := Money.from_error hfrom
          exact absurd rfl (hne message)
      · exact invalid_refuses _
    · exact invalid_refuses _

theorem parseSubmitWager_refuses (body : Json) :
    RefusesWith permanentInputCodes (parseSubmitWager body) := by
  unfold parseSubmitWager
  refine (asRecord_refuses _).bind fun source _ => ?_
  refine (requiredString_refuses _ _ _).bind fun kind _ => ?_
  split
  · exact invalid_refuses _
  · refine (requiredString_refuses _ _ _).bind fun providerId _ => ?_
    split
    · exact .error (by decide)
    · refine (requiredString_refuses _ _ _).bind fun externalTransactionId _ => ?_
      refine (requiredString_refuses _ _ _).bind fun playerId _ => ?_
      refine (requireUuid_refuses _ _).bind fun walletId _ => ?_
      refine (requiredString_refuses _ _ _).bind fun roundId _ => ?_
      refine (requiredString_refuses _ _ _).bind fun gameId _ => ?_
      refine (money_refuses _ _).bind fun money _ => ?_
      refine (optionalString_refuses _ _ _).bind fun reference _ => ?_
      exact checkReference_refuses _

theorem timestamp_refuses (source : Record) (field : Text) :
    RefusesWith permanentInputCodes (timestamp source field) := by
  unfold timestamp
  refine (requiredString_refuses _ _ _).bind fun value _ => ?_
  split
  · exact invalid_refuses _
  · exact .ok _

/-- A body that passes every check before the hash. -/
structure ReachesHash (rawBody : Text) (envelope data : Record) : Prop where
  parsed : Platform.parseJson rawBody = some (.object envelope)
  identified : ∃ messageId, requiredString envelope (utf16 "messageId") 128 = .ok messageId
  typed : requiredString envelope (utf16 "type") maxSafeInteger = .ok expectedType
  dated : ∃ occurredAt, timestamp envelope (utf16 "occurredAt") = .ok occurredAt
  filled : envelope.get (utf16 "data") = some (.object data)
  keyed : ∃ key, requiredString data (utf16 "idempotencyKey") 255 = .ok key

/-- The data of a message that comes so far nests less deep than the stack has
room for: the envelope around it is one level more. -/
def StackSuffices (rawBody : Text) : Prop :=
  ∀ envelope data, ReachesHash rawBody envelope data →
    (Json.object data).nesting < Platform.maxNesting

omit [Platform] in
theorem nesting_hashedEnvelope (type : Text) (occurredAt : TimeValue) (data : Record) :
    (hashedEnvelope type occurredAt data).nesting = (Json.object data).nesting + 1 := by
  simp [hashedEnvelope, Json.nesting, Json.fieldsNesting]

/-- Where the stack suffices, a body is refused as permanent or not at all. -/
theorem parseWagerMessage_refuses {rawBody : Text} (hstack : StackSuffices rawBody) :
    RefusesWith permanentInputCodes (parseWagerMessage rawBody) := by
  unfold parseWagerMessage
  split
  · exact invalid_refuses _
  · rename_i body hbody
    refine (asRecord_refuses _).bind fun envelope henvelope => ?_
    refine (requiredString_refuses _ _ _).bind fun messageId hmessage => ?_
    refine (requiredString_refuses _ _ _).bind fun type htype => ?_
    split
    · exact invalid_refuses _
    · rename_i hexpected
      obtain rfl : type = expectedType := not_not.mp hexpected
      refine (timestamp_refuses _ _).bind fun occurredAt hat => ?_
      refine (asRecord_refuses _).bind fun data hdata => ?_
      refine (requiredString_refuses _ _ _).bind fun idempotencyKey hkey => ?_
      have hroom := hstack envelope data
        ⟨hbody.trans (asRecord_ok henvelope), ⟨messageId, hmessage⟩, htype, ⟨occurredAt, hat⟩,
          asRecord_ok hdata, ⟨idempotencyKey, hkey⟩⟩
      rw [canonicalizeWithin_eq, ifFits, if_pos (by rw [nesting_hashedEnvelope]; exact hroom)]
      refine (parseSubmitWager_refuses _).bind fun parsed _ => ?_
      exact .ok _

/-- Where it does not, the hash throws, and nothing catches it. -/
theorem ReachesHash.overflows {rawBody : Text} {envelope data : Record}
    (h : ReachesHash rawBody envelope data)
    (hdeep : Platform.maxNesting ≤ (Json.object data).nesting) :
    parseWagerMessage rawBody = .error .stackOverflow := by
  obtain ⟨hbody, ⟨messageId, hmessage⟩, htype, ⟨occurredAt, hat⟩, hdata, ⟨key, hkey⟩⟩ := h
  have hhash : canonicalizeWithin Platform.maxNesting (hashedEnvelope expectedType occurredAt data) =
      .error .stackOverflow := by
    rw [canonicalizeWithin_eq, ifFits, nesting_hashedEnvelope, if_neg (by omega)]
  simp only [parseWagerMessage, hbody, asRecord, hmessage, htype, hat, hdata, hkey, hhash, bind,
    Except.bind, ne_eq, not_true_eq_false, if_false]

end Refusals

/-! ## What is accepted -/

variable [Platform]

/-- What Unicode promises of the normal form NFC: it is a normal form, no
character becomes white space or a control character, and ASCII is left alone. -/
structure NfcLaws : Prop where
  idempotent : ∀ t, Platform.normalizeNfc (Platform.normalizeNfc t) = Platform.normalizeNfc t
  blank : ∀ t, isBlank (Platform.normalizeNfc t) = true → isBlank t = true
  printable : ∀ t, hasControlCharacter t = false →
    hasControlCharacter (Platform.normalizeNfc t) = false
  ascii : ∀ t, (∀ u ∈ t, u.toNat < 128) → Platform.normalizeNfc t = t

/-- A text as a bounded column takes it: not blank, in NFC, without control
characters and not too long. -/
structure Clean (maxLength : Nat) (t : Text) : Prop where
  filled : isBlank t = false
  normal : Platform.normalizeNfc t = t
  printable : hasControlCharacter t = false
  bounded : t.length ≤ maxLength

/-- What `boundedString` returns comes from a string, by normalisation. -/
theorem boundedString_ok {value : Option Json} {field : Text} {maxLength : Nat} {t : Text}
    (h : boundedString value field maxLength = .ok t) :
    ∃ s, value = some (.string s) ∧ isBlank s = false ∧ hasControlCharacter s = false ∧
      t = Platform.normalizeNfc s ∧ t.length ≤ maxLength := by
  unfold boundedString at h
  split at h
  case h_1 s =>
    split at h
    · cases h
    · split at h
      · cases h
      · simp only at h
        split at h
        · cases h
        · cases h
          exact ⟨s, rfl, by simpa using ‹¬ isBlank s = true›,
            by simpa using ‹¬ hasControlCharacter s = true›, rfl, by omega⟩
  case h_2 => cases h

theorem boundedString_clean (laws : NfcLaws) {value : Option Json} {field : Text} {maxLength : Nat}
    {t : Text} (h : boundedString value field maxLength = .ok t) : Clean maxLength t := by
  obtain ⟨s, -, hfilled, hprintable, rfl, hbounded⟩ := boundedString_ok h
  refine ⟨?_, laws.idempotent s, laws.printable s hprintable, hbounded⟩
  by_contra hblank
  rw [laws.blank s (by simpa using hblank)] at hfilled
  cases hfilled

/-- A clean text is accepted as it is. -/
theorem Clean.accepted {maxLength : Nat} {t : Text} (h : Clean maxLength t) (field : Text)
    {limit : Nat} (hlimit : maxLength ≤ limit) :
    boundedString (some (.string t)) field limit = .ok t := by
  have hbounded := h.bounded
  simp only [boundedString, h.filled, h.printable, h.normal, Bool.false_eq_true, if_false]
  rw [if_neg (by omega)]

/-- An amount as a body carries it once it is accepted: two decimals, no sign and
no leading zeros, within range, in a known currency. -/
def MoneyProps.Canonical (money : MoneyProps) : Prop :=
  ∃ cents : Nat, cents ≤ maxAbsolute ∧ money.amount = toFixed cents ∧
    isIsoCurrency money.currency = true

/-- The value of an amount of money in a body. -/
def MoneyProps.toJson (money : MoneyProps) : Json :=
  .object [(utf16 "amount", .string money.amount), (utf16 "currency", .string money.currency)]

/-- What `money` returns was read from two strings. -/
theorem money_ok {source : Record} {field : Text} {props : MoneyProps}
    (h : money source field = .ok props) :
    ∃ given m, Money.from given = .ok m ∧ props = m.toJSON ∧
      ∃ fields, propertiesOf (source.get field) = some fields ∧
        fields.get (utf16 "amount") = some (.string given.amount) ∧
        fields.get (utf16 "currency") = some (.string given.currency) := by
  unfold money at h
  split at h
  · cases h
  · rename_i fields hfields
    split at h
    · rename_i amount hamount
      split at h
      · rename_i currency hcurrency
        split at h
        · rename_i m hm
          cases h
          exact ⟨_, m, hm, rfl, fields, hfields, hamount, hcurrency⟩
        · cases h
        · cases h
      · cases h
    · cases h

theorem Money.canonical_toJSON {m : Money} (h : 0 ≤ m.cents) : m.toJSON.Canonical := by
  obtain ⟨n, hn⟩ := Int.eq_ofNat_of_zero_le h
  have hrange := m.inRange
  rw [hn, Int.natAbs_natCast] at hrange
  refine ⟨n, hrange, ?_, m.isoCurrency⟩
  rw [← hn]
  rfl

theorem money_canonical {source : Record} {field : Text} {props : MoneyProps}
    (h : money source field = .ok props) : props.Canonical := by
  obtain ⟨given, m, hm, rfl, -⟩ := money_ok h
  exact Money.canonical_toJSON (Money.from_spec hm).1

/-- A canonical amount is accepted as it is. -/
theorem MoneyProps.Canonical.accepted {props : MoneyProps} (h : props.Canonical) {source : Record}
    {field : Text} (hget : source.get field = some props.toJson) :
    money source field = .ok props := by
  obtain ⟨cents, hrange, hamount, hcurrency⟩ := h
  obtain ⟨amount, currency⟩ := props
  dsimp only at hamount hcurrency
  subst hamount
  have hfrom := Money.from_toFixed (Int.natCast_nonneg cents) (by simpa using hrange) hcurrency
  have hamount : Record.get [(utf16 "amount", .string (toFixed cents)),
      (utf16 "currency", .string currency)] (utf16 "amount") = some (.string (toFixed cents)) := rfl
  have hcurr : Record.get [(utf16 "amount", .string (toFixed cents)),
      (utf16 "currency", .string currency)] (utf16 "currency") = some (.string currency) := rfl
  simp only [money, hget, MoneyProps.toJson, propertiesOf, hamount, hcurr, hfrom]
  rfl

/-- The fields of a submission in normal form. -/
structure SubmitWagerBody.Normal (body : SubmitWagerBody) : Prop where
  providerId : Clean 64 body.providerId
  unreserved : body.providerId ≠ internalProviderId
  externalTransactionId : Clean 128 body.externalTransactionId
  playerId : Clean 64 body.playerId
  walletId : isUuid body.walletId = true
  roundId : Clean 128 body.roundId
  gameId : Clean 128 body.gameId
  kind : body.kind ∈ submittableKinds
  money : body.money.Canonical
  reference : ∀ r ∈ body.referenceExternalTransactionId, Clean 128 r
  referenced : body.kind = .refund ∨ body.kind = .rollback →
    body.referenceExternalTransactionId.isSome = true
  unreferenced : body.kind = .bet ∨ body.kind = .loss → body.referenceExternalTransactionId = none

theorem optionalString_ok {source : Record} {field : Text} {maxLength : Nat} {t : Option Text}
    (h : optionalString source field maxLength = .ok t) :
    (t = none ∧ (source.get field = none ∨ source.get field = some .null)) ∨
      ∃ r, t = some r ∧ boundedString (source.get field) field maxLength = .ok r := by
  unfold optionalString at h
  split at h
  case h_1 hget =>
    cases h
    exact .inl ⟨rfl, .inl hget⟩
  case h_2 hget =>
    cases h
    exact .inl ⟨rfl, .inr hget⟩
  case h_3 value hnone hnull =>
    cases hr : boundedString (source.get field) field maxLength with
    | error e =>
      rw [hr] at h
      cases h
    | ok r =>
      rw [hr] at h
      cases h
      exact .inr ⟨r, rfl, rfl⟩

omit [Platform] in
theorem checkReference_ok {parsed body : SubmitWagerBody} (h : checkReference parsed = .ok body) :
    body = parsed ∧
      (parsed.kind = .refund ∨ parsed.kind = .rollback →
        parsed.referenceExternalTransactionId.isSome = true) ∧
      (parsed.kind = .bet ∨ parsed.kind = .loss →
        parsed.referenceExternalTransactionId = none) := by
  unfold checkReference at h
  simp only at h
  split at h
  · cases h
  · rename_i hneeds
    split at h
    · cases h
    · rename_i hbears
      cases h
      refine ⟨rfl, fun hkind => ?_, fun hkind => ?_⟩
      · rcases hkind with hkind | hkind <;>
          simpa [hkind, ← Option.isSome_iff_ne_none] using hneeds
      · rcases hkind with hkind | hkind <;>
          simpa [hkind, WagerTransactionKind.bearsReference] using hbears

omit [Platform] in
theorem checkReference_of {body : SubmitWagerBody}
    (hrequired : body.kind = .refund ∨ body.kind = .rollback →
      body.referenceExternalTransactionId.isSome = true)
    (hforbidden : body.kind = .bet ∨ body.kind = .loss →
      body.referenceExternalTransactionId = none)
    (hkind : body.kind ∈ submittableKinds) : checkReference body = .ok body := by
  obtain ⟨p, e, pl, w, r, g, kind, m, reference⟩ := body
  cases kind <;> cases reference <;>
    simp_all [checkReference, WagerTransactionKind.bearsReference, submittableKinds]

/-- The steps of `parseSubmitWager` on a body that it accepts. -/
structure Parsed (source : Record) (body : SubmitWagerBody) : Prop where
  kind : ∃ text, requiredString source (utf16 "kind") maxSafeInteger = .ok text ∧
    submittableKind text = some body.kind
  providerId : requiredString source (utf16 "providerId") 64 = .ok body.providerId
  unreserved : body.providerId ≠ internalProviderId
  externalTransactionId :
    requiredString source (utf16 "externalTransactionId") 128 = .ok body.externalTransactionId
  playerId : requiredString source (utf16 "playerId") 64 = .ok body.playerId
  walletId : requireUuid (source.get (utf16 "walletId")) (utf16 "walletId") = .ok body.walletId
  roundId : requiredString source (utf16 "roundId") 128 = .ok body.roundId
  gameId : requiredString source (utf16 "gameId") 128 = .ok body.gameId
  money : money source (utf16 "money") = .ok body.money
  reference : optionalString source (utf16 "referenceExternalTransactionId") 128 =
    .ok body.referenceExternalTransactionId
  referenced : body.kind = .refund ∨ body.kind = .rollback →
    body.referenceExternalTransactionId.isSome = true
  unreferenced : body.kind = .bet ∨ body.kind = .loss → body.referenceExternalTransactionId = none

theorem parseSubmitWager_ok {json : Json} {body : SubmitWagerBody}
    (h : parseSubmitWager json = .ok body) :
    ∃ source, asRecord (some json) = .ok source ∧ Parsed source body := by
  unfold parseSubmitWager at h
  obtain ⟨source, hsource, h⟩ := bind_ok h
  obtain ⟨text, htext, h⟩ := bind_ok h
  split at h
  · cases h
  · rename_i kind hkind
    obtain ⟨providerId, hprovider, h⟩ := bind_ok h
    split at h
    · cases h
    · rename_i hunreserved
      obtain ⟨externalTransactionId, hexternal, h⟩ := bind_ok h
      obtain ⟨playerId, hplayer, h⟩ := bind_ok h
      obtain ⟨walletId, hwallet, h⟩ := bind_ok h
      obtain ⟨roundId, hround, h⟩ := bind_ok h
      obtain ⟨gameId, hgame, h⟩ := bind_ok h
      obtain ⟨money, hmoney, h⟩ := bind_ok h
      obtain ⟨reference, hreference, h⟩ := bind_ok h
      obtain ⟨rfl, hreferenced, hunreferenced⟩ := checkReference_ok h
      exact ⟨source, hsource,
        { kind := ⟨text, htext, hkind⟩, providerId := hprovider, unreserved := hunreserved,
          externalTransactionId := hexternal, playerId := hplayer, walletId := hwallet,
          roundId := hround, gameId := hgame, money := hmoney, reference := hreference,
          referenced := hreferenced, unreferenced := hunreferenced }⟩

omit [Platform] in
theorem submittableKind_iff {text : Text} {kind : WagerTransactionKind} :
    submittableKind text = some kind ↔ kind ∈ submittableKinds ∧ kind.text = text := by
  constructor
  · intro h
    exact ⟨List.mem_of_find?_eq_some h, by simpa using List.find?_some h⟩
  · rintro ⟨hkind, rfl⟩
    cases kind with
    | opening => simp [submittableKinds] at hkind
    | _ => rfl

/-- `parseSubmitWager` succeeds on exactly the bodies whose steps all do. -/
theorem Parsed.accepted {source : Record} {body : SubmitWagerBody} (h : Parsed source body) :
    parseSubmitWager (.object source) = .ok body := by
  obtain ⟨text, htext, hkind⟩ := h.kind
  have hcheck := checkReference_of h.referenced h.unreferenced (submittableKind_iff.mp hkind).1
  unfold parseSubmitWager
  simp only [asRecord, htext, hkind, h.providerId, h.unreserved, h.externalTransactionId,
    h.playerId, h.walletId, h.roundId, h.gameId, h.money, h.reference, bind, Except.bind, if_false]
  exact hcheck

omit [Platform] in
theorem requireUuid_ok {value : Option Json} {field t : Text}
    (h : requireUuid value field = .ok t) : value = some (.string t) ∧ isUuid t = true := by
  unfold requireUuid at h
  split at h
  · split at h
    · cases h
      exact ⟨rfl, ‹_›⟩
    · cases h
  · cases h

/-- What is accepted is in normal form. -/
theorem Parsed.normal (laws : NfcLaws) {source : Record} {body : SubmitWagerBody}
    (h : Parsed source body) : body.Normal where
  providerId := boundedString_clean laws h.providerId
  unreserved := h.unreserved
  externalTransactionId := boundedString_clean laws h.externalTransactionId
  playerId := boundedString_clean laws h.playerId
  walletId := (requireUuid_ok h.walletId).2
  roundId := boundedString_clean laws h.roundId
  gameId := boundedString_clean laws h.gameId
  kind := by
    obtain ⟨text, -, hkind⟩ := h.kind
    exact (submittableKind_iff.mp hkind).1
  money := money_canonical h.money
  reference := fun r hr => by
    rcases optionalString_ok h.reference with ⟨hnone, -⟩ | ⟨t, hsome, hbounded⟩
    · rw [hnone] at hr
      cases hr
    · rw [hsome, Option.mem_some_iff] at hr
      exact hr ▸ boundedString_clean laws hbounded
  referenced := h.referenced
  unreferenced := h.unreferenced

/-- The body that carries some fields; an absent reference is left out. -/
def SubmitWagerBody.record (body : SubmitWagerBody) : Record :=
  [(utf16 "providerId", .string body.providerId),
   (utf16 "externalTransactionId", .string body.externalTransactionId),
   (utf16 "playerId", .string body.playerId),
   (utf16 "walletId", .string body.walletId),
   (utf16 "roundId", .string body.roundId),
   (utf16 "gameId", .string body.gameId),
   (utf16 "kind", .string body.kind.text),
   (utf16 "money", body.money.toJson)] ++
  body.referenceExternalTransactionId.toList.map
    fun reference => (utf16 "referenceExternalTransactionId", .string reference)

omit [Platform] in
theorem SubmitWagerBody.record_reference (body : SubmitWagerBody) :
    body.record.get (utf16 "referenceExternalTransactionId") =
      body.referenceExternalTransactionId.map Json.string := by
  obtain ⟨p, e, pl, w, r, g, kind, m, reference⟩ := body
  cases reference <;> rfl

/-- The name of a kind is accepted as it is. -/
theorem kindText_accepted (laws : NfcLaws) {kind : WagerTransactionKind} (field : Text) :
    boundedString (some (.string kind.text)) field maxSafeInteger = .ok kind.text := by
  have hclean : Clean 8 kind.text := by
    refine ⟨?_, laws.ascii _ (List.forall_iff_forall_mem.mp ?_), ?_, ?_⟩ <;>
      cases kind <;> decide
  exact hclean.accepted field (by decide)

/-- A body in normal form is parsed into itself. -/
theorem SubmitWagerBody.Normal.parsed (laws : NfcLaws) {body : SubmitWagerBody}
    (h : body.Normal) : Parsed body.record body where
  kind := ⟨body.kind.text, kindText_accepted laws _, submittableKind_iff.mpr ⟨h.kind, rfl⟩⟩
  providerId := h.providerId.accepted _ (Nat.le_refl _)
  unreserved := h.unreserved
  externalTransactionId := h.externalTransactionId.accepted _ (Nat.le_refl _)
  playerId := h.playerId.accepted _ (Nat.le_refl _)
  walletId := by
    have hget : body.record.get (utf16 "walletId") = some (.string body.walletId) := rfl
    simp only [requireUuid, hget, h.walletId, if_true]
  roundId := h.roundId.accepted _ (Nat.le_refl _)
  gameId := h.gameId.accepted _ (Nat.le_refl _)
  money := h.money.accepted rfl
  reference := by
    have hget := body.record_reference
    cases hreference : body.referenceExternalTransactionId with
    | none =>
      rw [hreference] at hget
      simp only [optionalString, hget, Option.map_none]
    | some r =>
      rw [hreference] at hget
      simp only [optionalString, hget, Option.map_some,
        (h.reference r hreference).accepted _ (Nat.le_refl _)]
      rfl
  referenced := h.referenced
  unreferenced := h.unreferenced

/-- The fields that `parseSubmitWager` put into a command. -/
def SubmitWagerCommand.body (command : SubmitWagerCommand) : SubmitWagerBody :=
  { command with }

/-- A message in normal form. -/
structure WagerMessage.Normal (message : WagerMessage) : Prop where
  messageId : Clean 128 message.messageId
  idempotencyKey : Clean 255 message.command.idempotencyKey
  correlationId : Clean 128 message.command.correlationId
  causationId : message.command.causationId = some message.messageId
  body : message.command.body.Normal

omit [Platform] in
theorem hexDigest_mem {digest : BitVec 256} {u : UInt16} (hu : u ∈ hexDigest digest) :
    48 ≤ u.toNat ∧ u.toNat < 103 := by
  rw [hexDigest, List.mem_map] at hu
  obtain ⟨i, -, rfl⟩ := hu
  have hlt : digest.toNat / 16 ^ (63 - i) % 16 < 16 := Nat.mod_lt _ (by decide)
  rw [Text.toNat_hexDigit hlt]
  split <;> omega

/-- A digest in hexadecimal fits every column it is written to. -/
theorem sha256Hex_clean (laws : NfcLaws) (value : Text) : Clean 128 (sha256Hex value) := by
  have hlength : (sha256Hex value).length = 64 := length_hexDigest _
  refine ⟨?_, laws.ascii _ fun u hu => ?_, ?_, by omega⟩
  · rw [isBlank, List.all_eq_false]
    cases hs : sha256Hex value with
    | nil => simp [hs] at hlength
    | cons u rest =>
      refine ⟨u, List.mem_cons_self, ?_⟩
      have hu := hexDigest_mem (show u ∈ hexDigest _ from hs ▸ List.mem_cons_self)
      simp only [isSpace, Bool.or_eq_true, Bool.and_eq_true, decide_eq_true_eq, not_or, not_and]
      omega
  · have := hexDigest_mem hu
    omega
  · rw [hasControlCharacter, List.any_eq_false]
    intro u hu
    have := hexDigest_mem hu
    simp only [Bool.or_eq_true, decide_eq_true_eq, not_or]
    omega

/-- What parsing returns is in normal form. -/
theorem parseWagerMessage_normal (laws : NfcLaws) {rawBody : Text} {message : WagerMessage}
    (h : parseWagerMessage rawBody = .ok message) : message.Normal := by
  unfold parseWagerMessage at h
  split at h
  · cases h
  · obtain ⟨envelope, -, h⟩ := bind_ok h
    obtain ⟨messageId, hmessage, h⟩ := bind_ok h
    obtain ⟨type, -, h⟩ := bind_ok h
    split at h
    · cases h
    · obtain ⟨occurredAt, -, h⟩ := bind_ok h
      obtain ⟨data, -, h⟩ := bind_ok h
      obtain ⟨idempotencyKey, hkey, h⟩ := bind_ok h
      obtain ⟨canonical, -, h⟩ := bind_ok h
      obtain ⟨parsed, hparsed, h⟩ := bind_ok h
      cases h
      obtain ⟨source, -, hsteps⟩ := parseSubmitWager_ok hparsed
      exact
        { messageId := boundedString_clean laws hmessage
          idempotencyKey := boundedString_clean laws hkey
          correlationId := sha256Hex_clean laws _
          causationId := rfl
          body := hsteps.normal laws }

end Wagering
