import Wagering.Correctness.Hashing
import Wagering.Guarantees.Messages

/-!
# Hashes

No two facts are taken for one: a hash determines what it was taken of.  One
fact is taken for two when its wallet is spelled in two ways: `UUID_FORMAT`
accepts hexadecimal digits of either case, and the hash tells them apart.
-/

namespace Wagering

open Text Interleave

section Statements

variable [Platform]

/-- Canonical texts and hashes determine what they were made from. -/
structure HashesDetermine : Prop where
  canonical : ∀ x y : Json, x.isFinite = true → y.isFinite = true →
    canonicalize x = canonicalize y → Json.Same x y
  payload : ∀ p q : BusinessPayload, NoCollision p.canonical q.canonical →
    payloadHashOf p = payloadHashOf q → p = q
  envelope : ∀ (type type' : Text) (occurredAt occurredAt' : TimeValue) (data data' : Record),
    (Json.object data).isFinite = true → (Json.object data').isFinite = true →
    NoCollision (canonicalize (hashedEnvelope type occurredAt data))
      (canonicalize (hashedEnvelope type' occurredAt' data')) →
    inboxPayloadHashOf type occurredAt data = inboxPayloadHashOf type' occurredAt' data' →
    type = type' ∧ occurredAt = occurredAt' ∧ Json.Same (.object data) (.object data')

theorem hashes_determine : HashesDetermine where
  canonical := fun _ _ hx hy h => Json.same_of_canonicalize hx hy h
  payload := fun _ _ hsha h => BusinessPayload.eq_of_hash hsha h
  envelope := fun _ _ _ _ _ _ hdata hdata' hsha h => inboxPayloadHashOf_inj hdata hdata' hsha h

/-! ## One fact, two spellings -/

/-- The string under a field of a body, if it is one. -/
def Record.text (source : Record) (field : String) : Option Text :=
  match source.get (utf16 field) with
  | some (.string value) => some value
  | _ => none

/-- The string under a field, up to canonical equivalence. -/
def Record.normalText (source : Record) (field : String) : Option Text :=
  (source.text field).map Platform.normalizeNfc

/-- The amount under `money`, as a number of hundredths in a currency. -/
def Record.amount (source : Record) : Option Money := do
  let props ← propertiesOf (source.get (utf16 "money"))
  let amount ← props.text "amount"
  let currency ← props.text "currency"
  (Money.from ⟨amount, currency⟩).toOption

/-- Two bodies denote the same fact. -/
structure SameFact (x y : Record) : Prop where
  providerId : x.normalText "providerId" = y.normalText "providerId"
  externalTransactionId :
    x.normalText "externalTransactionId" = y.normalText "externalTransactionId"
  playerId : x.normalText "playerId" = y.normalText "playerId"
  walletId : (x.text "walletId").map uuidText = (y.text "walletId").map uuidText
  roundId : x.normalText "roundId" = y.normalText "roundId"
  gameId : x.normalText "gameId" = y.normalText "gameId"
  kind : x.normalText "kind" = y.normalText "kind"
  amount : x.amount = y.amount
  reference : x.normalText "referenceExternalTransactionId" =
    y.normalText "referenceExternalTransactionId"

theorem normalText_of_required {source : Record} {field : String} {maxLength : Nat} {t : Text}
    (h : requiredString source (utf16 field) maxLength = .ok t) :
    source.normalText field = some t := by
  obtain ⟨s, hs, -, -, rfl, -⟩ := boundedString_ok h
  simp only [Record.normalText, Record.text, hs, Option.map_some]

theorem normalText_of_optional {source : Record} {field : String} {maxLength : Nat}
    {t : Option Text} (h : optionalString source (utf16 field) maxLength = .ok t) :
    source.normalText field = t := by
  rcases optionalString_ok h with ⟨rfl, hget | hget⟩ | ⟨r, rfl, hr⟩
  · simp only [Record.normalText, Record.text, hget, Option.map_none]
  · simp only [Record.normalText, Record.text, hget, Option.map_none]
  · exact normalText_of_required hr

theorem amount_of_money {source : Record} {props : MoneyProps} {m : Money}
    (h : money source (utf16 "money") = .ok props) (hm : Money.from props = .ok m) :
    source.amount = some m := by
  obtain ⟨given, m', hfrom, rfl, fields, hfields, hamount, hcurrency⟩ := money_ok h
  rw [Money.from_toJSON m' (Money.from_spec hfrom).1] at hm
  cases hm
  simp only [Record.amount, Record.text, hfields, hamount, hcurrency, Option.bind_eq_bind,
    Option.bind_some, hfrom]
  rfl

/-- The payload that `executeWithin` hashes for an accepted body. -/
def SubmitWagerBody.payload (body : SubmitWagerBody) (money : Money) : BusinessPayload :=
  { body with money }

/-- Bodies of one fact lead to the same payload up to the spelling of the wallet. -/
theorem SameFact.payload {x y : Record} {p q : SubmitWagerBody} {m m' : Money}
    (h : SameFact x y) (hx : Parsed x p) (hy : Parsed y q) (hm : Money.from p.money = .ok m)
    (hm' : Money.from q.money = .ok m') :
    q.payload m' = { p.payload m with walletId := q.walletId } := by
  have heq : ∀ {a b : Option Text} {s t : Text}, a = some s → b = some t → a = b → s = t := by
    rintro a b s t rfl rfl hab
    exact Option.some.inj hab
  have h1 := heq (normalText_of_required hx.providerId) (normalText_of_required hy.providerId)
    h.providerId
  have h2 := heq (normalText_of_required hx.externalTransactionId)
    (normalText_of_required hy.externalTransactionId) h.externalTransactionId
  have h3 := heq (normalText_of_required hx.playerId) (normalText_of_required hy.playerId)
    h.playerId
  have h4 := heq (normalText_of_required hx.roundId) (normalText_of_required hy.roundId) h.roundId
  have h5 := heq (normalText_of_required hx.gameId) (normalText_of_required hy.gameId) h.gameId
  have h6 : p.kind = q.kind := by
    obtain ⟨text, htext, hkind⟩ := hx.kind
    obtain ⟨text', htext', hkind'⟩ := hy.kind
    have := heq (normalText_of_required htext) (normalText_of_required htext') h.kind
    rw [this, hkind'] at hkind
    exact (Option.some.inj hkind).symm
  have h7 : m = m' := by
    have hamount := h.amount
    rw [amount_of_money hx.money hm, amount_of_money hy.money hm'] at hamount
    exact Option.some.inj hamount
  have h8 := (normalText_of_optional hx.reference).symm.trans
    (h.reference.trans (normalText_of_optional hy.reference))
  subst h7
  simp only [SubmitWagerBody.payload, h1, h2, h3, h4, h5, h6, h8]

/-- The rest of `resolveExisting`, once it has found the row of the key. -/
def AnswersByKey (command : SubmitWagerCommand) (payloadHash : Text) (byKey : WagerTransaction)
    (answer : Code SubmitWagerResult) : Prop :=
  ∃ next, resolveExisting command payloadHash =
      .call (.findByIdempotencyKey command.providerId command.idempotencyKey) next ∧
    next (some byKey) = answer

/-- What `resolveExisting` answers from the row that owns the key. -/
theorem answersByKey_iff {command : SubmitWagerCommand} {payloadHash : Text}
    {byKey : WagerTransaction} :
    AnswersByKey command payloadHash byKey (.pure (replayOf byKey)) ↔
      byKey.payloadHash = payloadHash := by
  have hfound : ∀ next, resolveExisting command payloadHash =
      .call (.findByIdempotencyKey command.providerId command.idempotencyKey) next →
      next (some byKey) =
        if !byKey.matchesPayload payloadHash then
          throwApplication .idempotencyKeyConflict
            "the idempotency key was already used with a different payload" (some byKey.id)
        else .pure (replayOf byKey) := by
    rintro next hnext
    cases hnext
    rfl
  constructor
  · rintro ⟨next, hnext, hanswer⟩
    rw [hfound next hnext] at hanswer
    by_contra hne
    have hmatches : byKey.matchesPayload payloadHash = false := by
      simpa [WagerTransaction.matchesPayload] using hne
    rw [hmatches] at hanswer
    cases hanswer
  · intro heq
    have hmatches : byKey.matchesPayload payloadHash = true := by
      simpa [WagerTransaction.matchesPayload] using heq
    refine ⟨_, rfl, ?_⟩
    rw [hfound _ rfl, hmatches]
    rfl

/-- Two accepted bodies of one fact hash alike, and the second is answered as a
replay of the first, exactly when they spell the wallet alike. -/
structure HashAgree (p q : SubmitWagerBody) (m m' : Money) : Prop where
  hash : payloadHashOf (p.payload m) = payloadHashOf (q.payload m')
  replayed : ∀ (command : SubmitWagerCommand) (byKey : WagerTransaction),
    command.body = q → byKey.payloadHash = payloadHashOf (p.payload m) →
    AnswersByKey command (payloadHashOf (command.payload m')) byKey (.pure (replayOf byKey))

theorem sameFact_hashAgree_iff {x y : Record} {p q : SubmitWagerBody} {m m' : Money}
    (hx : parseSubmitWager (.object x) = .ok p) (hy : parseSubmitWager (.object y) = .ok q)
    (hm : Money.from p.money = .ok m) (hm' : Money.from q.money = .ok m') (hfact : SameFact x y)
    (hsha : NoCollision (p.payload m).canonical (q.payload m').canonical) :
    HashAgree p q m m' ↔ p.walletId = q.walletId := by
  obtain ⟨x', hx', hp⟩ := parseSubmitWager_ok hx
  obtain ⟨y', hy', hq⟩ := parseSubmitWager_ok hy
  cases hx'
  cases hy'
  constructor
  · intro h
    exact congrArg BusinessPayload.walletId (BusinessPayload.eq_of_hash hsha h.hash)
  · intro hwallet
    have hpayload : p.payload m = q.payload m' := by
      rw [hfact.payload hp hq hm hm', ← hwallet]
      rfl
    refine ⟨by rw [hpayload], fun command byKey hbody hkey => answersByKey_iff.mpr ?_⟩
    rw [hkey, hpayload, ← hbody]
    rfl

end Statements

/-! ## Samples -/

section Sample

local instance hashPlatform : Platform := samplePlatform

/-- A wallet, and another spelling of it. -/
def sampleWalletId : Text := utf16 "0192f291-27dd-7d3f-8071-5f8685deef37"

def respelledWalletId : Text := utf16 "0192F291-27DD-7D3F-8071-5F8685DEEF37"

/-- What the data of a sample bet is parsed into. -/
def sampleBody (walletId : Text) : SubmitWagerBody where
  providerId := utf16 "pragmatic"
  externalTransactionId := utf16 "bet-1"
  playerId := utf16 "p1"
  walletId := walletId
  roundId := utf16 "r1"
  gameId := utf16 "g1"
  kind := .bet
  money := ⟨utf16 "10.00", utf16 "BRL"⟩
  referenceExternalTransactionId := none

theorem sampleMoney_from (walletId : Text) :
    Money.from (sampleBody walletId).money = .ok sampleMoney := rfl

theorem sampleData_parsed :
    parseSubmitWager (.object (sampleData sampleWalletId)) = .ok (sampleBody sampleWalletId) := by
  decide +kernel

theorem respelledData_parsed :
    parseSubmitWager (.object (sampleData respelledWalletId)) =
      .ok (sampleBody respelledWalletId) := by
  decide +kernel

theorem sampleData_sameFact : SameFact (sampleData sampleWalletId) (sampleData respelledWalletId) := by
  constructor <;> decide +kernel

theorem respelled_ne : payloadHashOf ((sampleBody sampleWalletId).payload sampleMoney) ≠
    payloadHashOf ((sampleBody respelledWalletId).payload sampleMoney) := by
  decide +kernel

/-- A wallet that is spelled in upper case is another wallet to the hash. -/
theorem respelled_hash : ¬ ∀ (x y : Record) (p q : SubmitWagerBody) (m m' : Money),
    parseSubmitWager (.object x) = .ok p → parseSubmitWager (.object y) = .ok q →
    Money.from p.money = .ok m → Money.from q.money = .ok m' → SameFact x y →
    HashAgree p q m m' := by
  intro h
  have hagree := h (sampleData sampleWalletId) (sampleData respelledWalletId)
    (sampleBody sampleWalletId) (sampleBody respelledWalletId) sampleMoney sampleMoney
    sampleData_parsed respelledData_parsed (sampleMoney_from _) (sampleMoney_from _)
    sampleData_sameFact
  exact respelled_ne hagree.hash

/-- The bet with its amount as `10`, and its reference as `null`. -/
def looseData (walletId : Text) : Record :=
  (sampleData walletId).dropLast ++
    [(utf16 "money", .object
      [(utf16 "amount", .string (utf16 "10")), (utf16 "currency", .string (utf16 "BRL"))]),
     (utf16 "referenceExternalTransactionId", .null)]

theorem looseData_parsed :
    parseSubmitWager (.object (looseData sampleWalletId)) = .ok (sampleBody sampleWalletId) := by
  decide +kernel

theorem looseData_sameFact : SameFact (sampleData sampleWalletId) (looseData sampleWalletId) := by
  constructor <;> decide +kernel

/-- An amount and an absent reference may be spelled either way. -/
theorem loose_hashAgree : SameFact (sampleData sampleWalletId) (looseData sampleWalletId) ∧
    HashAgree (sampleBody sampleWalletId) (sampleBody sampleWalletId) sampleMoney sampleMoney :=
  ⟨looseData_sameFact, (sameFact_hashAgree_iff sampleData_parsed looseData_parsed
    (sampleMoney_from _) (sampleMoney_from _) looseData_sameFact fun _ => rfl).mpr rfl⟩

theorem sample_hashesDetermine :
    Json.Same (.object [(utf16 "a", .number (utf16 "1")), (utf16 "b", .null)])
      (.object [(utf16 "b", .null), (utf16 "a", .number (utf16 "1"))]) :=
  hashes_determine.canonical _ _ (by decide) (by decide) (by decide)

end Sample

end Wagering
