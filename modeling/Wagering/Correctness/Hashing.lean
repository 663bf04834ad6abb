import Wagering.Correctness.Canonical
import Wagering.Interface.Envelope

/-!
# What a hash covers

Behind the canonical text: the hexadecimal digest, the amount and the timestamp
each determine what they were printed from, so equal hashes of texts that do not
collide mean equal payloads.
-/

namespace Wagering

open Text

/-! ## Digits -/

/-- Numbers with the same digits agree modulo the power they reach. -/
theorem mod_pow_of_digits {b n m : Nat} (k : Nat)
    (h : ∀ i < k, n / b ^ i % b = m / b ^ i % b) : n % b ^ k = m % b ^ k := by
  induction k with
  | zero => simp [Nat.mod_one]
  | succ k ih =>
    rw [Nat.mod_pow_succ, Nat.mod_pow_succ, ih fun i hi => h i (by omega), h k (by omega)]

theorem hexDigit_inj {n m : Nat} (hn : n < 16) (hm : m < 16) (h : hexDigit n = hexDigit m) :
    n = m := by
  rw [← hexValue_hexDigit hn, h, hexValue_hexDigit hm]

/-- A digest is determined by its hexadecimal text. -/
theorem hexDigest_inj {d d' : BitVec 256} (h : hexDigest d = hexDigest d') : d = d' := by
  have hdigits : ∀ i < 64, d.toNat / 16 ^ i % 16 = d'.toNat / 16 ^ i % 16 := by
    intro i hi
    have hget := congrArg (·[63 - i]?) h
    simp only [hexDigest, List.getElem?_map, List.getElem?_range (show 63 - i < 64 by omega),
      Option.map_some, Option.some.injEq] at hget
    have hindex : 63 - (63 - i) = i := by omega
    rw [hindex] at hget
    exact hexDigit_inj (Nat.mod_lt _ (by decide)) (Nat.mod_lt _ (by decide)) hget
  have hmod := mod_pow_of_digits 64 hdigits
  have hpow : (16 : Nat) ^ 64 = 2 ^ 256 := by decide
  rw [hpow, Nat.mod_eq_of_lt d.isLt, Nat.mod_eq_of_lt d'.isLt] at hmod
  exact BitVec.eq_of_toNat_eq hmod

theorem length_padded (k n : Nat) : (padded k n).length = k := by
  induction k generalizing n with
  | zero => rfl
  | succ k ih => rw [padded, List.length_append, ih, List.length_singleton]

theorem digitsValue_padded (k n : Nat) : digitsValue (padded k n) = n % 10 ^ k := by
  induction k generalizing n with
  | zero => simp [padded, digitsValue, Nat.mod_one]
  | succ k ih =>
    rw [padded, digitsValue_append, ih, toNat_digit (Nat.mod_lt _ (by decide)), pow_succ',
      Nat.mod_mul]
    omega

/-- A number is determined by its digits, when they are enough. -/
theorem padded_inj {k n m : Nat} (hn : n < 10 ^ k) (hm : m < 10 ^ k)
    (h : padded k n = padded k m) : n = m := by
  have hvalue := congrArg digitsValue h
  rwa [digitsValue_padded, digitsValue_padded, Nat.mod_eq_of_lt hn, Nat.mod_eq_of_lt hm] at hvalue

/-! ## Timestamps -/

theorem isoYear_inj {y y' : Int} (hy : y.natAbs < 1000000) (hy' : y'.natAbs < 1000000)
    (h : isoYear y = isoYear y') : y = y' := by
  have hlength := congrArg List.length h
  unfold isoYear at h hlength
  by_cases hplain : 0 ≤ y ∧ y ≤ 9999 <;> by_cases hplain' : 0 ≤ y' ∧ y' ≤ 9999
  · simp only [hplain.1, hplain.2, hplain'.1, hplain'.2, decide_true, Bool.and_self,
      if_true] at h
    have := padded_inj (by omega) (by omega) h
    omega
  · simp [hplain.1, hplain.2, hplain', length_padded] at hlength
  · simp [hplain'.1, hplain'.2, hplain, length_padded] at hlength
  · simp only [Bool.and_eq_true, decide_eq_true_eq, hplain, hplain', if_false,
      List.cons.injEq] at h
    have habs := padded_inj (by omega) (by omega) h.2
    by_cases hneg : y < 0 <;> by_cases hneg' : y' < 0
    · omega
    · simp [hneg, hneg'] at h
    · simp [hneg, hneg'] at h
    · omega

/-- Texts that end alike, at the same length, begin alike. -/
theorem append_inj_right {s t s' t' : Text} (h : s ++ s' = t ++ t')
    (hlength : s'.length = t'.length) : s = t ∧ s' = t' := by
  have := congrArg List.length h
  rw [List.length_append, List.length_append] at this
  exact List.append_inj h (by omega)

theorem isoTime_inj {n m : Nat} (hn : n < 86400000) (hm : m < 86400000)
    (h : isoTime n = isoTime m) : n = m := by
  unfold isoTime at h
  obtain ⟨h, hms⟩ := append_inj_right h (by rw [length_padded, length_padded])
  obtain ⟨h, -⟩ := append_inj_right h rfl
  obtain ⟨h, hs⟩ := append_inj_right h (by rw [length_padded, length_padded])
  obtain ⟨h, -⟩ := append_inj_right h rfl
  obtain ⟨h, hmin⟩ := append_inj_right h (by rw [length_padded, length_padded])
  obtain ⟨hh, -⟩ := append_inj_right h rfl
  have h1 := padded_inj (by omega) (by omega) hh
  have h2 := padded_inj (by omega) (by omega) hmin
  have h3 := padded_inj (by omega) (by omega) hs
  have h4 := padded_inj (by omega) (by omega) hms
  omega

theorem length_isoTime (n : Nat) : (isoTime n).length = 12 := by
  simp [isoTime, length_padded, utf16]

/-- An instant is determined by its ISO text. -/
theorem toISOString_inj {t t' : TimeValue} (h : toISOString t = toISOString t') : t = t' := by
  have hyear := Calendar.civil_year_bounds (n := t.val / 86400000) (by have := t.2; omega)
  have hyear' := Calendar.civil_year_bounds (n := t'.val / 86400000) (by have := t'.2; omega)
  have hdate := Calendar.civil_bounds (t.val / 86400000)
  have hdate' := Calendar.civil_bounds (t'.val / 86400000)
  have hdays := Calendar.days_civil (t.val / 86400000)
  have hdays' := Calendar.days_civil (t'.val / 86400000)
  unfold toISOString at h
  generalize Calendar.civil (t.val / 86400000) = c at *
  generalize Calendar.civil (t'.val / 86400000) = c' at *
  simp only at h
  obtain ⟨hy, h⟩ := append_inj_right h (by simp [length_padded, length_isoTime])
  obtain ⟨h, -⟩ := append_inj_right h rfl
  obtain ⟨h, htime⟩ := append_inj_right h (by rw [length_isoTime, length_isoTime])
  obtain ⟨h, -⟩ := append_inj_right h rfl
  obtain ⟨h, hd⟩ := append_inj_right h (by rw [length_padded, length_padded])
  obtain ⟨h, -⟩ := append_inj_right h rfl
  obtain ⟨-, hm⟩ := append_inj_right h (by rw [length_padded, length_padded])
  have hy := isoYear_inj hyear hyear' hy
  have hm := padded_inj (by omega) (by omega) hm
  have hd := padded_inj (by omega) (by omega) hd
  have htime := isoTime_inj (by omega) (by omega) htime
  have hmonth : c.month = c'.month := by omega
  have hday : c.day = c'.day := by omega
  have hcivil : c = c' := by
    cases c
    cases c'
    simp_all
  apply Subtype.ext
  rw [hcivil, hdays'] at hdays
  omega

/-! ## Payloads -/

theorem toFixed_inj {n m : Nat} (hn : n ≤ maxAbsolute) (hm : m ≤ maxAbsolute)
    (h : toFixed n = toFixed m) : n = m := by
  have hmatch := congrArg matchAmount h
  rw [matchAmount_toFixed hn, matchAmount_toFixed hm] at hmatch
  simp only [Option.some.injEq, Prod.mk.injEq, true_and] at hmatch
  rw [← hundredths_toFixed n, ← hundredths_toFixed m, hmatch.1, hmatch.2]

/-- An amount is determined by its text. -/
theorem toFixed_int_inj {a b : Int} (ha : a.natAbs ≤ maxAbsolute) (hb : b.natAbs ≤ maxAbsolute)
    (h : toFixed a = toFixed b) : a = b := by
  rcases Int.lt_or_le a 0 with hneg | hpos <;> rcases Int.lt_or_le b 0 with hneg' | hpos'
  · obtain ⟨n, rfl⟩ : ∃ n : Nat, a = -n := ⟨a.natAbs, by omega⟩
    obtain ⟨m, rfl⟩ : ∃ m : Nat, b = -m := ⟨b.natAbs, by omega⟩
    rw [toFixed_neg (by omega), toFixed_neg (by omega), List.cons.injEq] at h
    rw [toFixed_inj (by omega) (by omega) h.2]
  · obtain ⟨n, rfl⟩ : ∃ n : Nat, a = -n := ⟨a.natAbs, by omega⟩
    obtain ⟨m, rfl⟩ := Int.eq_ofNat_of_zero_le hpos'
    rw [toFixed_neg (by omega)] at h
    exact absurd h.symm (toFixed_unsigned m _)
  · obtain ⟨n, rfl⟩ := Int.eq_ofNat_of_zero_le hpos
    obtain ⟨m, rfl⟩ : ∃ m : Nat, b = -m := ⟨b.natAbs, by omega⟩
    rw [toFixed_neg (n := m) (by omega)] at h
    exact absurd h (toFixed_unsigned n _)
  · obtain ⟨n, rfl⟩ := Int.eq_ofNat_of_zero_le hpos
    obtain ⟨m, rfl⟩ := Int.eq_ofNat_of_zero_le hpos'
    rw [toFixed_inj (by omega) (by omega) h]

variable [Platform]

/-- SHA-256 tells two texts apart: it is computed from their UTF-8, where a lone
surrogate is U+FFFD. -/
def NoCollision (s t : Text) : Prop := Platform.sha256 s = Platform.sha256 t → stored s = stored t

/-- Values that hash alike are equal up to the order of keys. -/
theorem Json.same_of_sha256Hex {x y : Json} (hx : x.isFinite = true) (hy : y.isFinite = true)
    (hsha : NoCollision (canonicalize x) (canonicalize y))
    (h : sha256Hex (canonicalize x) = sha256Hex (canonicalize y)) : Json.Same x y := by
  have hstored := hsha (hexDigest_inj h)
  rw [stored_canonicalize, stored_canonicalize] at hstored
  exact Json.same_of_canonicalize hx hy hstored

/-- The text of a value that is a string. -/
def Json.textOf : Json → Text
  | .string value => value
  | _ => []

omit [Platform] in
theorem Json.Same.textOf {x y : Json} (h : Json.Same x y) : x.textOf = y.textOf := by
  cases h <;> rfl

omit [Platform] in
theorem map_textOf {fields fields' : List (Text × Json)}
    (hkeys : fields.map Prod.fst = fields'.map Prod.fst)
    (h : List.Forall₂ Json.Same (fields.map Prod.snd) (fields'.map Prod.snd)) :
    fields.map (fun f => (f.1, f.2.textOf)) = fields'.map fun f => (f.1, f.2.textOf) := by
  induction fields generalizing fields' with
  | nil =>
    cases fields' with
    | nil => rfl
    | cons f fields' => cases h
  | cons f fields ih =>
    cases fields' with
    | nil => cases h
    | cons f' fields' =>
      rw [List.map_cons, List.map_cons, List.cons.injEq] at hkeys
      rw [List.map_cons, List.map_cons] at h
      cases h with
      | cons hhead htail =>
        rw [List.map_cons, List.map_cons, hkeys.1, hhead.textOf, ih hkeys.2 htail]

omit [Platform] in
/-- Objects of strings that are equal up to the order of keys have the same fields. -/
theorem fields_perm_of_same {fields fields' : List (Text × Text)}
    (h : Json.Same (.object (fields.map fun f => (f.1, .string f.2)))
      (.object (fields'.map fun f => (f.1, .string f.2)))) : fields.Perm fields' := by
  have hback : ∀ fields : List (Text × Text),
      (fields.map fun f => (f.1, Json.string f.2)).map (fun f => (f.1, f.2.textOf)) = fields := by
    intro fields
    rw [List.map_map]
    exact List.map_id fields
  cases h with
  | @object _ _ ordered ordered' hperm hperm' hkeys heach =>
    have h₁ := hperm.map fun f => (f.1, f.2.textOf)
    have h₂ := hperm'.map fun f => (f.1, f.2.textOf)
    rw [hback] at h₁ h₂
    rw [map_textOf hkeys heach] at h₁
    exact h₁.trans h₂.symm

omit [Platform] in
theorem objectFinite (fields : List (Text × Text)) :
    (Json.object (fields.map fun f => (f.1, .string f.2))).isFinite = true := by
  rw [Json.isFinite, Json.fieldsFinite_iff]
  intro f hf
  obtain ⟨g, -, rfl⟩ := List.mem_map.mp hf
  rfl

/-- The canonical text of a payload, which its hash is taken of. -/
def BusinessPayload.canonical (payload : BusinessPayload) : Text :=
  canonicalize (.object (payload.fields.map fun f => (f.1, .string f.2)))

/-- The value under a key is the only one. -/
theorem BusinessPayload.field_unique (payload : BusinessPayload) {key v v' : Text}
    (h : (key, v) ∈ payload.fields) (h' : (key, v') ∈ payload.fields) : v = v' := by
  have hkeys : (payload.fields.map Prod.fst).Nodup := by
    obtain ⟨p, e, pl, w, r, g, kind, m, reference⟩ := payload
    cases reference
    · show List.Nodup [utf16 "providerId", utf16 "externalTransactionId", utf16 "playerId",
        utf16 "walletId", utf16 "roundId", utf16 "gameId", utf16 "kind", utf16 "amount",
        utf16 "currency"]
      decide
    · show List.Nodup [utf16 "providerId", utf16 "externalTransactionId", utf16 "playerId",
        utf16 "walletId", utf16 "roundId", utf16 "gameId", utf16 "kind", utf16 "amount",
        utf16 "currency", utf16 "referenceExternalTransactionId"]
      decide
  exact congrArg Prod.snd (List.inj_on_of_nodup_map hkeys h h' rfl)

omit [Platform] in
theorem WagerTransactionKind.text_inj {kind kind' : WagerTransactionKind}
    (h : kind.text = kind'.text) : kind = kind' := by
  cases kind <;> cases kind' <;> first | rfl | exact absurd h (by decide)

/-- Payloads with the same fields are the same. -/
theorem BusinessPayload.eq_of_fields {p q : BusinessPayload} (h : p.fields.Perm q.fields) :
    p = q := by
  -- the nine mandatory fields stand at the same places on both sides
  have hvalue : ∀ {key v v' : Text}, (key, v) ∈ p.fields → (key, v') ∈ q.fields → v = v' :=
    fun hv hv' => q.field_unique (h.mem_iff.mp hv) hv'
  have hproviderId : p.providerId = q.providerId :=
    @hvalue (utf16 "providerId") _ _ (by simp [fields]) (by simp [fields])
  have hexternalTransactionId : p.externalTransactionId = q.externalTransactionId :=
    @hvalue (utf16 "externalTransactionId") _ _ (by simp [fields]) (by simp [fields])
  have hplayerId : p.playerId = q.playerId :=
    @hvalue (utf16 "playerId") _ _ (by simp [fields]) (by simp [fields])
  have hwalletId : p.walletId = q.walletId :=
    @hvalue (utf16 "walletId") _ _ (by simp [fields]) (by simp [fields])
  have hroundId : p.roundId = q.roundId :=
    @hvalue (utf16 "roundId") _ _ (by simp [fields]) (by simp [fields])
  have hgameId : p.gameId = q.gameId :=
    @hvalue (utf16 "gameId") _ _ (by simp [fields]) (by simp [fields])
  have hkind : p.kind = q.kind :=
    WagerTransactionKind.text_inj
      (@hvalue (utf16 "kind") _ _ (by simp [fields]) (by simp [fields]))
  have hmoney : p.money = q.money := by
    refine Money.ext (toFixed_int_inj p.money.inRange q.money.inRange ?_) ?_
    · exact @hvalue (utf16 "amount") _ _ (by simp [fields, Money.toString])
        (by simp [fields, Money.toString])
    · exact @hvalue (utf16 "currency") _ _ (by simp [fields]) (by simp [fields])
  have hlength := h.length_eq
  obtain ⟨p1, p2, p3, p4, p5, p6, kind, m, reference⟩ := p
  obtain ⟨q1, q2, q3, q4, q5, q6, kind', m', reference'⟩ := q
  cases hproviderId
  cases hexternalTransactionId
  cases hplayerId
  cases hwalletId
  cases hroundId
  cases hgameId
  cases hkind
  cases hmoney
  cases reference with
  | none =>
    cases reference' with
    | none => rfl
    | some r => simp [fields] at hlength
  | some r =>
    cases reference' with
    | none => simp [fields] at hlength
    | some r' =>
      have := @hvalue (utf16 "referenceExternalTransactionId") r r' (by simp [fields])
        (by simp [fields])
      rw [this]

/-- A payload is determined by its hash. -/
theorem BusinessPayload.eq_of_hash {p q : BusinessPayload}
    (hsha : NoCollision p.canonical q.canonical) (h : payloadHashOf p = payloadHashOf q) : p = q :=
  eq_of_fields (fields_perm_of_same
    (Json.same_of_sha256Hex (objectFinite _) (objectFinite _) hsha h))

/-! ## Envelopes -/

omit [Platform] in
theorem Json.lookup_of_same {fields fields' : List (Text × Json)}
    (hkeys : (fields.map Prod.fst).Nodup) (h : Json.Same (.object fields) (.object fields'))
    {key : Text} {x y : Json} (hx : (key, x) ∈ fields) (hy : (key, y) ∈ fields') : Json.Same x y := by
  cases h with
  | @object _ _ ordered ordered' hperm hperm' hk heach =>
    have hnodup : (ordered.map Prod.fst).Nodup := (hperm.map Prod.fst).nodup_iff.mp hkeys
    have hx' := hperm.mem_iff.mp hx
    have hy' := hperm'.mem_iff.mp hy
    clear hperm hperm' hx hy hkeys
    induction ordered generalizing ordered' with
    | nil => cases hx'
    | cons f ordered ih =>
      cases ordered' with
      | nil => cases hk
      | cons f' ordered' =>
        rw [List.map_cons, List.map_cons] at heach
        rw [List.map_cons, List.map_cons, List.cons.injEq] at hk
        rw [List.map_cons, List.nodup_cons] at hnodup
        cases heach with
        | cons hhead htail =>
          rcases List.mem_cons.mp hx' with rfl | hx'' <;>
            rcases List.mem_cons.mp hy' with rfl | hy''
          · exact hhead
          · have hmem : key ∈ ordered'.map Prod.fst := List.mem_map.mpr ⟨_, hy'', rfl⟩
            rw [← hk.2] at hmem
            exact absurd hmem hnodup.1
          · have hmem : key ∈ ordered.map Prod.fst := List.mem_map.mpr ⟨_, hx'', rfl⟩
            rw [hk.1] at hnodup
            exact absurd hmem hnodup.1
          · exact ih hk.2 htail hnodup.2 hx'' hy''

omit [Platform] in
theorem hashedEnvelope_finite {type : Text} {occurredAt : TimeValue} {data : Record}
    (h : (Json.object data).isFinite = true) :
    (hashedEnvelope type occurredAt data).isFinite = true := by
  rw [Json.isFinite] at h
  simp [hashedEnvelope, Json.isFinite, Json.fieldsFinite, h]

/-- What a message was hashed from is determined by its hash. -/
theorem inboxPayloadHashOf_inj {type type' : Text} {occurredAt occurredAt' : TimeValue}
    {data data' : Record} (hdata : (Json.object data).isFinite = true)
    (hdata' : (Json.object data').isFinite = true)
    (hsha : NoCollision (canonicalize (hashedEnvelope type occurredAt data))
      (canonicalize (hashedEnvelope type' occurredAt' data')))
    (h : inboxPayloadHashOf type occurredAt data = inboxPayloadHashOf type' occurredAt' data') :
    type = type' ∧ occurredAt = occurredAt' ∧ Json.Same (.object data) (.object data') := by
  have hsame := Json.same_of_sha256Hex (hashedEnvelope_finite hdata) (hashedEnvelope_finite hdata')
    hsha h
  have hnodup : [utf16 "type", utf16 "occurredAt", utf16 "data"].Nodup := by decide
  unfold hashedEnvelope at hsame
  have hvalue := @Json.lookup_of_same _ _ (by exact hnodup) hsame
  have htype := @hvalue (utf16 "type") (.string type) (.string type') (by simp) (by simp)
  have hoccurred := @hvalue (utf16 "occurredAt") (.string (toISOString occurredAt))
    (.string (toISOString occurredAt')) (by simp) (by simp)
  refine ⟨htype.textOf, toISOString_inj hoccurred.textOf, ?_⟩
  exact @hvalue (utf16 "data") (.object data) (.object data') (by simp) (by simp)

end Wagering
