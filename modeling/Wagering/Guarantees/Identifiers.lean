import Wagering.Correctness.Canonical
import Wagering.Infrastructure.Adapters
import Wagering.Interface.Validation
import Wagering.Lib.Numeral
import Wagering.Persistence.Repositories
import Wagering.Persistence.Valid

/-!
# Identifiers

What the server keeps of an identifier is its 128 bits.  On canonical texts the
order of strings is the order of those bits, so the order of two outputs of the
generator can be read off the number that they denote: the clock is in its
highest places, and nothing that is random reaches them.
-/

namespace Wagering

open Text Separated

/-! ## The form of an identifier -/

/-- Where an identifier has a dash. -/
def uuidDashes : List Bool :=
  (List.range 36).map fun i => i = 8 || i = 13 || i = 18 || i = 23

/-- A dash where there has to be one, and a lower-case digit elsewhere. -/
def FitsUuid (dash : Bool) (u : UInt16) : Prop :=
  if dash then u = 45 else ∃ n < 16, u = hexDigit n

/-- The digits of an identifier. -/
def uuidDigits (t : Text) : List Nat := (t.filter (· ≠ 45)).map hexValue

/-- The value of type `uuid` that the server reads. -/
def uuidBits (t : Text) : BitVec 128 := BitVec.ofNat 128 (Numeral.value 16 (uuidDigits t))

theorem isHexDigit_hexDigit {n : Nat} (hn : n < 16) :
    isHexDigit (hexDigit n) = true ∧ isUpper (hexDigit n) = false := by
  simp only [isHexDigit, isDigit, isUpper, toNat_hexDigit hn, Bool.or_eq_true, Bool.and_eq_true,
    decide_eq_true_eq, Bool.and_eq_false_iff, decide_eq_false_iff_not]
  split <;> omega

theorem eq_hexDigit {u : UInt16} (h : isHexDigit u = true) (hupper : isUpper u = false) :
    ∃ n < 16, u = hexDigit n := by
  simp only [isHexDigit, isDigit, isUpper, Bool.or_eq_true, Bool.and_eq_true,
    decide_eq_true_eq, Bool.and_eq_false_iff, decide_eq_false_iff_not] at h hupper
  have hlt : hexValue u < 16 := by
    unfold hexValue
    split <;> omega
  refine ⟨hexValue u, hlt, UInt16.toNat_inj.mp ?_⟩
  rw [toNat_hexDigit hlt]
  unfold hexValue
  split <;> split <;> omega

theorem hexDigit_ne_dash {n : Nat} (hn : n < 16) : hexDigit n ≠ 45 := by
  intro h
  have hnat := toNat_hexDigit hn
  rw [h, show (45 : UInt16).toNat = 45 from rfl] at hnat
  split at hnat <;> omega

theorem isUpper_of_uuidText {t : Text} (h : uuidText t = t) : ∀ u ∈ t, isUpper u = false := by
  intro u hu
  have hlower := List.map_inj_left.mp (h.trans (List.map_id t).symm) u hu
  by_contra hupper
  have hnat := congrArg UInt16.toNat hlower
  rw [if_pos (by simpa using hupper), id, UInt16.toNat_add,
    show (32 : UInt16).toNat = 32 from rfl] at hnat
  have hlt := u.toNat_lt
  omega

theorem uuidText_of_lower {t : Text} (h : ∀ u ∈ t, isUpper u = false) : uuidText t = t := by
  refine (List.map_inj_left.mpr fun u hu => ?_).trans (List.map_id t)
  rw [if_neg (by simp [h u hu]), id]

theorem getElem_uuidDashes {i : Nat} (hi : i < uuidDashes.length) :
    uuidDashes[i] = (i = 8 || i = 13 || i = 18 || i = 23) := by
  simp [uuidDashes]

theorem isUuid_iff_getElem {t : Text} :
    isUuid t = true ↔ t.length = 36 ∧ ∀ i (hi : i < t.length),
      if i = 8 || i = 13 || i = 18 || i = 23 then t[i] = 45 else isHexDigit t[i] = true := by
  simp only [isUuid, Bool.and_eq_true, decide_eq_true_eq, List.all_eq_true, List.mem_range]
  refine and_congr_right fun hlength => ⟨fun h i hi => ?_, fun h i hi => ?_⟩
  · have hform := h i (hlength ▸ hi)
    rw [List.getElem?_eq_getElem hi] at hform
    split
    · simpa [*] using hform
    · simpa [*] using hform
  · have hform := h i (hlength ▸ hi)
    rw [List.getElem?_eq_getElem (hlength ▸ hi)]
    split at hform
    · simp [*]
    · simp [*]

/-- A canonical identifier is lower-case digits and dashes in their places. -/
theorem isCanonicalUuid_iff_fits {t : Text} :
    isCanonicalUuid t = true ↔ List.Forall₂ FitsUuid uuidDashes t := by
  rw [isCanonicalUuid_iff, isUuid_iff_getElem, List.forall₂_iff_get]
  constructor
  · rintro ⟨⟨hlength, hform⟩, hlower⟩
    refine ⟨hlength.symm, fun i hi hi' => ?_⟩
    have hform := hform i hi'
    rw [FitsUuid, List.get_eq_getElem, List.get_eq_getElem, getElem_uuidDashes hi]
    split at hform
    · rwa [if_pos ‹_›]
    · rw [if_neg ‹_›]
      exact eq_hexDigit hform (isUpper_of_uuidText hlower _ (List.getElem_mem hi'))
  · rintro ⟨hlength, hfits⟩
    have hfits : ∀ i (hi : i < t.length),
        if i = 8 || i = 13 || i = 18 || i = 23 then t[i] = 45
        else ∃ n < 16, t[i] = hexDigit n := by
      intro i hi
      have hi' : i < uuidDashes.length := by rwa [hlength]
      have hfit := hfits i hi' hi
      rwa [FitsUuid, List.get_eq_getElem, List.get_eq_getElem,
        getElem_uuidDashes hi'] at hfit
    refine ⟨⟨hlength.symm, fun i hi => ?_⟩, uuidText_of_lower fun u hu => ?_⟩
    · have hfit := hfits i hi
      split at hfit
      · rwa [if_pos ‹_›]
      · rw [if_neg ‹_›]
        rcases hfit with ⟨n, hn, hdigit⟩
        rw [hdigit]
        exact (isHexDigit_hexDigit hn).1
    · rcases List.mem_iff_getElem.mp hu with ⟨i, hi, rfl⟩
      have hfit := hfits i hi
      split at hfit
      · rw [hfit]
        rfl
      · rcases hfit with ⟨n, hn, hdigit⟩
        rw [hdigit]
        exact (isHexDigit_hexDigit hn).2

theorem fits_digits {ds : List Nat} (h : ∀ d ∈ ds, d < 16) :
    List.Forall₂ FitsUuid (.replicate ds.length false) (ds.map hexDigit) := by
  induction ds with
  | nil => exact .nil
  | cons d ds ih =>
    rcases List.forall_mem_cons.mp h with ⟨hd, hds⟩
    exact .cons ⟨d, hd, rfl⟩ (ih hds)

/-! ## The order of identifiers -/

@[simp] theorem uuidDigits_dash (t : Text) : uuidDigits (45 :: t) = uuidDigits t := rfl

theorem uuidDigits_hexDigit {n : Nat} (hn : n < 16) (t : Text) :
    uuidDigits (hexDigit n :: t) = n :: uuidDigits t := by
  rw [uuidDigits, List.filter_cons_of_pos (by simpa using hexDigit_ne_dash hn), List.map_cons,
    hexValue_hexDigit hn, uuidDigits]

theorem uuidDigits_append (s t : Text) : uuidDigits (s ++ t) = uuidDigits s ++ uuidDigits t := by
  rw [uuidDigits, List.filter_append, List.map_append, uuidDigits, uuidDigits]

theorem uuidDigits_map {ds : List Nat} (h : ∀ d ∈ ds, d < 16) :
    uuidDigits (ds.map hexDigit) = ds := by
  induction ds with
  | nil => rfl
  | cons d ds ih =>
    rcases List.forall_mem_cons.mp h with ⟨hd, hds⟩
    rw [List.map_cons, uuidDigits_hexDigit hd, ih hds]

theorem length_uuidDigits {form : List Bool} {t : Text} (h : List.Forall₂ FitsUuid form t) :
    (uuidDigits t).length = form.count false := by
  induction h with
  | nil => rfl
  | @cons dash u form t hfit _ ih =>
    cases dash with
    | true =>
      have hu : u = 45 := hfit
      rw [hu, uuidDigits_dash, ih, List.count_cons_of_ne (by decide)]
    | false =>
      rcases hfit with ⟨n, hn, rfl⟩
      rw [uuidDigits_hexDigit hn, List.length_cons, ih, List.count_cons_self]

theorem uuidDigits_lt {form : List Bool} {t : Text} (h : List.Forall₂ FitsUuid form t) :
    ∀ d ∈ uuidDigits t, d < 16 := by
  induction h with
  | nil => simp [uuidDigits]
  | @cons dash u form t hfit _ ih =>
    cases dash with
    | true =>
      have hu : u = 45 := hfit
      rwa [hu, uuidDigits_dash]
    | false =>
      rcases hfit with ⟨n, hn, rfl⟩
      rw [uuidDigits_hexDigit hn]
      exact List.forall_mem_cons.mpr ⟨hn, ih⟩

theorem hexDigit_lt_iff {n m : Nat} (hn : n < 16) (hm : m < 16) :
    (hexDigit n).toNat < (hexDigit m).toNat ↔ n < m := by
  rw [toNat_hexDigit hn, toNat_hexDigit hm]
  split <;> split <;> omega

/-- Texts of one form are ordered as the numbers that their digits denote: a dash
stands in the same place of both. -/
theorem le_iff_value_le {form : List Bool} {s t : Text} (hs : List.Forall₂ FitsUuid form s)
    (ht : List.Forall₂ FitsUuid form t) :
    Text.le s t = true ↔
      Numeral.value 16 (uuidDigits s) ≤ Numeral.value 16 (uuidDigits t) := by
  induction hs generalizing t with
  | nil =>
    cases ht
    simp [Text.le, uuidDigits]
  | @cons dash u form s hfit hs ih =>
    rcases List.forall₂_cons_left_iff.mp ht with ⟨v, t, hfit', ht', rfl⟩
    cases dash with
    | true =>
      have hu : u = 45 := hfit
      have hv : v = 45 := hfit'
      rw [hu, hv, uuidDigits_dash, uuidDigits_dash, ← ih ht']
      simp [Text.le]
    | false =>
      rcases hfit with ⟨n, hn, rfl⟩
      rcases hfit' with ⟨m, hm, rfl⟩
      have hlength : (uuidDigits s).length = (uuidDigits t).length :=
        (length_uuidDigits hs).trans (length_uuidDigits ht').symm
      have hinj : hexDigit n = hexDigit m ↔ n = m :=
        ⟨fun h => by rw [← hexValue_hexDigit hn, h, hexValue_hexDigit hm], congrArg hexDigit⟩
      rw [uuidDigits_hexDigit hn, uuidDigits_hexDigit hm,
        Numeral.value_cons_le_iff hlength (uuidDigits_lt hs) (uuidDigits_lt ht'), ← ih ht',
        ← hexDigit_lt_iff hn hm, ← hinj]
      simp [Text.le]

theorem toNat_uuidBits {t : Text} (h : isCanonicalUuid t = true) :
    (uuidBits t).toNat = Numeral.value 16 (uuidDigits t) := by
  have hfits := isCanonicalUuid_iff_fits.mp h
  have hlength : (uuidDigits t).length = 32 := length_uuidDigits hfits
  have hlt := Numeral.value_lt (uuidDigits_lt hfits)
  rw [hlength] at hlt
  rw [uuidBits, BitVec.toNat_ofNat]
  exact Nat.mod_eq_of_lt hlt

/-- On canonical identifiers the order of strings is the order of type `uuid`. -/
theorem le_iff_uuidBits_le {s t : Text} (hs : isCanonicalUuid s = true)
    (ht : isCanonicalUuid t = true) : Text.le s t = true ↔ uuidBits s ≤ uuidBits t := by
  rw [BitVec.le_def, toNat_uuidBits hs, toNat_uuidBits ht]
  apply le_iff_value_le
  · exact isCanonicalUuid_iff_fits.mp hs
  · exact isCanonicalUuid_iff_fits.mp ht

/-! ## What the generator writes -/

theorem hex_eq {n : Nat} (hn : n < 256) : hex n = [hexDigit (n / 16), hexDigit (n % 16)] := by
  have halphabet : ∀ d < 16, hexDigits[d]?.getD 48 = hexDigit d := by decide
  have hmask : ∀ m : Nat, Bitwise.and m 0x0f = (m % 16 : Nat) :=
    Bitwise.and_mask (k := 4) (by decide)
  have hshift : Bitwise.shiftRight n 4 = (n / 16 : Nat) :=
    Bitwise.shiftRight_eq (by decide) (by omega)
  have hhigh : n / 16 % 16 = n / 16 := Nat.mod_eq_of_lt (by omega)
  rw [hex, hshift, hmask, hmask, Int.toNat_natCast, Int.toNat_natCast, hhigh,
    halphabet _ (by omega), halphabet _ (by omega)]

theorem flatten_map_hex {ns : List Nat} (h : ∀ n ∈ ns, n < 256) :
    (ns.map (hex ∘ fun n : Nat => (n : Int))).flatten = (Numeral.halves 16 ns).map hexDigit := by
  induction ns with
  | nil => rfl
  | cons n ns ih =>
    rcases List.forall_mem_cons.mp h with ⟨hn, hns⟩
    rw [List.map_cons, List.flatten_cons, ih hns, Function.comp_apply, hex_eq hn]
    rfl

namespace UuidV7Generator

variable (random : Vector UInt8 16) (t : Nat)

theorem timestampByte_eq (i : Nat) : timestampByte t i = (t / 256 ^ (5 - i) % 256 : Nat) := by
  have hfloor : ⌊((t : Int) : ℚ) / 2 ^ (8 * (5 - i))⌋ = (t / 256 ^ (5 - i) : Nat) := by
    have hpow : (2 : ℚ) ^ (8 * (5 - i)) = ((256 ^ (5 - i) : Nat) : ℚ) := by
      rw [pow_mul]
      norm_num
    rw [hpow, Int.cast_natCast, Rat.floor_natCast_div_natCast]
    norm_cast
  rw [timestampByte, hfloor]
  exact Bitwise.and_mask (k := 8) (by decide) _

/-- The sixteen bytes of an identifier: six of the clock, and the version and the
variant above what is random. -/
def layout : List Nat :=
  Numeral.places 256 6 t ++ (random[6].toNat % 16 + 112) :: random[7].toNat ::
    (random[8].toNat % 64 + 128) :: (random.toList.drop 9).map UInt8.toNat

theorem toList_drop : random.toList.drop 6 =
    random[6] :: random[7] :: random[8] :: random.toList.drop 9 := by
  rw [List.drop_eq_getElem_cons (by simp), List.drop_eq_getElem_cons (by simp),
    List.drop_eq_getElem_cons (by simp)]
  rfl

/-- What `next` does to the byte of the version and to that of the variant: `k`
random bits stay, and a constant stands above them. -/
theorem or_and_eq {k m : Nat} (hk : k ≤ 31) (hm : 2 ^ k * m + 2 ^ k ≤ 2 ^ 31) (n : Nat) :
    Bitwise.or (Bitwise.and n ((2 ^ k - 1 : Nat) : Int)) ((2 ^ k * m : Nat) : Int) =
      (n % 2 ^ k + 2 ^ k * m : Nat) := by
  have hlt : n % 2 ^ k < 2 ^ k := Nat.mod_lt _ (Nat.two_pow_pos k)
  rw [Bitwise.and_mask hk, Bitwise.or_high hlt (by omega), Nat.add_comm]

theorem bytes_eq : bytes random t = (layout random t).map fun n : Nat => (n : Int) := by
  have hversion : ∀ n : Nat, Bitwise.or (Bitwise.and n 0x0f) 0x70 = (n % 16 + 112 : Nat) :=
    or_and_eq (k := 4) (m := 7) (by decide) (by decide)
  have hvariant : ∀ n : Nat, Bitwise.or (Bitwise.and n 0x3f) 0x80 = (n % 64 + 128 : Nat) :=
    or_and_eq (k := 6) (m := 2) (by decide) (by decide)
  have hclock : (List.range 6).map (timestampByte t) =
      (Numeral.places 256 6 t).map fun n : Nat => (n : Int) := by
    rw [Numeral.places, List.map_map]
    exact List.map_congr_left fun i _ => timestampByte_eq t i
  have hdrop : (random.toList.map fun byte => (byte.toNat : Int)).drop 6 =
      (random[6].toNat : Int) :: (random[7].toNat : Int) :: (random[8].toNat : Int) ::
        (random.toList.drop 9).map fun byte => (byte.toNat : Int) := by
    rw [← List.map_drop, toList_drop]
    rfl
  have hloop := Numeral.foldl_set_range (timestampByte t) (k := 6)
    (random.toList.map fun byte => (byte.toNat : Int)) (by simp)
  rw [hclock, hdrop] at hloop
  simp only [bytes, hloop]
  simp [layout, hversion, hvariant, Function.comp_def]

theorem length_layout : (layout random t).length = 16 := by
  simp [layout]

theorem layout_lt : ∀ n ∈ layout random t, n < 256 := by
  intro n hn
  rcases List.mem_append.mp hn with hn | hn
  · exact Numeral.lt_of_mem_places (by decide) hn
  · simp only [List.mem_cons, List.mem_map] at hn
    rcases hn with rfl | rfl | rfl | ⟨byte, -, rfl⟩
    · omega
    · exact random[7].toNat_lt
    · omega
    · exact byte.toNat_lt

/-- A group of the text: the digits of the bytes from one place to another. -/
def group (i j : Nat) : Text :=
  (Numeral.halves 16 ((layout random t).extract i j)).map hexDigit

theorem group_lt (i j : Nat) :
    ∀ d ∈ Numeral.halves 16 ((layout random t).extract i j), d < 16 := by
  apply Numeral.lt_of_mem_halves (by decide)
  intro n hn
  exact layout_lt random t n (List.mem_of_mem_drop (List.mem_of_mem_take hn))

theorem next_eq : next random t =
    joined 45 [group random t 0 4, group random t 4 6, group random t 6 8, group random t 8 10,
      group random t 10 16] := by
  have hgroup : ∀ i j, (((bytes random t).map hex).extract i j).flatten = group random t i j := by
    intro i j
    rw [bytes_eq, List.map_map, List.extract, ← List.map_drop, ← List.map_take]
    apply flatten_map_hex
    intro n hn
    exact layout_lt random t n (List.mem_of_mem_drop (List.mem_of_mem_take hn))
  rw [next, hgroup, hgroup, hgroup, hgroup, hgroup]

theorem length_group (i j : Nat) (hj : j ≤ 16) : (Numeral.halves 16
    ((layout random t).extract i j)).length = 2 * (j - i) := by
  rw [Numeral.length_halves, List.extract, List.length_take, List.length_drop, length_layout]
  omega

/-- Whatever the clock and the random bytes, an output is a canonical identifier. -/
theorem next_canonical : isCanonicalUuid (next random t) = true := by
  have hfits : ∀ i j, j ≤ 16 →
      List.Forall₂ FitsUuid (.replicate (2 * (j - i)) false) (group random t i j) := by
    intro i j hj
    rw [← length_group random t i j hj]
    exact fits_digits (group_lt random t i j)
  have hdash : FitsUuid true 45 := rfl
  rw [isCanonicalUuid_iff_fits, next_eq]
  simp only [joined_cons_cons, joined_singleton]
  apply List.rel_append (hfits 0 4 (by decide)) (.cons hdash _)
  apply List.rel_append (hfits 4 6 (by decide)) (.cons hdash _)
  apply List.rel_append (hfits 6 8 (by decide)) (.cons hdash _)
  apply List.rel_append (hfits 8 10 (by decide)) (.cons hdash _)
  exact hfits 10 16 (by decide)

/-- The port may answer an output that it has not given before. -/
theorem exec_next [Platform] {sh : Shared} {others : List Local} {l : Local}
    (hfresh : next random t ∉ sh.issued) :
    exec sh others l .nextId (.identity (next random t)) =
      .answer { sh with issued := next random t :: sh.issued }
        { l with ids := next random t :: l.ids } (next random t) := by
  simp [exec, next_canonical, hfresh]

/-- The digits of an output are those of its bytes. -/
theorem uuidDigits_next : uuidDigits (next random t) = Numeral.halves 16 (layout random t) := by
  have hgroup : ∀ i j, uuidDigits (group random t i j) =
      Numeral.halves 16 ((layout random t).extract i j) :=
    fun i j => uuidDigits_map (group_lt random t i j)
  have hjoin : ∀ i j k, i ≤ j → j ≤ k → (layout random t).extract i j ++
      (layout random t).extract j k = (layout random t).extract i k := by
    intro i j k hij hjk
    have hk : k - i = (j - i) + (k - j) := by omega
    rw [List.extract, List.extract, List.extract, hk, List.take_add, List.drop_drop,
      Nat.add_sub_cancel' hij]
  have hall : (layout random t).extract 0 16 = layout random t := by
    rw [List.extract, List.drop_zero]
    exact List.take_of_length_le (length_layout random t).le
  rw [next_eq]
  simp only [joined_cons_cons, joined_singleton, uuidDigits_append, uuidDigits_dash, hgroup,
    ← Numeral.halves_append]
  rw [hjoin 8 10 16 (by decide) (by decide), hjoin 6 8 16 (by decide) (by decide),
    hjoin 4 6 16 (by decide) (by decide), hjoin 0 4 16 (by decide) (by decide), hall]

end UuidV7Generator

/-! ## The fields of an identifier -/

/-- The bits of sixteen bytes, the first byte highest. -/
def bitsOf (bytes : List Nat) : BitVec 128 := BitVec.ofNat 128 (Numeral.value 256 bytes)

/-- The 74 bits that are not the clock, the version or the variant. -/
def remainingBits (x : BitVec 128) : BitVec 74 := x.extractLsb' 64 12 ++ x.extractLsb' 0 62

section Fields

variable {bytes clock tail : List Nat} {a b c : Nat}

theorem toNat_extract (x : BitVec 128) (start length : Nat) :
    (x.extractLsb' start length).toNat = x.toNat / 2 ^ start % 2 ^ length := by
  rw [BitVec.extractLsb'_toNat, Nat.shiftRight_eq_div_pow]

theorem toNat_bitsOf (hbytes : bytes = clock ++ a :: b :: c :: tail) (hclock : clock.length = 6)
    (htail : tail.length = 7) (hlt : ∀ n ∈ bytes, n < 256) :
    (bitsOf bytes).toNat =
      2 ^ 80 * Numeral.value 256 clock + 2 ^ 72 * a + 2 ^ 64 * b + 2 ^ 56 * c +
        Numeral.value 256 tail := by
  have hbound := Numeral.value_lt hlt
  simp only [hbytes, List.length_append, List.length_cons, hclock, htail] at hbound
  rw [bitsOf, BitVec.toNat_ofNat, hbytes, Nat.mod_eq_of_lt (by simpa using hbound),
    Numeral.value_append, Numeral.value_cons, Numeral.value_cons, Numeral.value_cons]
  simp only [List.length_cons, htail]
  omega

/-- Where each field of sixteen bytes is found. -/
theorem fields_bitsOf (hbytes : bytes = clock ++ a :: b :: c :: tail) (hclock : clock.length = 6)
    (htail : tail.length = 7) (hlt : ∀ n ∈ bytes, n < 256) :
    ((bitsOf bytes).extractLsb' 80 48).toNat = Numeral.value 256 clock ∧
      ((bitsOf bytes).extractLsb' 76 4).toNat = a / 16 ∧
      ((bitsOf bytes).extractLsb' 62 2).toNat = c / 64 ∧
      ((bitsOf bytes).extractLsb' 64 12).toNat = 2 ^ 8 * (a % 16) + b ∧
      ((bitsOf bytes).extractLsb' 0 62).toNat =
        2 ^ 56 * (c % 64) + Numeral.value 256 tail := by
  have hall := toNat_bitsOf hbytes hclock htail hlt
  rw [hbytes] at hlt
  rcases List.forall_mem_append.mp hlt with ⟨hclocks, hrest⟩
  simp only [List.forall_mem_cons] at hrest
  rcases hrest with ⟨ha, hb, hc, htails⟩
  have hclockBound := Numeral.value_lt hclocks
  have htailBound := Numeral.value_lt htails
  rw [hclock] at hclockBound
  rw [htail] at htailBound
  simp only [toNat_extract, hall]
  refine ⟨?_, ?_, ?_, ?_, ?_⟩ <;> omega

end Fields

namespace UuidV7Generator

variable (random : Vector UInt8 16) (t : Nat)

/-- The sixteen random bytes, as bits. -/
def randomBits : BitVec 128 := bitsOf (random.toList.map UInt8.toNat)

theorem uuidBits_next : uuidBits (next random t) = bitsOf (layout random t) := by
  rw [uuidBits, uuidDigits_next, Numeral.value_halves, bitsOf]

theorem toList_eq : random.toList.map UInt8.toNat =
    (random.toList.take 6).map UInt8.toNat ++ random[6].toNat :: random[7].toNat ::
      random[8].toNat :: (random.toList.drop 9).map UInt8.toNat := by
  conv_lhs => rw [← List.take_append_drop 6 random.toList, toList_drop]
  rw [List.map_append]
  rfl

theorem toList_lt : ∀ n ∈ random.toList.map UInt8.toNat, n < 256 := by
  intro n hn
  rcases List.mem_map.mp hn with ⟨byte, -, rfl⟩
  exact byte.toNat_lt

/-- What is correct in an output for the clock `t` and the bytes `random`. -/
structure Encodes (out : Text) : Prop where
  length : out.length = 36
  lower : ∀ u ∈ out, isUpper u = false
  accepted : ∀ field, requireUuid (some (.string out)) field = .ok out
  timestamp : ((uuidBits out).extractLsb' 80 48).toNat = t
  version : (uuidBits out).extractLsb' 76 4 = 7
  variant : (uuidBits out).extractLsb' 62 2 = 0b10
  remaining : remainingBits (uuidBits out) = remainingBits (randomBits random)

theorem next_encodes (ht : t < 2 ^ 48) : Encodes random t (next random t) := by
  have hcanonical := next_canonical random t
  rcases isCanonicalUuid_iff.mp hcanonical with ⟨huuid, hlower⟩
  have htail : ((random.toList.drop 9).map UInt8.toNat).length = 7 := by simp
  have hclock : ((random.toList.take 6).map UInt8.toNat).length = 6 := by simp
  rcases fields_bitsOf (show layout random t = _ from rfl) (Numeral.length_places 256 6 t) htail
      (layout_lt random t) with ⟨htimestamp, hversion, hvariant, hhigh, hlow⟩
  rcases fields_bitsOf (toList_eq random) hclock htail (toList_lt random) with
    ⟨-, -, -, hhigh', hlow'⟩
  have hseven : (7 : BitVec 4).toNat = 7 := rfl
  have htwo : (0b10 : BitVec 2).toNat = 2 := rfl
  refine ⟨(isUuid_plain huuid).2.2, isUpper_of_uuidText hlower, fun _ => if_pos huuid, ?_, ?_, ?_,
    ?_⟩
  · rw [uuidBits_next, htimestamp, Numeral.value_places]
    exact Nat.mod_eq_of_lt ht
  · apply BitVec.eq_of_toNat_eq
    rw [uuidBits_next, hversion, hseven]
    omega
  · apply BitVec.eq_of_toNat_eq
    rw [uuidBits_next, hvariant, htwo]
    omega
  · have hhighs : (bitsOf (layout random t)).extractLsb' 64 12 =
        (randomBits random).extractLsb' 64 12 := by
      apply BitVec.eq_of_toNat_eq
      rw [hhigh, randomBits, hhigh']
      omega
    have hlows : (bitsOf (layout random t)).extractLsb' 0 62 =
        (randomBits random).extractLsb' 0 62 := by
      apply BitVec.eq_of_toNat_eq
      rw [hlow, randomBits, hlow']
      omega
    rw [uuidBits_next, remainingBits, hhighs, hlows, remainingBits]

end UuidV7Generator

section Order

variable {random random' : Vector UInt8 16} {t t' : Nat} {out out' : Text}

open UuidV7Generator

/-- An earlier clock decides the order, because its bits are the highest. -/
theorem UuidV7Generator.Encodes.lt (h : Encodes random t out) (h' : Encodes random' t' out')
    (hlt : t < t') : uuidBits out < uuidBits out' := by
  have htimestamp := h.timestamp
  have htimestamp' := h'.timestamp
  rw [toNat_extract] at htimestamp htimestamp'
  have hbits := (uuidBits out).isLt
  have hbits' := (uuidBits out').isLt
  rw [BitVec.lt_def]
  omega

/-- The generator is a correct encoder: every output carries its clock, the version,
the variant and the other random bits, so outputs are ordered as their clocks and
equal only when clocks and random bits are. -/
theorem UuidV7Generator.next_correct :
    (∀ (random : Vector UInt8 16) (t : Nat), t < 2 ^ 48 →
        Encodes random t (next random t)) ∧
      (∀ (random random' : Vector UInt8 16) (t t' : Nat), t < t' → t' < 2 ^ 48 →
        (Text.le (next random t) (next random' t') = true ∧ next random t ≠ next random' t') ∧
          uuidBits (next random t) < uuidBits (next random' t')) ∧
      ∀ (random random' : Vector UInt8 16) (t t' : Nat), t < 2 ^ 48 → t' < 2 ^ 48 →
        next random t = next random' t' →
        t = t' ∧ remainingBits (randomBits random) = remainingBits (randomBits random') := by
  refine ⟨next_encodes, ?_, ?_⟩
  · intro random random' t t' hlt ht'
    have ht : t < 2 ^ 48 := by omega
    have hbits := (next_encodes random t ht).lt (next_encodes random' t' ht') hlt
    refine ⟨⟨?_, ?_⟩, hbits⟩
    · apply (le_iff_uuidBits_le (next_canonical random t) (next_canonical random' t')).mpr
      exact BitVec.le_of_lt hbits
    · intro heq
      rw [heq] at hbits
      exact BitVec.lt_irrefl _ hbits
  · intro random random' t t' ht ht' heq
    have hencodes := next_encodes random t ht
    have hencodes' := next_encodes random' t' ht'
    rw [heq] at hencodes
    exact ⟨hencodes.timestamp.symm.trans hencodes'.timestamp,
      hencodes.remaining.symm.trans hencodes'.remaining⟩

end Order

/-! ## A sample -/

theorem sample_identifiers :
    uuidBits (UuidV7Generator.next (Vector.replicate 16 255) (2 ^ 40 + 7)) <
      uuidBits (UuidV7Generator.next (Vector.replicate 16 0) (2 ^ 40 + 8)) :=
  (UuidV7Generator.next_correct.2.1 _ _ _ _ (by decide) (by decide)).2

end Wagering
