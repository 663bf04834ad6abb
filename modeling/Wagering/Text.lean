import Mathlib.Data.List.Basic
import Mathlib.Data.Nat.Digits.Lemmas

/-!
# Strings of the program

A `Text` is a JavaScript string: a list of UTF-16 code units, so a lone
surrogate is a value like any other.  PostgreSQL stores characters: what the
driver sends is UTF-8, where a lone surrogate has become U+FFFD (`stored`), and
`varchar(n)` counts characters, not code units (`characters`).

What the code takes from the runtime and cannot be read here (the ISO-4217
table, Unicode normalisation, the hash, JSON and date parsing, the room on the
call stack) is the class `Platform`.
-/

namespace Wagering

/-- A JavaScript string, as its UTF-16 code units. -/
abbrev Text := List UInt16

instance : LawfulBEq Text := List.instLawfulBEq

/-- A literal of the source.  All of them are ASCII. -/
def utf16 (s : String) : Text :=
  s.toList.map fun c => c.toNat.toUInt16

namespace Text

/-- A code unit as a number, for comparisons with the source's constants. -/
def isDigit (u : UInt16) : Bool := 48 ≤ u.toNat && u.toNat ≤ 57

def isUpper (u : UInt16) : Bool := 65 ≤ u.toNat && u.toNat ≤ 90

/-- `[0-9a-f]` with the flag `i`. -/
def isHexDigit (u : UInt16) : Bool :=
  isDigit u || (65 ≤ u.toNat && u.toNat ≤ 70) || (97 ≤ u.toNat && u.toNat ≤ 102)

def isHighSurrogate (u : UInt16) : Bool := 0xD800 ≤ u.toNat && u.toNat ≤ 0xDBFF

def isLowSurrogate (u : UInt16) : Bool := 0xDC00 ≤ u.toNat && u.toNat ≤ 0xDFFF

def isSurrogate (u : UInt16) : Bool := 0xD800 ≤ u.toNat && u.toNat ≤ 0xDFFF

/-! ## What the database keeps of a string -/

/-- The string that comes back from a `text` or `varchar` column: every lone
surrogate is replaced by U+FFFD on its way through UTF-8. -/
def stored : Text → Text
  | [] => []
  | [u] => if isSurrogate u then [0xFFFD] else [u]
  | u :: v :: rest =>
    if isHighSurrogate u && isLowSurrogate v then u :: v :: stored rest
    else if isSurrogate u then 0xFFFD :: stored (v :: rest)
    else u :: stored (v :: rest)

/-- The number of characters (code points) of a string. -/
def characters : Text → Nat
  | [] => 0
  | [_] => 1
  | u :: v :: rest =>
    if isHighSurrogate u && isLowSurrogate v then characters rest + 1
    else characters (v :: rest) + 1

theorem characters_le_length (t : Text) : characters t ≤ t.length := by
  fun_induction characters t with
  | case1 => simp
  | case2 => simp
  | case3 u v rest _ ih => simp only [List.length_cons]; omega
  | case4 u v rest _ ih => simp only [List.length_cons] at ih ⊢; omega

@[simp] theorem length_stored (t : Text) : (stored t).length = t.length := by
  fun_induction stored t <;> simp_all

theorem isSurrogate_of_isHighSurrogate {u : UInt16} (h : isHighSurrogate u = true) :
    isSurrogate u = true := by
  simp only [isHighSurrogate, isSurrogate, Bool.and_eq_true, decide_eq_true_eq] at *
  omega

theorem isHighSurrogate_eq_false {u : UInt16} (h : isSurrogate u = false) :
    isHighSurrogate u = false := by
  by_contra hu
  rw [isSurrogate_of_isHighSurrogate (by simpa using hu)] at h
  cases h

@[simp] theorem isSurrogate_replacement : isSurrogate 0xFFFD = false := by decide

theorem stored_cons {u : UInt16} (rest : Text) (hu : isSurrogate u = false) :
    stored (u :: rest) = u :: stored rest := by
  cases rest with
  | nil => simp [stored, hu]
  | cons v rest => simp [stored, hu, isHighSurrogate_eq_false hu]

theorem characters_cons {u : UInt16} (rest : Text) (hu : isHighSurrogate u = false) :
    characters (u :: rest) = characters rest + 1 := by
  cases rest with
  | nil => rfl
  | cons v rest => simp [characters, hu]

/-- Storing what was stored changes nothing more. -/
@[simp] theorem stored_stored (t : Text) : stored (stored t) = stored t := by
  fun_induction stored t with
  | case1 => rfl
  | case2 u h => exact stored_cons [] isSurrogate_replacement
  | case3 u h => exact stored_cons [] (by simpa using h)
  | case4 u v rest h ih => simp [stored, h, ih]
  | case5 u v rest _ h ih => rw [stored_cons _ isSurrogate_replacement, ih]
  | case6 u v rest _ h ih => rw [stored_cons _ (by simpa using h), ih]

/-- Storing keeps the number of characters. -/
@[simp] theorem characters_stored (t : Text) : characters (stored t) = characters t := by
  fun_induction stored t with
  | case1 => rfl
  | case2 u h => rfl
  | case3 u h => rfl
  | case4 u v rest h ih => simp only [characters, h, if_true, ih]
  | case5 u v rest hpair h ih =>
    rw [characters_cons _ (isHighSurrogate_eq_false isSurrogate_replacement), ih]
    simp only [characters, hpair, if_false, Bool.false_eq_true]
  | case6 u v rest hpair h ih =>
    rw [characters_cons _ (isHighSurrogate_eq_false (by simpa using h)), ih]
    simp only [characters, hpair, if_false, Bool.false_eq_true]

/-- A text without surrogates is stored as it is. -/
theorem stored_of_plain {t : Text} (h : ∀ u ∈ t, isSurrogate u = false) : stored t = t := by
  induction t with
  | nil => rfl
  | cons u t ih =>
    obtain ⟨hu, ht⟩ := List.forall_mem_cons.mp h
    rw [stored_cons t hu, ih ht]

/-- A text in which nothing was replaced is what was stored. -/
theorem eq_of_stored_eq {s t : Text} (hs : 0xFFFD ∉ s) (h : stored t = s) : t = s := by
  subst h
  fun_induction stored t with
  | case1 => rfl
  | case2 u h => exact absurd List.mem_cons_self hs
  | case3 u h => rfl
  | case4 u v rest h ih =>
    rw [← ih fun hx => hs (List.mem_cons_of_mem _ (List.mem_cons_of_mem _ hx))]
  | case5 u v rest _ h ih => exact absurd List.mem_cons_self hs
  | case6 u v rest _ h ih => rw [← ih fun hx => hs (List.mem_cons_of_mem _ hx)]

/-- A `text` value cannot hold U+0000; the server refuses the whole statement. -/
def hasNul (t : Text) : Bool := t.any (· = 0)

@[simp] theorem hasNul_nil : hasNul [] = false := rfl

theorem hasNul_cons (u : UInt16) (t : Text) : hasNul (u :: t) = (decide (u = 0) || hasNul t) := rfl

theorem ne_zero_of_isSurrogate {u : UInt16} (h : isSurrogate u = true) : u ≠ 0 := by
  rintro rfl
  cases h

@[simp] theorem hasNul_stored (t : Text) : hasNul (stored t) = hasNul t := by
  fun_induction stored t with
  | case1 => rfl
  | case2 u h => simp [hasNul_cons, ne_zero_of_isSurrogate h]
  | case3 u h => rfl
  | case4 u v rest h ih => simp [hasNul_cons, ih]
  | case5 u v rest _ h ih => simp [hasNul_cons, ne_zero_of_isSurrogate h] at ih ⊢; exact ih
  | case6 u v rest _ h ih => rw [hasNul_cons, ih, ← hasNul_cons]

/-! ## Decimal digits -/

/-- The character of a digit. -/
def digit (d : Nat) : UInt16 := (48 + d).toUInt16

/-- The unsigned decimal numeral of a number. -/
def decimal (n : Nat) : Text :=
  if n = 0 then [48] else (Nat.digits 10 n).reverse.map digit

/-- The number that a sequence of digits denotes. -/
def digitsValue (t : Text) : Nat :=
  t.foldl (fun value u => value * 10 + (u.toNat - 48)) 0

theorem toNat_digit {d : Nat} (hd : d < 10) : (digit d).toNat = 48 + d := by
  simp only [digit, Nat.toUInt16, UInt16.toNat_ofNat']
  omega

theorem isDigit_digit {d : Nat} (hd : d < 10) : isDigit (digit d) = true := by
  simp only [isDigit, toNat_digit hd, Bool.and_eq_true, decide_eq_true_eq]
  omega

theorem decimal_isDigit (n : Nat) : ∀ u ∈ decimal n, isDigit u = true := by
  intro u hu
  unfold decimal at hu
  split at hu
  · simp only [List.mem_singleton] at hu
    subst hu
    decide
  · simp only [List.mem_map, List.mem_reverse] at hu
    obtain ⟨d, hd, rfl⟩ := hu
    exact isDigit_digit (Nat.digits_lt_base (by decide) hd)

theorem decimal_ne_nil (n : Nat) : decimal n ≠ [] := by
  unfold decimal
  split
  · simp
  · simpa using Nat.digits_ne_nil_iff_ne_zero.mpr ‹_›

theorem digitsValue_append (t : Text) (u : UInt16) :
    digitsValue (t ++ [u]) = digitsValue t * 10 + (u.toNat - 48) := by
  simp [digitsValue]

theorem digitsValue_map (ds : List Nat) (h : ∀ d ∈ ds, d < 10) :
    digitsValue (ds.reverse.map digit) = Nat.ofDigits 10 ds := by
  induction ds with
  | nil => rfl
  | cons d ds ih =>
    have hd : d < 10 := h d (by simp)
    rw [List.reverse_cons, List.map_append, List.map_singleton, digitsValue_append,
      ih fun d' hd' => h d' (List.mem_cons_of_mem _ hd'), toNat_digit hd, Nat.ofDigits_cons]
    omega

/-- Reading back a numeral gives the number. -/
@[simp] theorem digitsValue_decimal (n : Nat) : digitsValue (decimal n) = n := by
  unfold decimal
  split
  · rename_i h
    subst h
    rfl
  · rw [digitsValue_map _ fun d hd => Nat.digits_lt_base (by decide) hd, Nat.ofDigits_digits]

theorem decimal_length_le {n k : Nat} (hk : 0 < k) (h : n < 10 ^ k) :
    (decimal n).length ≤ k := by
  unfold decimal
  split
  · exact hk
  · simpa using (Nat.digits_length_le_iff (by decide) n).mpr h

/-! ## The order of strings -/

/-- Strings in the order of their code units.  On identifiers as the server
prints them it is the order of type `uuid`. -/
def le : Text → Text → Bool
  | [], _ => true
  | _ :: _, [] => false
  | u :: us, v :: vs => u.toNat < v.toNat || (u = v && le us vs)

theorem le_refl (s : Text) : le s s = true := by
  induction s with
  | nil => rfl
  | cons u us ih => simp [le, ih]

theorem le_total (s t : Text) : le s t = true ∨ le t s = true := by
  induction s generalizing t with
  | nil => exact .inl rfl
  | cons u us ih =>
    cases t with
    | nil => exact .inr rfl
    | cons v vs =>
      simp only [le, Bool.or_eq_true, Bool.and_eq_true, decide_eq_true_eq]
      rcases Nat.lt_trichotomy u.toNat v.toNat with h | h | h
      · exact .inl (.inl h)
      · have huv : u = v := UInt16.toNat_inj.mp h
        rcases ih vs with h' | h'
        · exact .inl (.inr ⟨huv, h'⟩)
        · exact .inr (.inr ⟨huv.symm, h'⟩)
      · exact .inr (.inl h)

theorem le_trans {r s t : Text} (h : le r s = true) (h' : le s t = true) : le r t = true := by
  induction r generalizing s t with
  | nil => rfl
  | cons u us ih =>
    cases s with
    | nil => simp [le] at h
    | cons v vs =>
      cases t with
      | nil => simp [le] at h'
      | cons w ws =>
        simp only [le, Bool.or_eq_true, Bool.and_eq_true, decide_eq_true_eq] at *
        rcases h with h | ⟨rfl, h⟩ <;> rcases h' with h' | ⟨rfl, h'⟩
        · exact .inl (Nat.lt_trans h h')
        · exact .inl h
        · exact .inl h'
        · exact .inr ⟨rfl, ih h h'⟩

theorem le_antisymm {s t : Text} (h : le s t = true) (h' : le t s = true) : s = t := by
  induction s generalizing t with
  | nil =>
    cases t with
    | nil => rfl
    | cons v vs => simp [le] at h'
  | cons u us ih =>
    cases t with
    | nil => simp [le] at h
    | cons v vs =>
      simp only [le, Bool.or_eq_true, Bool.and_eq_true, decide_eq_true_eq] at *
      rcases h with h | ⟨rfl, h⟩
      · rcases h' with h' | ⟨rfl, h'⟩ <;> omega
      · rcases h' with h' | ⟨-, h'⟩
        · omega
        · rw [ih h h']

/-! ## `JSON.stringify` of a string -/

/-- A lower-case hexadecimal digit. -/
def hexDigit (n : Nat) : UInt16 :=
  if n < 10 then (48 + n).toUInt16 else (87 + n).toUInt16

theorem toNat_hexDigit {n : Nat} (h : n < 16) :
    (hexDigit n).toNat = if n < 10 then 48 + n else 87 + n := by
  unfold hexDigit
  split
  · simp only [Nat.toUInt16, UInt16.toNat_ofNat']
    omega
  · simp only [Nat.toUInt16, UInt16.toNat_ofNat']
    omega

/-- `\u` and four hexadecimal digits. -/
def unicodeEscape (u : UInt16) : Text :=
  [92, 117, hexDigit (u.toNat / 4096), hexDigit (u.toNat / 256 % 16),
    hexDigit (u.toNat / 16 % 16), hexDigit (u.toNat % 16)]

/-- One code unit inside a JSON string; a surrogate reaches it only alone. -/
def jsonEscape (u : UInt16) : Text :=
  match u.toNat with
  | 34 => [92, 34]
  | 92 => [92, 92]
  | 8 => [92, 98]
  | 12 => [92, 102]
  | 10 => [92, 110]
  | 13 => [92, 114]
  | 9 => [92, 116]
  | n => if n < 32 || isSurrogate u then unicodeEscape u else [u]

/-- The characters of a string, escaped; a surrogate pair stays as it is. -/
def jsonEscapes : Text → Text
  | [] => []
  | [u] => jsonEscape u
  | u :: v :: rest =>
    if isHighSurrogate u && isLowSurrogate v then u :: v :: jsonEscapes rest
    else jsonEscape u ++ jsonEscapes (v :: rest)

/-- `JSON.stringify` of a string. -/
def jsonString (t : Text) : Text := 34 :: jsonEscapes t ++ [34]

end Text

/-! ## The runtime -/

/-- A parsed JSON value.  A number is kept as the text that `String` gives it,
where `-0` is `0`. -/
inductive Json : Type
  | null
  | bool (b : Bool)
  | number (literal : Text)
  | string (value : Text)
  | array (items : List Json)
  | object (fields : List (Text × Json))

/-- A character of the text of a finite number: a digit, `-`, `+`, `.` or `e`. -/
def Text.isNumeral (u : UInt16) : Bool :=
  isDigit u || u.toNat = 45 || u.toNat = 43 || u.toNat = 46 || u.toNat = 101

/-- The text of a number that is not `Infinity`, `-Infinity` or `NaN`. -/
def Text.isFiniteLiteral (literal : Text) : Bool :=
  !literal.isEmpty && literal.all isNumeral

mutual

/-- Every number in the value is finite. -/
def Json.isFinite : Json → Bool
  | .number literal => literal.isFiniteLiteral
  | .array items => Json.itemsFinite items
  | .object fields => Json.fieldsFinite fields
  | _ => true

def Json.itemsFinite : List Json → Bool
  | [] => true
  | item :: items => item.isFinite && Json.itemsFinite items

def Json.fieldsFinite : List (Text × Json) → Bool
  | [] => true
  | (_, value) :: fields => value.isFinite && Json.fieldsFinite fields

end

mutual

/-- How many arrays and objects of the value stand one inside the other. -/
def Json.nesting : Json → Nat
  | .array items => Json.itemsNesting items + 1
  | .object fields => Json.fieldsNesting fields + 1
  | _ => 0

def Json.itemsNesting : List Json → Nat
  | [] => 0
  | item :: items => max item.nesting (Json.itemsNesting items)

def Json.fieldsNesting : List (Text × Json) → Nat
  | [] => 0
  | (_, value) :: fields => max value.nesting (Json.fieldsNesting fields)

end

/-- The time value of a valid `Date`, in milliseconds. -/
abbrev TimeValue : Type := { at_ : Int // at_.natAbs ≤ 8640000000000000 }

/-- What the code takes from the runtime: `Intl.supportedValuesOf('currency')`,
`String.prototype.normalize('NFC')`, SHA-256 of the UTF-8 bytes, `JSON.parse`,
the `Date` parser, and its call stack: a recursion over a value returns as long
as the value nests at most `maxNesting` deep. -/
class Platform : Type where
  supportedCurrency : Text → Bool
  normalizeNfc : Text → Text
  sha256 : Text → BitVec 256
  parseJson : Text → Option Json
  parseDate : Text → Option TimeValue
  maxNesting : Nat

end Wagering
