import Mathlib.Data.List.TakeWhile

/-!
# Base64, with the alphabet for URLs

Three bytes are four sextets, each written as one character; the last group is
not padded.  A reader looks at the low byte of each unit, stops at a padding
character, skips the others that stand for no sextet, and reads what was written
back as it was (`decode_encode`).
-/

namespace Base64

/-- Bytes, six bits at a time. -/
def sextets : List Nat → List Nat
  | [] => []
  | [a] => [a / 4, a % 4 * 16]
  | [a, b] => [a / 4, a % 4 * 16 + b / 16, b % 16 * 4]
  | a :: b :: c :: rest =>
    a / 4 :: (a % 4 * 16 + b / 16) :: (b % 16 * 4 + c / 64) :: c % 64 :: sextets rest

/-- Sextets, eight bits at a time; the bits that make no byte are dropped. -/
def bytes : List Nat → List Nat
  | p :: q :: r :: s :: rest =>
    (p * 4 + q / 16) :: (q % 16 * 16 + r / 4) :: (r % 4 * 64 + s) :: bytes rest
  | [p, q, r] => [p * 4 + q / 16, q % 16 * 16 + r / 4]
  | [p, q] => [p * 4 + q / 16]
  | _ => []

theorem bytes_sextets {l : List Nat} (h : ∀ b ∈ l, b < 256) : bytes (sextets l) = l := by
  fun_induction sextets l with
  | case1 => rfl
  | case2 a =>
    have ha : a / 4 * 4 + a % 4 * 16 / 16 = a := by omega
    rw [bytes, ha]
  | case3 a b =>
    have hb := h b (by simp)
    have ha : a / 4 * 4 + (a % 4 * 16 + b / 16) / 16 = a := by omega
    have hb : (a % 4 * 16 + b / 16) % 16 * 16 + b % 16 * 4 / 4 = b := by omega
    rw [bytes, ha, hb]
  | case4 a b c rest ih =>
    simp only [List.forall_mem_cons] at h
    obtain ⟨-, hb, hc, hrest⟩ := h
    have ha : a / 4 * 4 + (a % 4 * 16 + b / 16) / 16 = a := by omega
    have hb : (a % 4 * 16 + b / 16) % 16 * 16 + (b % 16 * 4 + c / 64) / 4 = b := by omega
    have hc : (b % 16 * 4 + c / 64) % 4 * 64 + c % 64 = c := by omega
    rw [bytes, ha, hb, hc, ih hrest]

theorem sextets_lt {l : List Nat} (h : ∀ b ∈ l, b < 256) : ∀ n ∈ sextets l, n < 64 := by
  fun_induction sextets l with
  | case1 => simp
  | case2 a =>
    simp only [List.forall_mem_cons] at h ⊢
    exact ⟨by omega, by omega, by simp⟩
  | case3 a b =>
    simp only [List.forall_mem_cons] at h ⊢
    exact ⟨by omega, by omega, by omega, by simp⟩
  | case4 a b c rest ih =>
    simp only [List.forall_mem_cons] at h ⊢
    exact ⟨by omega, by omega, by omega, by omega, ih h.2.2.2⟩

/-! ## The alphabet -/

/-- The character of a sextet. -/
def symbol (n : Nat) : UInt16 :=
  (if n < 26 then 65 + n
   else if n < 52 then 71 + n
   else if n < 62 then n - 4
   else if n = 62 then 45
   else 95).toUInt16

/-- The low byte of a code unit. -/
def lowByte (u : UInt16) : Nat := u.toNat % 256

/-- The sextet of a character; `+` and `/` of the other alphabet are read too. -/
def value (u : UInt16) : Option Nat :=
  let code := lowByte u
  if 65 ≤ code && code ≤ 90 then some (code - 65)
  else if 97 ≤ code && code ≤ 122 then some (code - 71)
  else if 48 ≤ code && code ≤ 57 then some (code + 4)
  else if code = 45 || code = 43 then some 62
  else if code = 95 || code = 47 then some 63
  else none

theorem value_symbol : ∀ {n : Nat}, n < 64 → value (symbol n) = some n := by
  decide

/-- No sextet is written as the padding character. -/
theorem lowByte_symbol : ∀ {n : Nat}, n < 64 → lowByte (symbol n) ≠ 61 := by
  decide

/-! ## Texts -/

def encode (l : List Nat) : List UInt16 := (sextets l).map symbol

def decode (t : List UInt16) : List Nat :=
  bytes ((t.takeWhile fun u => lowByte u ≠ 61).filterMap value)

theorem takeWhile_symbols {l : List Nat} (h : ∀ n ∈ l, n < 64) :
    (l.map symbol).takeWhile (fun u => lowByte u ≠ 61) = l.map symbol := by
  rw [List.takeWhile_eq_self_iff]
  intro u hu
  obtain ⟨n, hn, rfl⟩ := List.mem_map.mp hu
  exact decide_eq_true (lowByte_symbol (h n hn))

theorem filterMap_symbols {l : List Nat} (h : ∀ n ∈ l, n < 64) :
    (l.map symbol).filterMap value = l := by
  induction l with
  | nil => rfl
  | cons n l ih =>
    obtain ⟨hn, hl⟩ := List.forall_mem_cons.mp h
    rw [List.map_cons, List.filterMap_cons_some (value_symbol hn), ih hl]

/-- What was written is read back. -/
theorem decode_encode {l : List Nat} (h : ∀ b ∈ l, b < 256) : decode (encode l) = l := by
  rw [decode, encode, takeWhile_symbols (sextets_lt h), filterMap_symbols (sextets_lt h),
    bytes_sextets h]

end Base64
