import Wagering.Text

/-!
# UTF-8

Strings as the bytes that leave the process, and back.  What is not the bytes
of a character is read as U+FFFD, so a text comes back as the server would
store it (`fromUtf8_utf8`).
-/

namespace Wagering

open Text

/-- The UTF-8 bytes of a text; a lone surrogate becomes U+FFFD. -/
def utf8 : Text → List Nat
  | [] => []
  | [u] => encode u.toNat
  | u :: v :: rest =>
    if Text.isHighSurrogate u && Text.isLowSurrogate v then
      let c := 0x10000 + (u.toNat - 0xd800) * 1024 + (v.toNat - 0xdc00)
      (0xf0 + c / 262144) :: (0x80 + c / 4096 % 64) :: (0x80 + c / 64 % 64) :: (0x80 + c % 64) ::
        utf8 rest
    else encode u.toNat ++ utf8 (v :: rest)
where
  /-- One code unit that is no part of a pair. -/
  encode (n : Nat) : List Nat :=
    if n < 0x80 then [n]
    else if n < 0x800 then [0xc0 + n / 64, 0x80 + n % 64]
    else if 0xd800 ≤ n && n < 0xe000 then [0xef, 0xbf, 0xbd]
    else [0xe0 + n / 4096, 0x80 + n / 64 % 64, 0x80 + n % 64]

/-- A character whose first bytes were read: how many are owed, the bounds of the
next one, and the bits so far. -/
structure Utf8Lead : Type where
  owed : Nat
  low : Nat
  high : Nat
  bits : Nat

/-- The code units of a code point. -/
def fromCodePoint (c : Nat) : Text :=
  if c < 0x10000 then [c.toUInt16]
  else [(0xd800 + (c - 0x10000) / 1024).toUInt16, (0xdc00 + (c - 0x10000) % 1024).toUInt16]

/-- The first byte of a character. -/
def Utf8Lead.first (b : Nat) : Text × Option Utf8Lead :=
  if b < 0x80 then ([b.toUInt16], none)
  else if b < 0xc2 then ([0xFFFD], none)
  else if b < 0xe0 then ([], some ⟨1, 0x80, 0xbf, b - 0xc0⟩)
  else if b < 0xf0 then
    -- neither a character of two bytes nor a surrogate
    ([], some ⟨2, if b = 0xe0 then 0xa0 else 0x80, if b = 0xed then 0x9f else 0xbf, b - 0xe0⟩)
  else if b < 0xf5 then
    ([], some ⟨3, if b = 0xf0 then 0x90 else 0x80, if b = 0xf4 then 0x8f else 0xbf, b - 0xf0⟩)
  else ([0xFFFD], none)

/-- The next byte: what is complete now, and what is not.  A byte that does not
belong to the character begins another one. -/
def Utf8Lead.step : Option Utf8Lead → Nat → Text × Option Utf8Lead
  | none, b => first b
  | some lead, b =>
    if lead.low ≤ b && b ≤ lead.high then
      let bits := lead.bits * 64 + b % 64
      if lead.owed = 1 then (fromCodePoint bits, none)
      else ([], some ⟨lead.owed - 1, 0x80, 0xbf, bits⟩)
    else (0xFFFD :: (first b).1, (first b).2)

/-- The text of the remaining bytes. -/
def Utf8Lead.read : Option Utf8Lead → List Nat → Text
  | none, [] => []
  | some _, [] => [0xFFFD]
  | lead, b :: rest => (step lead b).1 ++ read (step lead b).2 rest

/-- `Buffer.toString('utf8')`. -/
def fromUtf8 (bytes : List Nat) : Text := Utf8Lead.read none bytes

example : fromUtf8 [0xe2, 0x82, 0x41, 0xf0, 0x9f, 0x98, 0x80] = [0xFFFD, 65, 0xd83d, 0xde00] := by
  decide

/-! ## Reading what was written -/

namespace Utf8Lead

variable {lead : Utf8Lead} {b n c : Nat} {rest : List Nat}

theorem read_cons (lead : Option Utf8Lead) (b : Nat) (rest : List Nat) :
    read lead (b :: rest) = (step lead b).1 ++ read (step lead b).2 rest := by
  cases lead <;> rfl

theorem step_more (hlow : lead.low ≤ b) (hhigh : b ≤ lead.high) (howed : lead.owed ≠ 1) :
    step (some lead) b =
      ([], some ⟨lead.owed - 1, 0x80, 0xbf, lead.bits * 64 + b % 64⟩) := by
  simp [step, hlow, hhigh, howed]

theorem step_last (hlow : lead.low ≤ b) (hhigh : b ≤ lead.high) (howed : lead.owed = 1) :
    step (some lead) b = (fromCodePoint (lead.bits * 64 + b % 64), none) := by
  simp [step, hlow, hhigh, howed]

theorem fromCodePoint_unit (h : n < 0x10000) : fromCodePoint n = [n.toUInt16] := if_pos h

theorem read_ascii (h : n < 0x80) : read none (n :: rest) = n.toUInt16 :: read none rest := by
  have hfirst : step none n = ([n.toUInt16], none) := if_pos h
  rw [read_cons, hfirst]
  rfl

theorem read_two (h : 0x80 ≤ n) (h' : n < 0x800) :
    read none ((0xc0 + n / 64) :: (0x80 + n % 64) :: rest) = n.toUInt16 :: read none rest := by
  have hfirst : step none (0xc0 + n / 64) = ([], some ⟨1, 0x80, 0xbf, n / 64⟩) := by
    have h1 : ¬ 0xc0 + n / 64 < 0x80 := by omega
    have h2 : ¬ 0xc0 + n / 64 < 0xc2 := by omega
    have h3 : 0xc0 + n / 64 < 0xe0 := by omega
    rw [step, first, if_neg h1, if_neg h2, if_pos h3, Nat.add_sub_cancel_left]
  have hbits : n / 64 * 64 + (0x80 + n % 64) % 64 = n := by omega
  rw [read_cons, hfirst, read_cons, step_last (by simp) (by simp; omega) rfl]
  simp only [hbits, fromCodePoint_unit (show n < 0x10000 by omega)]
  rfl

theorem read_three (h : 0x800 ≤ n) (h' : n < 0x10000) (hsurrogate : n < 0xd800 ∨ 0xe000 ≤ n) :
    read none ((0xe0 + n / 4096) :: (0x80 + n / 64 % 64) :: (0x80 + n % 64) :: rest) =
      n.toUInt16 :: read none rest := by
  have hfirst : step none (0xe0 + n / 4096) =
      ([], some ⟨2, if 0xe0 + n / 4096 = 0xe0 then 0xa0 else 0x80,
        if 0xe0 + n / 4096 = 0xed then 0x9f else 0xbf, n / 4096⟩) := by
    have h1 : ¬ 0xe0 + n / 4096 < 0x80 := by omega
    have h2 : ¬ 0xe0 + n / 4096 < 0xc2 := by omega
    have h3 : ¬ 0xe0 + n / 4096 < 0xe0 := by omega
    have h4 : 0xe0 + n / 4096 < 0xf0 := by omega
    rw [step, first, if_neg h1, if_neg h2, if_neg h3, if_pos h4, Nat.add_sub_cancel_left]
  have hlow : (if 0xe0 + n / 4096 = 0xe0 then 0xa0 else 0x80) ≤ 0x80 + n / 64 % 64 := by
    split <;> omega
  have hhigh : 0x80 + n / 64 % 64 ≤ (if 0xe0 + n / 4096 = 0xed then 0x9f else 0xbf) := by
    split <;> omega
  have hbits : (n / 4096 * 64 + (0x80 + n / 64 % 64) % 64) * 64 + (0x80 + n % 64) % 64 = n := by
    omega
  rw [read_cons, hfirst, read_cons, step_more hlow hhigh (by simp), read_cons,
    step_last (by simp) (by simp; omega) rfl]
  simp only [hbits, fromCodePoint_unit h']
  rfl

theorem read_four (h : 0x10000 ≤ c) (h' : c < 0x110000) :
    read none ((0xf0 + c / 262144) :: (0x80 + c / 4096 % 64) :: (0x80 + c / 64 % 64) ::
      (0x80 + c % 64) :: rest) = fromCodePoint c ++ read none rest := by
  have hfirst : step none (0xf0 + c / 262144) =
      ([], some ⟨3, if 0xf0 + c / 262144 = 0xf0 then 0x90 else 0x80,
        if 0xf0 + c / 262144 = 0xf4 then 0x8f else 0xbf, c / 262144⟩) := by
    have h1 : ¬ 0xf0 + c / 262144 < 0x80 := by omega
    have h2 : ¬ 0xf0 + c / 262144 < 0xc2 := by omega
    have h3 : ¬ 0xf0 + c / 262144 < 0xe0 := by omega
    have h4 : ¬ 0xf0 + c / 262144 < 0xf0 := by omega
    have h5 : 0xf0 + c / 262144 < 0xf5 := by omega
    rw [step, first, if_neg h1, if_neg h2, if_neg h3, if_neg h4, if_pos h5,
      Nat.add_sub_cancel_left]
  have hlow : (if 0xf0 + c / 262144 = 0xf0 then 0x90 else 0x80) ≤ 0x80 + c / 4096 % 64 := by
    split <;> omega
  have hhigh : 0x80 + c / 4096 % 64 ≤ (if 0xf0 + c / 262144 = 0xf4 then 0x8f else 0xbf) := by
    split <;> omega
  have hbits : ((c / 262144 * 64 + (0x80 + c / 4096 % 64) % 64) * 64 +
      (0x80 + c / 64 % 64) % 64) * 64 + (0x80 + c % 64) % 64 = c := by
    omega
  rw [read_cons, hfirst, read_cons, step_more hlow hhigh (by simp), read_cons,
    step_more (by simp) (by simp; omega) (by simp), read_cons,
    step_last (by simp) (by simp; omega) rfl]
  simp only [hbits]
  rfl

end Utf8Lead

theorem toUInt16_toNat (u : UInt16) : u.toNat.toUInt16 = u := UInt16.ofNat_toNat

/-- A code unit that is no part of a pair comes back, unless it is a surrogate. -/
theorem read_encode (u : UInt16) (rest : List Nat) :
    Utf8Lead.read none (utf8.encode u.toNat ++ rest) =
      (if isSurrogate u then 0xFFFD else u) :: Utf8Lead.read none rest := by
  have hu := u.toNat_lt
  unfold utf8.encode
  split
  · have hplain : isSurrogate u = false := by
      simp only [isSurrogate, Bool.and_eq_false_iff, decide_eq_false_iff_not]
      omega
    rw [List.singleton_append, Utf8Lead.read_ascii ‹_›, toUInt16_toNat, hplain]
    rfl
  · split
    · have hplain : isSurrogate u = false := by
        simp only [isSurrogate, Bool.and_eq_false_iff, decide_eq_false_iff_not]
        omega
      rw [List.cons_append, List.singleton_append, Utf8Lead.read_two (by omega) ‹_›,
        toUInt16_toNat, hplain]
      rfl
    · split
      · have hsurrogate : isSurrogate u = true := by
          simp only [Bool.and_eq_true, decide_eq_true_eq] at *
          simp only [isSurrogate, Bool.and_eq_true, decide_eq_true_eq]
          omega
        rw [hsurrogate]
        rfl
      · rename_i hrange
        simp only [Bool.and_eq_true, decide_eq_true_eq] at hrange
        have hplain : isSurrogate u = false := by
          simp only [isSurrogate, Bool.and_eq_false_iff, decide_eq_false_iff_not]
          omega
        rw [List.cons_append, List.cons_append, List.singleton_append,
          Utf8Lead.read_three (by omega) (by omega) (by omega), toUInt16_toNat, hplain]
        rfl

/-- The code point of a pair is written as the pair again. -/
theorem fromCodePoint_pair {u v : UInt16} (hu : isHighSurrogate u = true)
    (hv : isLowSurrogate v = true) :
    fromCodePoint (0x10000 + (u.toNat - 0xd800) * 1024 + (v.toNat - 0xdc00)) = [u, v] := by
  simp only [isHighSurrogate, isLowSurrogate, Bool.and_eq_true, decide_eq_true_eq] at hu hv
  have hhigh : 0xd800 + (0x10000 + (u.toNat - 0xd800) * 1024 + (v.toNat - 0xdc00) - 0x10000) / 1024 =
      u.toNat := by
    omega
  have hlow : 0xdc00 + (0x10000 + (u.toNat - 0xd800) * 1024 + (v.toNat - 0xdc00) - 0x10000) % 1024 =
      v.toNat := by
    omega
  rw [fromCodePoint, if_neg (by omega), hhigh, hlow, toUInt16_toNat, toUInt16_toNat]

/-- A text that leaves as UTF-8 comes back as the server would store it. -/
theorem fromUtf8_utf8 (t : Text) : fromUtf8 (utf8 t) = stored t := by
  unfold fromUtf8
  fun_induction utf8 t with
  | case1 => rfl
  | case2 u =>
    have hread := read_encode u []
    rw [List.append_nil] at hread
    rw [hread, stored]
    split <;> rfl
  | case3 u v rest hpair c ih =>
    have hpair' := hpair
    simp only [Bool.and_eq_true] at hpair'
    have hc := fromCodePoint_pair hpair'.1 hpair'.2
    simp only [isHighSurrogate, isLowSurrogate, Bool.and_eq_true, decide_eq_true_eq] at hpair'
    rw [Utf8Lead.read_four (by omega) (by omega), hc, ih, stored, if_pos hpair]
    rfl
  | case4 u v rest hpair ih =>
    rw [read_encode, ih, stored, if_neg hpair]
    split <;> rfl

/-- No code unit takes more than three bytes. -/
theorem length_utf8_le (t : Text) : (utf8 t).length ≤ 3 * t.length := by
  have hencode : ∀ n, (utf8.encode n).length ≤ 3 := by
    intro n
    unfold utf8.encode
    split
    · simp
    · split
      · simp
      · split <;> simp
  fun_induction utf8 t with
  | case1 => simp
  | case2 u => exact hencode _
  | case3 u v rest _ c ih =>
    simp only [List.length_cons]
    omega
  | case4 u v rest _ ih =>
    have := hencode u.toNat
    simp only [List.length_append, List.length_cons] at ih ⊢
    omega

theorem utf8_lt (t : Text) : ∀ b ∈ utf8 t, b < 256 := by
  have hencode : ∀ u : UInt16, ∀ b ∈ utf8.encode u.toNat, b < 256 := by
    intro u
    have hu := u.toNat_lt
    unfold utf8.encode
    split
    · simp; omega
    · split
      · simp; omega
      · split
        · simp
        · simp; omega
  fun_induction utf8 t with
  | case1 => simp
  | case2 u => exact hencode u
  | case3 u v rest hpair c ih =>
    simp only [isHighSurrogate, isLowSurrogate, Bool.and_eq_true, decide_eq_true_eq] at hpair
    simp only [List.forall_mem_cons]
    exact ⟨by omega, by omega, by omega, by omega, ih⟩
  | case4 u v rest hpair ih =>
    intro b hb
    rcases List.mem_append.mp hb with hb | hb
    · exact hencode u b hb
    · exact ih b hb

end Wagering
