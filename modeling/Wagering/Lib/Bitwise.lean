import Mathlib.Data.Nat.Bitwise

/-!
# Bitwise operators on numbers

The bitwise operators of ECMAScript.  Each operand is first taken modulo `2 ^ 32`
into a signed word, however large the number was, so a mask of at most 31 bits
still reads the low bits of a number that no longer fits the word.
-/

namespace Bitwise

/-- `ToInt32`. -/
def toInt32 (n : Int) : BitVec 32 := BitVec.ofInt 32 n

/-- `n & m`. -/
def and (n m : Int) : Int := (toInt32 n &&& toInt32 m).toInt

/-- `n | m`. -/
def or (n m : Int) : Int := (toInt32 n ||| toInt32 m).toInt

/-- `n >> k`; the count is taken modulo the width of the word. -/
def shiftRight (n : Int) (k : Nat) : Int := ((toInt32 n).sshiftRight (k % 32)).toInt

theorem toNat_toInt32 (n : Nat) : (toInt32 n).toNat = n % 2 ^ 32 := by
  simp [toInt32]

/-- A word below `2 ^ 31` is read back without a sign. -/
theorem toInt_of_lt {x : BitVec 32} (h : x.toNat < 2 ^ 31) : x.toInt = x.toNat := by
  apply BitVec.toInt_eq_toNat_of_lt
  omega

theorem two_pow_le {k : Nat} (hk : k ≤ 31) : 2 ^ k ≤ 2 ^ 31 :=
  Nat.pow_le_pow_right (by decide) hk

/-- A mask of `k` bits keeps the remainder by `2 ^ k`: the word has lost nothing
that the mask asks for. -/
theorem and_mask {k : Nat} (hk : k ≤ 31) (n : Nat) :
    and n ((2 ^ k - 1 : Nat) : Int) = (n % 2 ^ k : Nat) := by
  have hpow := two_pow_le hk
  have hmask : (2 ^ k - 1) % 2 ^ 32 = 2 ^ k - 1 := Nat.mod_eq_of_lt (by omega)
  have hmod : n % 2 ^ 32 % 2 ^ k = n % 2 ^ k :=
    Nat.mod_mod_of_dvd n (Nat.pow_dvd_pow 2 (by omega))
  have hnat : (toInt32 n &&& toInt32 ((2 ^ k - 1 : Nat) : Int)).toNat = n % 2 ^ k := by
    rw [BitVec.toNat_and, toNat_toInt32, toNat_toInt32, hmask,
      Nat.and_two_pow_sub_one_eq_mod, hmod]
  have hlt : n % 2 ^ k < 2 ^ k := Nat.mod_lt _ (Nat.two_pow_pos k)
  rw [and, toInt_of_lt (by omega), hnat]

/-- Or-ing bits above the first `k` to a number of `k` bits adds them. -/
theorem or_high {k n m : Nat} (hn : n < 2 ^ k) (hm : 2 ^ k * m + n < 2 ^ 31) :
    or n ((2 ^ k * m : Nat) : Int) = (2 ^ k * m + n : Nat) := by
  have hnat : (toInt32 n ||| toInt32 ((2 ^ k * m : Nat) : Int)).toNat = 2 ^ k * m + n := by
    rw [BitVec.toNat_or, toNat_toInt32, toNat_toInt32, Nat.mod_eq_of_lt (by omega),
      Nat.mod_eq_of_lt (by omega), Nat.or_comm, ← Nat.two_pow_add_eq_or_of_lt hn]
  rw [or, toInt_of_lt (by omega), hnat]

/-- Shifting a number below `2 ^ 31` divides it. -/
theorem shiftRight_eq {k n : Nat} (hk : k < 32) (hn : n < 2 ^ 31) :
    shiftRight n k = (n / 2 ^ k : Nat) := by
  have hword : (toInt32 n).toNat = n := by
    rw [toNat_toInt32, Nat.mod_eq_of_lt (by omega)]
  have hmsb : (toInt32 n).msb = false := by
    rw [BitVec.msb_eq_decide, hword]
    simpa using hn
  have hle : n / 2 ^ k ≤ n := Nat.div_le_self n (2 ^ k)
  have hnat : ((toInt32 n).sshiftRight (k % 32)).toNat = n / 2 ^ k := by
    rw [BitVec.sshiftRight_eq_of_msb_false hmsb, BitVec.toNat_ushiftRight, hword,
      Nat.mod_eq_of_lt hk, Nat.shiftRight_eq_div_pow]
  rw [shiftRight, toInt_of_lt (by omega), hnat]

end Bitwise
