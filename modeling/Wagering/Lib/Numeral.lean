import Mathlib.Data.Nat.Digits.Lemmas

/-!
# Numerals of a fixed width

Digits written from the highest place to the lowest.  Numerals of one width are
ordered as the numbers that they denote, and a digit in a square base may be
written as two digits of the base.
-/

namespace Numeral

variable {b : Nat} {xs ys : List Nat}

/-- The number that digits denote, the highest place first. -/
def value (b : Nat) (ds : List Nat) : Nat := Nat.ofDigits b ds.reverse

/-- The last `k` places of a number. -/
def places (b k n : Nat) : List Nat :=
  (List.range k).map fun i => n / b ^ (k - 1 - i) % b

@[simp] theorem value_nil : value b [] = 0 := rfl

theorem value_cons (d : Nat) : value b (d :: xs) = b ^ xs.length * d + value b xs := by
  rw [value, Nat.ofDigits_reverse_cons, value, Nat.add_comm]

theorem value_append : value b (xs ++ ys) = b ^ ys.length * value b xs + value b ys := by
  rw [value, List.reverse_append, Nat.ofDigits_append, List.length_reverse, value, value,
    Nat.add_comm]

theorem value_lt (h : ∀ d ∈ xs, d < b) : value b xs < b ^ xs.length := by
  induction xs with
  | nil => simp
  | cons d xs ih =>
    rcases List.forall_mem_cons.mp h with ⟨hd, hxs⟩
    have hlt := ih hxs
    rw [value_cons, List.length_cons, pow_succ]
    calc b ^ xs.length * d + value b xs
        < b ^ xs.length * d + b ^ xs.length := Nat.add_lt_add_left hlt _
      _ = b ^ xs.length * (d + 1) := (Nat.mul_succ _ _).symm
      _ ≤ b ^ xs.length * b := Nat.mul_le_mul_left _ hd

/-- The first place in which two numerals differ decides their order. -/
theorem value_cons_le_iff {x y : Nat} (hlength : xs.length = ys.length)
    (hx : ∀ d ∈ xs, d < b) (hy : ∀ d ∈ ys, d < b) :
    value b (x :: xs) ≤ value b (y :: ys) ↔ x < y ∨ x = y ∧ value b xs ≤ value b ys := by
  have hxs := value_lt hx
  have hys := value_lt hy
  rw [value_cons, value_cons, hlength]
  rw [hlength] at hxs
  rcases Nat.lt_trichotomy x y with h | rfl | h
  · have hmul : b ^ ys.length * (x + 1) ≤ b ^ ys.length * y := Nat.mul_le_mul_left _ h
    rw [Nat.mul_succ] at hmul
    exact iff_of_true (by omega) (.inl h)
  · simp
  · have hmul : b ^ ys.length * (y + 1) ≤ b ^ ys.length * x := Nat.mul_le_mul_left _ h
    rw [Nat.mul_succ] at hmul
    exact iff_of_false (by omega) (by omega)

/-! ## Places -/

@[simp] theorem length_places (b k n : Nat) : (places b k n).length = k := by
  simp [places]

theorem places_succ (b k n : Nat) : places b (k + 1) n = n / b ^ k % b :: places b k n := by
  rw [places, List.range_succ_eq_map, List.map_cons, List.map_map, places]
  congr 1
  apply List.map_congr_left
  intro i _
  simp only [Function.comp_apply]
  rw [show k + 1 - 1 - i.succ = k - 1 - i by omega]

theorem lt_of_mem_places (hb : 0 < b) {k n d : Nat} (h : d ∈ places b k n) : d < b := by
  rcases List.mem_map.mp h with ⟨i, -, rfl⟩
  exact Nat.mod_lt _ hb

/-- The places of a number denote what they can hold of it. -/
theorem value_places (b k n : Nat) : value b (places b k n) = n % b ^ k := by
  induction k with
  | zero => simp [places, Nat.mod_one]
  | succ k ih => rw [places_succ, value_cons, length_places, ih, Nat.mod_pow_succ, Nat.add_comm]

/-! ## Loops -/

/-- Storing `f i` at every place `i < k` replaces the first `k` places. -/
theorem foldl_set_range {α : Type} (f : Nat → α) {k : Nat} (ds : List α) (hk : k ≤ ds.length) :
    (List.range k).foldl (fun ds i => ds.set i (f i)) ds = (List.range k).map f ++ ds.drop k := by
  induction k with
  | zero => simp
  | succ k ih =>
    have hdrop : ds.drop k = ds[k] :: ds.drop (k + 1) := List.drop_eq_getElem_cons hk
    have hlength : ((List.range k).map f).length = k := by simp
    rw [List.range_succ, List.foldl_append, ih (by omega), hdrop, List.foldl_cons, List.foldl_nil,
      List.set_append_right _ _ hlength.le, hlength, Nat.sub_self, List.set_cons_zero]
    simp

/-! ## Two digits for one -/

/-- A digit of base `b * b` as two digits of base `b`. -/
def halves (b : Nat) (ds : List Nat) : List Nat := ds.flatMap fun d => [d / b, d % b]

theorem length_halves (b : Nat) (ds : List Nat) : (halves b ds).length = 2 * ds.length := by
  induction ds with
  | nil => rfl
  | cons d ds ih =>
    rw [halves, List.flatMap_cons, List.length_append, ← halves, ih, List.length_cons]
    simp only [List.length_cons, List.length_nil]
    omega

theorem lt_of_mem_halves (hb : 0 < b) (h : ∀ d ∈ xs, d < b * b) : ∀ d ∈ halves b xs, d < b := by
  intro d hd
  rcases List.mem_flatMap.mp hd with ⟨e, he, hd⟩
  rcases List.mem_cons.mp hd with rfl | hd
  · exact Nat.div_lt_of_lt_mul (h e he)
  · rw [List.mem_singleton.mp hd]
    exact Nat.mod_lt _ hb

theorem halves_append (b : Nat) (xs ys : List Nat) :
    halves b (xs ++ ys) = halves b xs ++ halves b ys := List.flatMap_append

theorem value_halves (b : Nat) (ds : List Nat) : value b (halves b ds) = value (b * b) ds := by
  induction ds with
  | nil => rfl
  | cons d ds ih =>
    have hcons : halves b (d :: ds) = d / b :: d % b :: halves b ds := rfl
    have hpow : b ^ (2 * ds.length) = (b * b) ^ ds.length := by rw [pow_mul, sq]
    have hd : b * (d / b) + d % b = d := Nat.div_add_mod d b
    calc value b (halves b (d :: ds))
        = b ^ (2 * ds.length) * (b * (d / b) + d % b) + value b (halves b ds) := by
          rw [hcons, value_cons, value_cons, List.length_cons, length_halves, pow_succ]
          ring
      _ = value (b * b) (d :: ds) := by rw [hd, hpow, ih, value_cons]

end Numeral
