import Mathlib.Data.List.Basic
import Mathlib.Data.List.Nodup
import Mathlib.Data.List.Pairwise

/-!
# Tables

A table is a list of rows with a key that no two rows share.  `lookup` finds
the row of a key, `adjust` rewrites it in place, and `least` picks the first
row under an order.
-/

namespace Keyed

variable {α κ : Type} {key : α → κ} {k : κ} {f : α → α} {xs ys : List α} {x y : α}

/-- No two rows share a key. -/
def Distinct (key : α → κ) (xs : List α) : Prop := (xs.map key).Nodup

instance [DecidableEq κ] : Decidable (Distinct key xs) :=
  inferInstanceAs (Decidable (xs.map key).Nodup)

theorem Distinct.eq_of_key (h : Distinct key xs) (hx : x ∈ xs) (hy : y ∈ xs)
    (hk : key x = key y) : x = y :=
  List.inj_on_of_nodup_map h hx hy hk

theorem Distinct.nil : Distinct key ([] : List α) := List.nodup_nil

theorem distinct_append :
    Distinct key (xs ++ ys) ↔
      Distinct key xs ∧ Distinct key ys ∧ ∀ x ∈ xs, ∀ y ∈ ys, key x ≠ key y := by
  simp only [Distinct, List.map_append, List.nodup_append, List.mem_map, forall_exists_index,
    and_imp, forall_apply_eq_imp_iff₂]

theorem Distinct.concat (h : Distinct key xs) (hx : ∀ y ∈ xs, key y ≠ key x) :
    Distinct key (xs ++ [x]) :=
  distinct_append.mpr ⟨h, by simp [Distinct], by simpa using hx⟩

/-- Where no key is held twice, a key that two rows hold makes them one. -/
theorem eq_of_mem_keys {keys : α → List κ} (h : (xs.flatMap keys).Nodup) (hx : x ∈ xs)
    (hy : y ∈ xs) (hkx : k ∈ keys x) (hky : k ∈ keys y) : x = y := by
  by_contra hne
  have hapart := (List.nodup_flatMap.mp h).2
  have : Std.Symm (Function.onFun List.Disjoint keys) := ⟨fun _ _ hd _ ha hb => hd hb ha⟩
  exact hapart.forall hx hy hne hkx hky

variable [DecidableEq κ]

/-- The row whose key is `k`. -/
def lookup (key : α → κ) (k : κ) (xs : List α) : Option α :=
  xs.find? fun x => key x = k

/-- Rewrite the rows whose key is `k`. -/
def adjust (key : α → κ) (k : κ) (f : α → α) (xs : List α) : List α :=
  xs.map fun x => if key x = k then f x else x

/-- The first row in the order `le`, the earliest of them in the list. -/
def least (le : α → α → Bool) : List α → Option α
  | [] => none
  | x :: xs =>
    match least le xs with
    | none => some x
    | some y => if le x y then some x else some y

/-! ## Lookup -/

theorem mem_of_lookup (h : lookup key k xs = some x) : x ∈ xs :=
  List.mem_of_find?_eq_some h

theorem key_of_lookup (h : lookup key k xs = some x) : key x = k := by
  simpa using List.find?_some h

theorem lookup_eq_none : lookup key k xs = none ↔ ∀ x ∈ xs, key x ≠ k := by
  simp [lookup]

theorem Distinct.lookup (h : Distinct key xs) (hx : x ∈ xs) :
    Keyed.lookup key (key x) xs = some x := by
  cases hl : Keyed.lookup key (key x) xs with
  | none => exact absurd rfl (lookup_eq_none.mp hl x hx)
  | some y => rw [h.eq_of_key (mem_of_lookup hl) hx (key_of_lookup hl)]

theorem Distinct.lookup_eq_some (h : Distinct key xs) :
    Keyed.lookup key k xs = some x ↔ x ∈ xs ∧ key x = k := by
  constructor
  · exact fun hl => ⟨mem_of_lookup hl, key_of_lookup hl⟩
  · rintro ⟨hx, rfl⟩
    exact h.lookup hx

theorem lookup_append :
    lookup key k (xs ++ ys) = (lookup key k xs).or (lookup key k ys) := by
  simp [lookup, List.find?_append]

/-! ## Adjusting one row -/

theorem map_key_adjust (hf : ∀ x, key (f x) = key x) :
    (adjust key k f xs).map key = xs.map key := by
  simp only [adjust, List.map_map]
  refine List.map_congr_left fun x _ => ?_
  simp only [Function.comp_apply]
  split <;> simp [hf]

theorem Distinct.adjust (h : Distinct key xs) (hf : ∀ x, key (f x) = key x) :
    Distinct key (adjust key k f xs) := by
  rw [Distinct, map_key_adjust hf]
  exact h

theorem mem_adjust :
    y ∈ adjust key k f xs ↔ (∃ x ∈ xs, key x = k ∧ y = f x) ∨ (y ∈ xs ∧ key y ≠ k) := by
  simp only [adjust, List.mem_map]
  constructor
  · rintro ⟨x, hx, rfl⟩
    split
    · exact .inl ⟨x, hx, ‹_›, rfl⟩
    · exact .inr ⟨hx, ‹_›⟩
  · rintro (⟨x, hx, hk, rfl⟩ | ⟨hy, hk⟩)
    · exact ⟨x, hx, by simp [hk]⟩
    · exact ⟨y, hy, by simp [hk]⟩

theorem adjust_of_absent (h : ∀ x ∈ xs, key x ≠ k) : adjust key k f xs = xs := by
  simp only [adjust]
  exact (List.map_congr_left fun x hx => by rw [if_neg (h x hx), id]).trans (List.map_id _)

theorem adjust_append : adjust key k f (xs ++ ys) = adjust key k f xs ++ adjust key k f ys := by
  simp [adjust]

/-! ## Putting a row -/

/-- Put `x` in the place of the row that has its key, or at the end. -/
def put (key : α → κ) (x : α) (xs : List α) : List α :=
  if ∀ y ∈ xs, key y ≠ key x then xs ++ [x] else adjust key (key x) (fun _ => x) xs

theorem mem_put : y ∈ put key x xs ↔ y = x ∨ (y ∈ xs ∧ key y ≠ key x) := by
  unfold put
  split
  · rename_i h
    rw [List.mem_append, List.mem_singleton]
    constructor
    · rintro (hy | rfl)
      · exact .inr ⟨hy, h y hy⟩
      · exact .inl rfl
    · rintro (rfl | ⟨hy, -⟩)
      · exact .inr rfl
      · exact .inl hy
  · rename_i h
    rw [mem_adjust]
    constructor
    · rintro (⟨z, -, -, rfl⟩ | hy)
      · exact .inl rfl
      · exact .inr hy
    · rintro (rfl | hy)
      · simp only [ne_eq, not_forall, Decidable.not_not] at h
        obtain ⟨z, hz, hk⟩ := h
        exact .inl ⟨z, hz, hk, rfl⟩
      · exact .inr hy

theorem put_of_absent (h : ∀ y ∈ xs, key y ≠ key x) : put key x xs = xs ++ [x] := if_pos h

theorem put_of_mem (hy : y ∈ xs) (hk : key y = key x) :
    put key x xs = adjust key (key x) (fun _ => x) xs :=
  if_neg fun h => h y hy hk

/-- Rewriting the row that was added last. -/
theorem adjust_concat (h : ∀ y ∈ xs, key y ≠ key x) (hy : key y = key x) :
    adjust key (key x) f (xs ++ [y]) = xs ++ [f y] := by
  rw [adjust_append, adjust_of_absent h]
  simp [adjust, hy]

theorem put_concat (h : ∀ y ∈ xs, key y ≠ key x) (hy : key y = key x) :
    put key x (xs ++ [y]) = xs ++ [x] := by
  rw [put_of_mem (List.mem_append_right _ (List.mem_singleton.mpr rfl)) hy, adjust_concat h hy]

theorem Distinct.put (h : Distinct key xs) : Distinct key (put key x xs) := by
  by_cases hx : ∀ y ∈ xs, key y ≠ key x
  · rw [put_of_absent hx]
    exact h.concat hx
  · simp only [ne_eq, not_forall, Decidable.not_not] at hx
    obtain ⟨y, hy, hk⟩ := hx
    rw [put_of_mem hy hk, Distinct]
    have : (Keyed.adjust key (key x) (fun _ => x) xs).map key = xs.map key := by
      simp only [Keyed.adjust, List.map_map]
      refine List.map_congr_left fun z _ => ?_
      simp only [Function.comp_apply]
      split
      · exact (‹key z = key x›).symm
      · rfl
    rw [this]
    exact h

/-- A rewritten row is what `put` puts there. -/
theorem adjust_eq_put (h : Distinct key xs) (hy : y ∈ xs) (hf : key (f y) = key y) :
    adjust key (key y) f xs = put key (f y) xs := by
  rw [put_of_mem hy hf.symm, hf]
  refine List.map_congr_left fun z hz => ?_
  by_cases hk : key z = key y
  · simp only [hk, if_true]
    rw [h.eq_of_key hz hy hk]
  · simp only [hk, if_false]

theorem lookup_put_self (h : Distinct key xs) : lookup key (key x) (put key x xs) = some x :=
  (h.put).lookup_eq_some.mpr ⟨mem_put.mpr (.inl rfl), rfl⟩

theorem lookup_put_other (h : Distinct key xs) (hk : k ≠ key x) :
    lookup key k (put key x xs) = lookup key k xs := by
  ext y
  rw [h.put.lookup_eq_some, h.lookup_eq_some, mem_put]
  constructor
  · rintro ⟨rfl | ⟨hy, -⟩, hky⟩
    · exact absurd hky.symm hk
    · exact ⟨hy, hky⟩
  · rintro ⟨hy, rfl⟩
    exact ⟨.inr ⟨hy, hk⟩, rfl⟩

/-! ## The least row -/

theorem least_mem {le : α → α → Bool} (h : least le xs = some x) : x ∈ xs := by
  induction xs generalizing x with
  | nil => cases h
  | cons y ys ih =>
    simp only [least] at h
    split at h
    · cases h
      exact List.mem_cons_self
    · rename_i z hz
      split at h
      · cases h
        exact List.mem_cons_self
      · cases h
        exact List.mem_cons_of_mem _ (ih hz)

theorem least_le {le : α → α → Bool} (total : ∀ a b, le a b = true ∨ le b a = true)
    (trans : ∀ a b c, le a b = true → le b c = true → le a c = true)
    (h : least le xs = some x) : ∀ y ∈ xs, le x y = true := by
  induction xs generalizing x with
  | nil => cases h
  | cons z zs ih =>
    have refl : ∀ a, le a a = true := fun a => (total a a).elim id id
    simp only [least] at h
    intro y hy
    split at h
    · rename_i hnone
      cases h
      rcases List.mem_cons.mp hy with rfl | hy
      · exact refl _
      · cases zs with
        | nil => cases hy
        | cons a as =>
          simp only [least] at hnone
          split at hnone
          · cases hnone
          · split at hnone <;> cases hnone
    · rename_i m hm
      split at h
      · rename_i hle
        cases h
        rcases List.mem_cons.mp hy with rfl | hy
        · exact refl _
        · exact trans _ _ _ hle (ih hm y hy)
      · rename_i hle
        cases h
        rcases List.mem_cons.mp hy with rfl | hy
        · exact (total y x).resolve_left hle
        · exact ih hm y hy

theorem least_eq_none {le : α → α → Bool} : least le xs = none ↔ xs = [] := by
  cases xs with
  | nil => simp [least]
  | cons x xs =>
    simp only [least, reduceCtorEq, iff_false]
    split
    · simp
    · split <;> simp

end Keyed
