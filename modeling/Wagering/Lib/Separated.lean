import Mathlib.Data.List.Basic
import Mathlib.Data.List.Forall2

/-!
# Printed lists

A printer writes a value as tokens.  Two values `Part` in a context when their
texts, each followed by something the context allows, can only be equal if the
values are related and what follows is equal: the text says where it ends.
Elements that part can be joined with a separator and closed by a terminator,
and the joined lists part again.
-/

namespace Separated

variable {τ α : Type}

/-- `s` and `t`, followed by anything that `follows` allows, are equal only
when `P` holds and what follows is the same. -/
def Part (follows : List τ → Prop) (s t : List τ) (P : Prop) : Prop :=
  ∀ r r', follows r → follows r' → s ++ r = t ++ r' → P ∧ r = r'

/-- Tokens that belong to a class are read up to the first that does not. -/
theorem part_span (inside : τ → Bool) {s t : List τ} (hs : ∀ u ∈ s, inside u = true)
    (ht : ∀ u ∈ t, inside u = true) :
    Part (fun r => ∀ u ∈ r.head?, inside u = false) s t (s = t) := by
  intro r r' hr hr' h
  have htake : ∀ {s r : List τ}, (∀ u ∈ s, inside u = true) →
      (∀ u ∈ r.head?, inside u = false) → (s ++ r).takeWhile inside = s := by
    intro s r hs hr
    rw [List.takeWhile_append_of_pos hs]
    cases r with
    | nil => simp
    | cons u r => simp [hr u rfl]
  have hst : s = t := by rw [← htake hs hr, h, htake ht hr']
  subst hst
  exact ⟨rfl, List.append_cancel_left h⟩

/-- The printed elements with a separator in between. -/
def joined (separator : τ) (parts : List (List τ)) : List τ :=
  (parts.intersperse [separator]).flatten

@[simp] theorem joined_nil (separator : τ) : joined separator [] = [] := rfl

@[simp] theorem joined_singleton (separator : τ) (s : List τ) :
    joined separator [s] = s := by
  simp [joined]

@[simp] theorem joined_cons_cons (separator : τ) (s t : List τ) (parts : List (List τ)) :
    joined separator (s :: t :: parts) = s ++ separator :: joined separator (t :: parts) := by
  simp [joined]

/-- With a separator after the last element too, every element is followed by one. -/
theorem joined_concat (separator : τ) {parts : List (List τ)} (h : parts ≠ []) :
    joined separator parts ++ [separator] = parts.flatMap fun s => s ++ [separator] := by
  induction parts with
  | nil => exact absurd rfl h
  | cons s parts ih =>
    cases parts with
    | nil => simp
    | cons t parts =>
      rw [List.flatMap_cons, ← ih (List.cons_ne_nil t parts), joined_cons_cons]
      simp

variable {separator terminator : τ} {print : α → List τ} {follows : List τ → Prop}
  {R : α → α → Prop}

/-- Joined lists part when their elements do, in front of a separator and of the
terminator, and no element begins with the terminator. -/
theorem part_joined {xs ys : List α} (hne : separator ≠ terminator)
    (hsep : ∀ r, follows (separator :: r)) (hterm : ∀ r, follows (terminator :: r))
    (hx : ∀ x ∈ xs, ∃ u s, print x = u :: s ∧ u ≠ terminator)
    (hy : ∀ y ∈ ys, ∃ u s, print y = u :: s ∧ u ≠ terminator)
    (hpart : ∀ x ∈ xs, ∀ y ∈ ys, Part follows (print x) (print y) (R x y)) (r r' : List τ)
    (h : joined separator (xs.map print) ++ terminator :: r =
      joined separator (ys.map print) ++ terminator :: r') :
    List.Forall₂ R xs ys ∧ r = r' := by
  induction xs generalizing ys with
  | nil =>
    cases ys with
    | nil => exact ⟨.nil, by simpa using h⟩
    | cons y ys =>
      obtain ⟨u, s, hu, hterminator⟩ := hy y List.mem_cons_self
      cases ys <;> simp [hu, hterminator.symm] at h
  | cons x xs ih =>
    obtain ⟨u, s, hu, hterminator⟩ := hx x List.mem_cons_self
    cases ys with
    | nil => cases xs <;> simp [hu, hterminator] at h
    | cons y ys =>
      have hhead := hpart x List.mem_cons_self y List.mem_cons_self
      cases xs with
      | nil =>
        cases ys with
        | nil =>
          simp only [List.map_cons, List.map_nil, joined_singleton] at h
          obtain ⟨hR, hrest⟩ := hhead _ _ (hterm r) (hterm r') h
          exact ⟨.cons hR .nil, by simpa using hrest⟩
        | cons y' ys =>
          simp only [List.map_cons, List.map_nil, joined_singleton, joined_cons_cons,
            List.append_assoc, List.cons_append] at h
          obtain ⟨-, hrest⟩ := hhead _ _ (hterm _) (hsep _) h
          exact absurd (List.cons.inj hrest).1.symm hne
      | cons x' xs =>
        cases ys with
        | nil =>
          simp only [List.map_cons, List.map_nil, joined_singleton, joined_cons_cons,
            List.append_assoc, List.cons_append] at h
          obtain ⟨-, hrest⟩ := hhead _ _ (hsep _) (hterm _) h
          exact absurd (List.cons.inj hrest).1 hne
        | cons y' ys =>
          simp only [List.map_cons, joined_cons_cons, List.append_assoc,
            List.cons_append] at h
          obtain ⟨hR, hrest⟩ := hhead _ _ (hsep _) (hsep _) h
          obtain ⟨htail, hr⟩ := @ih (y' :: ys)
            (fun z hz => hx z (List.mem_cons_of_mem _ hz))
            (fun z hz => hy z (List.mem_cons_of_mem _ hz))
            (fun z hz w hw =>
              hpart z (List.mem_cons_of_mem _ hz) w (List.mem_cons_of_mem _ hw))
            (List.cons.inj hrest).2
          exact ⟨.cons hR htail, hr⟩

end Separated
