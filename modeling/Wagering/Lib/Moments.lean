import Mathlib.Logic.Relation

/-!
# One moment for several readings

Whoever reads a state bit by bit while others change it learns facts of different
moments.  Where every fact but the latest one lasts, all of them hold together
at the moment of the latest reading; a fact that does not last is forgotten with
the next one.
-/

namespace Moments

open Relation

variable {α φ : Type} {step : α → α → Prop} {holds : α → φ → Prop} {lasts : φ → Bool}
  {within : α → Prop} {facts : List φ} {a b : α} {f : φ}

/-- The facts held together at one moment up to now, and those that last hold still. -/
structure Gathered (step : α → α → Prop) (holds : α → φ → Prop) (lasts : φ → Bool)
    (within : α → Prop) (facts : List φ) (a : α) : Prop where
  moment : ∃ m, within m ∧ ReflTransGen step m a ∧ ∀ f ∈ facts, holds m f
  lasting : ∀ f ∈ facts, lasts f = true → holds a f

theorem Gathered.nothing (h : within a) : Gathered step holds lasts within [] a where
  moment := ⟨a, h, .refl, fun _ hf => (List.not_mem_nil hf).elim⟩
  lasting := fun _ hf => (List.not_mem_nil hf).elim

/-- A step that leaves the lasting facts alone. -/
theorem Gathered.move (h : Gathered step holds lasts within facts a) (hstep : step a b)
    (hkept : ∀ f ∈ facts, lasts f = true → holds a f → holds b f) :
    Gathered step holds lasts within facts b := by
  obtain ⟨m, hm, hsteps, hfacts⟩ := h.moment
  exact ⟨⟨m, hm, hsteps.tail hstep, hfacts⟩,
    fun f hf hlasts => hkept f hf hlasts (h.lasting f hf hlasts)⟩

/-- A new reading, with what still holds of the earlier ones. -/
theorem Gathered.read (h : Gathered step holds lasts within facts a) (ha : within a)
    (hf : holds a f) : Gathered step holds lasts within (f :: facts.filter lasts) a := by
  have hall : ∀ g ∈ f :: facts.filter lasts, holds a g := by
    intro g hg
    rcases List.mem_cons.mp hg with rfl | hg
    · exact hf
    · obtain ⟨hmem, hlasts⟩ := List.mem_filter.mp hg
      exact h.lasting g hmem hlasts
  exact ⟨⟨a, ha, .refl, hall⟩, fun g hg _ => hall g hg⟩

end Moments
