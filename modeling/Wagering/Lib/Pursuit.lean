import Mathlib.Data.Fintype.Basic
import Mathlib.Data.Finset.Card
import Mathlib.Data.Finset.SDiff

/-!
# Following a link in a finite graph

Every object has at most one link to another one.  A pursuit follows the links
from an object until it has picked something, the links end, or it comes to an
object that it has seen.  It looks at every object of the chain, so it misses
nothing that the chain has (`pursue_eq_none_iff`), cycles included.
-/

namespace Pursuit

/-- The loop, with the objects that it has seen; each round sees one more. -/
def pursue {ι τ : Type} [Fintype ι] [DecidableEq ι] (link : ι → Option ι) (pick : ι → Option τ)
    (seen : Finset ι) : Option ι → Option τ
  | none => none
  | some i =>
    if i ∈ seen then none
    else match pick i with
      | some picked => some picked
      | none => pursue link pick (insert i seen) (link i)
termination_by (Finset.univ \ seen).card
decreasing_by
  rw [Finset.sdiff_insert]
  exact Finset.card_erase_lt_of_mem (Finset.mem_sdiff.mpr ⟨Finset.mem_univ i, ‹i ∉ seen›⟩)

/-- The objects of the chain that starts at `current`. -/
inductive OnChain {ι : Type} (link : ι → Option ι) : Option ι → ι → Prop
  | here {i : ι} : OnChain link (some i) i
  | linked {i j : ι} (rest : OnChain link (link i) j) : OnChain link (some i) j

variable {ι τ : Type} [Fintype ι] [DecidableEq ι] {link : ι → Option ι} {pick : ι → Option τ}
  {seen : Finset ι}
  {current : Option ι} {i : ι}

omit [Fintype ι] [DecidableEq ι] in
/-- A set that the links do not leave holds every chain that starts in it. -/
theorem OnChain.mem {all : Finset ι} (h : OnChain link current i)
    (hcurrent : ∀ j ∈ current, j ∈ all) (hclosed : ∀ j ∈ all, ∀ k ∈ link j, k ∈ all) :
    i ∈ all := by
  induction h with
  | here => exact hcurrent _ rfl
  | @linked j k rest ih => exact ih (hclosed j (hcurrent j rfl))

/-- What was picked is an object's of the chain. -/
theorem onChain_of_pursue {picked : τ} (h : pursue link pick seen current = some picked) :
    ∃ i, OnChain link current i ∧ pick i = some picked := by
  fun_induction pursue link pick seen current with
  | case1 seen => cases h
  | case2 seen i hi => cases h
  | case3 seen i hi picked' hpick =>
    cases h
    exact ⟨i, .here, hpick⟩
  | case4 seen i hi hpick ih =>
    obtain ⟨j, hj, hpicked⟩ := ih h
    exact ⟨j, .linked hj, hpicked⟩

/-- A pursuit that ends with nothing has seen every object that the links lead to
from what it had seen before. -/
theorem pick_eq_none_of_pursue (h : pursue link pick seen current = none)
    (hseen : ∀ j ∈ seen, pick j = none)
    (hlink : ∀ j ∈ seen, ∀ k ∈ link j, k ∈ seen ∨ current = some k)
    (hi : OnChain link current i) : pick i = none := by
  fun_induction pursue link pick seen current generalizing i with
  | case1 seen => cases hi
  | case2 seen j hj =>
    refine hseen i (hi.mem (fun k hk => Option.some.inj hk ▸ hj) fun k hk k' hk' => ?_)
    rcases hlink k hk k' hk' with hmem | heq
    · exact hmem
    · exact Option.some.inj heq ▸ hj
  | case3 seen j hj picked hpick => cases h
  | case4 seen j hj hpick ih =>
    have hrest : ∀ {i : ι}, OnChain link (link j) i → pick i = none := by
      refine fun hchain => ih h (fun k hk => ?_) (fun k hk k' hk' => ?_) hchain
      · rcases Finset.mem_insert.mp hk with rfl | hk
        · exact hpick
        · exact hseen k hk
      · rcases Finset.mem_insert.mp hk with rfl | hk
        · exact .inr hk'
        · rcases hlink k hk k' hk' with hmem | heq
          · exact .inl (Finset.mem_insert_of_mem hmem)
          · exact .inl (Option.some.inj heq ▸ Finset.mem_insert_self _ _)
    cases hi with
    | here => exact hpick
    | linked rest => exact hrest rest

/-- A pursuit ends with nothing when no object of the chain has anything. -/
theorem pursue_eq_none_iff :
    pursue link pick ∅ current = none ↔ ∀ i, OnChain link current i → pick i = none := by
  constructor
  · intro h i hi
    exact pick_eq_none_of_pursue h (fun j hj => absurd hj (Finset.notMem_empty j))
      (fun j hj => absurd hj (Finset.notMem_empty j)) hi
  · intro h
    cases hp : pursue link pick ∅ current with
    | none => rfl
    | some picked =>
      obtain ⟨i, hi, hpick⟩ := onChain_of_pursue hp
      rw [h i hi] at hpick
      cases hpick

theorem pursue_isSome_iff :
    (pursue link pick ∅ current).isSome = true ↔
      ∃ i, OnChain link current i ∧ (pick i).isSome = true := by
  rw [← not_iff_not, Bool.not_eq_true, Option.isSome_eq_false_iff, Option.isNone_iff_eq_none,
    pursue_eq_none_iff]
  simp

/-- A pursuit that only ever picks `true` is a test. -/
theorem pursue_getD {test : ι → Option Bool} (h : ∀ i b, test i = some b → b = true) :
    (pursue link test ∅ current).getD false = (pursue link test ∅ current).isSome := by
  cases hp : pursue link test ∅ current with
  | none => rfl
  | some b =>
    obtain ⟨i, -, hi⟩ := onChain_of_pursue hp
    exact h i b hi

end Pursuit
