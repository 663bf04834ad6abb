import Mathlib.Data.Fin.VecNotation
import Wagering.Persistence.PostgresErrors

/-!
# Failure classification

Whatever errors there are and however they refer to each other, the verdict on
an error is that of the objects on its chain of causes: it is transient exactly
when one of them is, so wrapping keeps the verdict, and a lock conflict is
always transient.
-/

namespace Wagering

open Pursuit

variable {ι : Type} [Fintype ι] [DecidableEq ι] {heap : ι → ErrorObject ι}
  {error : ErrorValue ι}

/-- An object of the chain that starts at a value. -/
abbrev Causes (heap : ι → ErrorObject ι) (error : ErrorValue ι) (i : ι) : Prop :=
  OnChain (causeOf heap) error.object? i

theorem findInCauseChain_isSome {τ : Type} {pick : Text → Option τ} :
    (findInCauseChain heap error pick).isSome = true ↔
      ∃ i, Causes heap error i ∧ ∃ state, FirstState (heap i) state ∧
        (pick state).isSome = true := by
  simp only [findInCauseChain, pursue_isSome_iff, Option.isSome_bind, Option.any_eq_true,
    sqlStateOf_eq_some]

theorem isTransientConnectionLoss_iff : isTransientConnectionLoss heap error = true ↔
    ∃ i, Causes heap error i ∧ losesConnection (heap i) = true := by
  have htest : ∀ i b, (if losesConnection (heap i) then some true else none) = some b →
      b = true := by
    intro i b h
    split at h
    · exact (Option.some.inj h).symm
    · cases h
  rw [isTransientConnectionLoss, pursue_getD htest, pursue_isSome_iff]
  refine exists_congr fun i => and_congr_right fun _ => ?_
  split <;> simp [*]

/-- The walk for an SQLSTATE finds any object of the chain that has a transient one. -/
theorem transientState_iff :
    (findInCauseChain heap error fun state =>
      if transientSqlStates.contains state || transientConnectionStates.contains state then
        some true
      else none).getD false = true ↔
    ∃ i, Causes heap error i ∧ ∃ state, FirstState (heap i) state ∧
      (state ∈ transientSqlStates ∨ state ∈ transientConnectionStates) := by
  have htest : ∀ i b, ((sqlStateOf (heap i)).bind fun state =>
      if transientSqlStates.contains state || transientConnectionStates.contains state then
        some true
      else none) = some b → b = true := by
    intro i b h
    obtain ⟨state, -, h⟩ := Option.bind_eq_some_iff.mp h
    split at h
    · exact (Option.some.inj h).symm
    · cases h
  rw [findInCauseChain, pursue_getD htest, ← findInCauseChain, findInCauseChain_isSome]
  refine exists_congr fun i => and_congr_right fun _ => exists_congr fun state =>
    and_congr_right fun _ => ?_
  split <;> simp_all

omit [Fintype ι] [DecidableEq ι] in
/-- What one object tells is what one of the two walks looks for. -/
theorem transient_iff {o : ErrorObject ι} : Transient o ↔
    (∃ state, FirstState o state ∧
      (state ∈ transientSqlStates ∨ state ∈ transientConnectionStates)) ∨
      losesConnection o = true := by
  rw [losesConnection_iff]
  constructor
  · rintro (⟨first, mem⟩ | ⟨has, mem⟩ | ⟨has, mem, found⟩)
    · exact .inl ⟨_, first, mem⟩
    · exact .inr (.inl ⟨_, has, mem⟩)
    · exact .inr (.inr ⟨_, has, _, mem, found⟩)
  · rintro (⟨_, first, mem⟩ | ⟨_, has, mem⟩ | ⟨_, has, _, mem, found⟩)
    · exact .state first mem
    · exact .socket has mem
    · exact .message has mem found

/-- The two walks together find any transient object of the chain. -/
theorem isTransientDatabaseFailure_iff : isTransientDatabaseFailure heap error = true ↔
    ∃ i, Causes heap error i ∧ Transient (heap i) := by
  rw [isTransientDatabaseFailure, Bool.or_eq_true, transientState_iff,
    isTransientConnectionLoss_iff, ← exists_or]
  simp only [← and_or_left, transient_iff]

omit [Fintype ι] [DecidableEq ι] in
/-- The causes of an error are causes of every object that wraps it. -/
theorem Causes.wrap {wrapper i : ι} (h : (heap wrapper).link = error)
    (hi : Causes heap error i) : Causes heap (.object wrapper) i := by
  refine OnChain.linked ?_
  rw [causeOf, h]
  exact hi

/-- The classification walks every chain of causes: its verdict is that of the
objects on the chain, it survives wrapping, and lock conflicts are transient. -/
theorem isTransientDatabaseFailure_walks (heap : ι → ErrorObject ι) (error : ErrorValue ι) :
    (isTransientDatabaseFailure heap error = true ↔
      ∃ i, Causes heap error i ∧ Transient (heap i)) ∧
    (∀ wrapper : ι, (heap wrapper).link = error → isTransientDatabaseFailure heap error = true →
      isTransientDatabaseFailure heap (.object wrapper) = true) ∧
    ((lockConflictReason heap error).isSome = true →
      isTransientDatabaseFailure heap error = true) := by
  refine ⟨isTransientDatabaseFailure_iff, fun wrapper hlink h => ?wrapped, fun h => ?lock⟩
  case wrapped =>
    obtain ⟨i, hi, htransient⟩ := isTransientDatabaseFailure_iff.mp h
    exact isTransientDatabaseFailure_iff.mpr ⟨i, hi.wrap hlink, htransient⟩
  case lock =>
    obtain ⟨i, hi, state, first, hreason⟩ := findInCauseChain_isSome.mp h
    exact isTransientDatabaseFailure_iff.mpr
      ⟨i, hi, .state first (.inl (lockConflictReasons_transient hreason))⟩

/-! ## A chain that comes back to itself -/

/-- A deadlock, wrapped twice; the driver's error names the outer wrapper as its cause. -/
def sampleHeap : Fin 3 → ErrorObject (Fin 3) :=
  ![⟨.undefined, .undefined, .undefined, .text (utf16 "query failed"), .object 1, .object 0⟩,
    ⟨.text (utf16 "23505"), .undefined, .undefined, .undefined, .null, .object 2⟩,
    ⟨.text (utf16 "E"), .text (utf16 "40P01"), .undefined, .undefined, .object 0, .null⟩]

theorem sampleHeap_transient :
    isTransientDatabaseFailure sampleHeap (.object 0) = true ∧
      isTransientDatabaseFailure sampleHeap (.object 2) = true := by
  have hwalks := isTransientDatabaseFailure_walks sampleHeap
  have hdriver : isTransientDatabaseFailure sampleHeap (.object 2) = true :=
    (hwalks (.object 2)).1.mpr ⟨2, .here, .state
      (.errno (by rintro s ⟨⟨⟩, h⟩; exact absurd h (by decide)) ⟨rfl, by decide⟩) (by decide)⟩
  have hinner : isTransientDatabaseFailure sampleHeap (.object 1) = true :=
    (hwalks (.object 2)).2.1 1 rfl hdriver
  exact ⟨(hwalks (.object 1)).2.1 0 rfl hinner, hdriver⟩

end Wagering
