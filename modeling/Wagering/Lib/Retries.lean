import Mathlib.Algebra.BigOperators.Group.Finset.Basic
import Mathlib.Algebra.Order.BigOperators.Group.Finset
import Mathlib.Data.Int.Order.Basic

/-!
# Retries before a deadline

A job that is put off again and again: each time by a delay that has a least
value of its own, and only before a deadline.  The least delays add up, so the
deadline bounds the number of retries, whatever the delays were.
-/

namespace Retries

/-- The earliest time, from the start on, at which a job that has been put off
`attempts` times can be due. -/
def earliest (first : Int) (least : Nat → Int) (attempts : Nat) : Int :=
  first + ∑ i ∈ Finset.range attempts, least i

/-- A job that was due `first` after `start`, has been put off `attempts` times,
and is due at `due`. -/
structure OnSchedule (first : Int) (least : Nat → Int) (start deadline : Int) (attempts : Nat)
    (due : Int) : Prop where
  due : start + earliest first least attempts ≤ due
  tried : ∀ n, attempts = n + 1 → start + earliest first least n < deadline

variable {first start deadline due : Int} {least : Nat → Int} {attempts : Nat}

@[simp] theorem earliest_zero (first : Int) (least : Nat → Int) :
    earliest first least 0 = first := by
  simp [earliest]

theorem earliest_succ (first : Int) (least : Nat → Int) (attempts : Nat) :
    earliest first least (attempts + 1) = earliest first least attempts + least attempts := by
  rw [earliest, Finset.sum_range_succ, earliest, add_assoc]

theorem earliest_mono (hleast : ∀ i, 0 ≤ least i) {m n : Nat} (h : m ≤ n) :
    earliest first least m ≤ earliest first least n := by
  induction n, h using Nat.le_induction with
  | base => exact le_refl _
  | succ n _ ih =>
    rw [earliest_succ]
    have := hleast n
    omega

theorem OnSchedule.initial (first : Int) (least : Nat → Int) (start deadline : Int) :
    OnSchedule first least start deadline 0 (start + first) where
  due := by rw [earliest_zero]
  tried := fun _ h => by cases h

/-- A retry before the deadline keeps the schedule. -/
theorem OnSchedule.putOff (h : OnSchedule first least start deadline attempts due) {now due' : Int}
    (hdue : due ≤ now) (hnow : now < deadline) (hdelay : now + least attempts ≤ due') :
    OnSchedule first least start deadline (attempts + 1) due' where
  due := by
    have := h.due
    rw [earliest_succ]
    omega
  tried := fun n hn => by
    cases hn
    have := h.due
    omega

/-- As soon as the least delays reach the deadline there is no further retry. -/
theorem OnSchedule.attempts_le (h : OnSchedule first least start deadline attempts due)
    (hleast : ∀ i, 0 ≤ least i) {most : Nat}
    (hmost : deadline ≤ start + earliest first least most) : attempts ≤ most := by
  cases attempts with
  | zero => exact Nat.zero_le _
  | succ n =>
    by_contra hmore
    have hbefore := h.tried n rfl
    have hgrows : earliest first least most ≤ earliest first least n :=
      earliest_mono hleast (by omega)
    omega

end Retries
