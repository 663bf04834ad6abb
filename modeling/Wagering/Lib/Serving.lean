import Mathlib.Algebra.Order.Ring.Rat
import Wagering.Lib.Trace

/-!
# A program at a service

A service answers every call from a state of its own and leaves another state.
A program that runs at a service ends with a result and with the state that its
last call left.
-/

namespace Interleave.Program

variable {σ : Signature} {φ α β S : Type}

/-- Run the program at the service. -/
def serve (answer : ∀ op : σ.Op, S → Except φ (σ.Answer op) × S) :
    Program σ φ α → S → Except φ α × S
  | .pure a, s => (.ok a, s)
  | .raise e, s => (.error e, s)
  | .call op next, s =>
    match answer op s with
    | (.ok a, s') => serve answer (next a) s'
    | (.error e, s') => (.error e, s')

variable {answer : ∀ op : σ.Op, S → Except φ (σ.Answer op) × S} {p : Program σ φ α}
  {f : α → Program σ φ β} {s s' : S}

theorem serve_call {op : σ.Op} {next : σ.Answer op → Program σ φ α} {a : σ.Answer op}
    (h : answer op s = (.ok a, s')) :
    serve answer (.call op next) s = serve answer (next a) s' := by
  rw [serve, h]

/-- The second program runs from where the first one came to, if it returned. -/
theorem serve_bind_eq : serve answer (p >>= f) s =
    match serve answer p s with
    | (.ok a, s') => serve answer (f a) s'
    | (.error e, s') => (.error e, s') := by
  induction p generalizing s with
  | pure a => rfl
  | raise e => rfl
  | call op next ih =>
    rw [call_bind_eq]
    simp only [serve]
    split
    · exact ih _
    · rfl

theorem serve_bind {a : α} (h : serve answer p s = (.ok a, s')) :
    serve answer (p >>= f) s = serve answer (f a) s' := by
  rw [serve_bind_eq, h]

/-- What every call keeps, the program keeps. -/
theorem serve_keeps {P : σ.Op → Prop} {I : S → Prop} (hp : p.Calls P)
    (hanswer : ∀ op s, P op → I s → I (answer op s).2) (hs : I s) : I (serve answer p s).2 := by
  induction p generalizing s with
  | pure a => exact hs
  | raise e => exact hs
  | call op next ih =>
    have hnext := hanswer op s hp.1 hs
    simp only [serve]
    split
    · rename_i a s'' heq
      rw [heq] at hnext
      exact ih a (hp.2 a) hnext
    · rename_i e s'' heq
      rw [heq] at hnext
      exact hnext

/-- How long a program takes when its calls are answered by `played`. -/
def cost (played : ∀ op, σ.Answer op) (takes : σ.Op → ℚ) (p : Program σ φ α) : ℚ :=
  ((play played p).map fun event => takes event.op).sum

theorem cost_call {played : ∀ op, σ.Answer op} {takes : σ.Op → ℚ} {op : σ.Op}
    {next : σ.Answer op → Program σ φ α} :
    cost played takes (.call op next) = takes op + cost played takes (next (played op)) := by
  rw [cost, play, List.map_cons, List.sum_cons, cost]

theorem cost_bind {played : ∀ op, σ.Answer op} {takes : σ.Op → ℚ} {a : α}
    (h : result played p = .ok a) :
    cost played takes (p >>= f) = cost played takes p + cost played takes (f a) := by
  rw [cost, play_bind played f h, List.map_append, List.sum_append, cost, cost]

end Interleave.Program
