import Mathlib.Algebra.BigOperators.Group.List.Basic

/-!
# Running balances

A list of entries, each with a value before and a value after it, is a chain
when every entry starts where the previous one ended.  In a commutative group
the ends of a chain differ by the sum of its steps.
-/

namespace RunningBalance

variable {α M : Type} (before after : α → M)

/-- The entries lead from `first` to `last`, each from where the last one ended. -/
def Chain : M → List α → M → Prop
  | first, [], last => first = last
  | first, e :: es, last => before e = first ∧ Chain (after e) es last

variable {before after} {first mid last : M} {es es' : List α} {e : α}

theorem Chain.nil : Chain before after first [] first := rfl

theorem chain_append :
    Chain before after first (es ++ es') last ↔
      ∃ mid, Chain before after first es mid ∧ Chain before after mid es' last := by
  induction es generalizing first with
  | nil => simp [Chain]
  | cons e es ih => simp [Chain, ih, and_assoc]

theorem Chain.concat (h : Chain before after first es mid) (hb : before e = mid) :
    Chain before after first (es ++ [e]) (after e) :=
  chain_append.mpr ⟨mid, h, hb, rfl⟩

/-- The last value of a chain is its first value plus what the entries add. -/
theorem Chain.sum [AddCommGroup M] {step : α → M}
    (h : Chain before after first es last) (hstep : ∀ e ∈ es, after e = before e + step e) :
    last = first + (es.map step).sum := by
  induction es generalizing first with
  | nil => simpa using h.symm
  | cons e es ih =>
    obtain ⟨hb, hrest⟩ := h
    rw [ih hrest fun e' he' => hstep e' (List.mem_cons_of_mem _ he'),
      hstep e List.mem_cons_self, hb, List.map_cons, List.sum_cons, add_assoc]

/-- Neighbouring entries meet. -/
theorem Chain.meets (h : Chain before after first (es ++ e :: es') last) :
    Chain before after first es (before e) := by
  obtain ⟨mid, hes, hb, -⟩ := chain_append.mp h
  exact hb ▸ hes

/-- Every entry starts where the one before it ended. -/
theorem Chain.isChain (h : Chain before after first es last) :
    es.IsChain fun e e' => before e' = after e := by
  induction es generalizing first with
  | nil => exact .nil
  | cons e es ih =>
    cases es with
    | nil => exact .singleton _
    | cons e' es => exact .cons_cons h.2.1 (ih h.2)

/-- The last entry ends where the chain does. -/
theorem Chain.getLast? (h : Chain before after first es last) (he : es.getLast? = some e) :
    after e = last := by
  obtain ⟨init, rfl⟩ := List.getLast?_eq_some_iff.mp he
  obtain ⟨mid, -, -, hlast⟩ := chain_append.mp h
  exact hlast

end RunningBalance
