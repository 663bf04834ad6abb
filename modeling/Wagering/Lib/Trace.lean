import Wagering.Lib.Program

/-!
# Traces of a program

The calls a program makes, in order, each with the answer it got.  A trace may
break off anywhere: before a call, while a call has not answered, or at a call
that failed.
-/

namespace Interleave

/-- A call, and its answer once there is one. -/
structure Event (σ : Signature) (φ : Type) : Type where
  op : σ.Op
  answer : Option (Except φ (σ.Answer op))

namespace Program

variable {σ : Signature} {φ α β : Type}

/-- The traces of a program, whatever its environment answers. -/
inductive Trace : Program σ φ α → List (Event σ φ) → Prop
  | stop (p : Program σ φ α) : Trace p []
  | waiting (op : σ.Op) (next : σ.Answer op → Program σ φ α) : Trace (.call op next) [⟨op, none⟩]
  | failed (op : σ.Op) (next : σ.Answer op → Program σ φ α) (e : φ) :
    Trace (.call op next) [⟨op, some (.error e)⟩]
  | answered {op : σ.Op} {next : σ.Answer op → Program σ φ α} (answer : σ.Answer op)
    {events : List (Event σ φ)} (rest : Trace (next answer) events) :
    Trace (.call op next) (⟨op, some (.ok answer)⟩ :: events)

/-- Every operation that the program may call satisfies `P`. -/
def Calls (P : σ.Op → Prop) : Program σ φ α → Prop
  | .pure _ => True
  | .raise _ => True
  | .call op next => P op ∧ ∀ answer, Calls P (next answer)

theorem Calls.bind {P : σ.Op → Prop} {p : Program σ φ α} {f : α → Program σ φ β}
    (hp : p.Calls P) (hf : ∀ a, (f a).Calls P) : (p >>= f).Calls P := by
  induction p with
  | pure a => exact hf a
  | raise e => trivial
  | call op next ih => exact ⟨hp.1, fun answer => ih answer (hp.2 answer)⟩

theorem Calls.mono {P Q : σ.Op → Prop} {p : Program σ φ α} (hp : p.Calls P)
    (hPQ : ∀ op, P op → Q op) : p.Calls Q := by
  induction p with
  | pure a => trivial
  | raise e => trivial
  | call op next ih => exact ⟨hPQ op hp.1, fun answer => ih answer (hp.2 answer)⟩

/-- A trace has only calls that the program may make. -/
theorem Trace.calls {P : σ.Op → Prop} {p : Program σ φ α} {events : List (Event σ φ)}
    (h : Trace p events) (hp : p.Calls P) : ∀ event ∈ events, P event.op := by
  induction h with
  | stop p => simp
  | waiting op next => simpa using hp.1
  | failed op next e => simpa using hp.1
  | answered answer _ ih => exact List.forall_mem_cons.mpr ⟨hp.1, ih (hp.2 answer)⟩

/-- The trace in which every call is answered by `answer`. -/
def play (answer : ∀ op, σ.Answer op) : Program σ φ α → List (Event σ φ)
  | .pure _ => []
  | .raise _ => []
  | .call op next => ⟨op, some (.ok (answer op))⟩ :: play answer (next (answer op))

/-- What the program returns when every call is answered by `answer`. -/
def result (answer : ∀ op, σ.Answer op) : Program σ φ α → Except φ α
  | .pure a => .ok a
  | .raise e => .error e
  | .call op next => result answer (next (answer op))

theorem play_bind (answer : ∀ op, σ.Answer op) {p : Program σ φ α} {a : α}
    (f : α → Program σ φ β) (h : result answer p = .ok a) :
    play answer (p >>= f) = play answer p ++ play answer (f a) := by
  induction p with
  | pure a' =>
    cases h
    rfl
  | raise e => cases h
  | call op next ih =>
    rw [call_bind_eq]
    simp only [play, List.cons_append, ih (answer op) h]

theorem result_bind (answer : ∀ op, σ.Answer op) {p : Program σ φ α} {a : α}
    (f : α → Program σ φ β) (h : result answer p = .ok a) :
    result answer (p >>= f) = result answer (f a) := by
  induction p with
  | pure a' =>
    cases h
    rfl
  | raise e => cases h
  | call op next ih =>
    rw [call_bind_eq]
    exact ih (answer op) h

end Program

end Interleave
