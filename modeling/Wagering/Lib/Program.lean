import Mathlib.Logic.Relation

/-!
# Programs over an interface

A `Program` is straight-line code with failures: it returns, raises, or calls
one operation of its interface and continues with the answer.  What an
operation does is not part of the program; `Interleave.Store` gives it a
meaning, one operation at a time, so that the programs of several sessions can
be run in any interleaving.
-/

namespace Interleave

/-- The operations that a program may call, with the type of each answer. -/
structure Signature : Type 1 where
  Op : Type
  Answer : Op → Type

/-- Code that returns an `α`, raises a `φ`, or calls an operation and goes on. -/
inductive Program (σ : Signature) (φ α : Type) : Type
  | pure (a : α) : Program σ φ α
  | raise (e : φ) : Program σ φ α
  | call (op : σ.Op) (next : σ.Answer op → Program σ φ α) : Program σ φ α

namespace Program

variable {σ : Signature} {φ α β γ : Type}

/-- Sequencing: the second program runs on what the first one returns. -/
def bind : Program σ φ α → (α → Program σ φ β) → Program σ φ β
  | .pure a, f => f a
  | .raise e, _ => .raise e
  | .call op next, f => .call op fun answer => (next answer).bind f

instance : Monad (Program σ φ) where
  pure := Program.pure
  bind := Program.bind

/-- Call one operation and return its answer. -/
def perform (op : σ.Op) : Program σ φ (σ.Answer op) :=
  .call op .pure

/-- A computation without operations, as a program. -/
def ofExcept : Except φ α → Program σ φ α
  | .ok a => .pure a
  | .error e => .raise e

@[simp] theorem pure_bind_eq (a : α) (f : α → Program σ φ β) :
    ((Pure.pure a : Program σ φ α) >>= f) = f a := rfl

@[simp] theorem pure_ctor_bind_eq (a : α) (f : α → Program σ φ β) :
    ((Program.pure a : Program σ φ α) >>= f) = f a := rfl

@[simp] theorem raise_bind_eq (e : φ) (f : α → Program σ φ β) :
    ((Program.raise e : Program σ φ α) >>= f) = .raise e := rfl

@[simp] theorem call_bind_eq (op : σ.Op) (next : σ.Answer op → Program σ φ α)
    (f : α → Program σ φ β) :
    (Program.call op next >>= f) = .call op fun answer => next answer >>= f := rfl

@[simp] theorem perform_bind_eq (op : σ.Op) (f : σ.Answer op → Program σ φ β) :
    (perform op >>= f) = .call op f := rfl

@[simp] theorem ofExcept_ok (a : α) : (ofExcept (.ok a) : Program σ φ α) = .pure a := rfl

@[simp] theorem ofExcept_error (e : φ) :
    (ofExcept (.error e) : Program σ φ α) = .raise e := rfl

theorem bind_assoc_eq (p : Program σ φ α) (f : α → Program σ φ β) (g : β → Program σ φ γ) :
    (p >>= f) >>= g = p >>= fun a => f a >>= g := by
  induction p with
  | pure a => rfl
  | raise e => rfl
  | call op next ih =>
    simp only [call_bind_eq]
    exact congrArg (Program.call op) (funext ih)

theorem bind_pure_eq (p : Program σ φ α) : (p >>= Program.pure) = p := by
  induction p with
  | pure a => rfl
  | raise e => rfl
  | call op next ih =>
    simp only [call_bind_eq]
    exact congrArg (Program.call op) (funext ih)

instance : LawfulMonad (Program σ φ) :=
  LawfulMonad.mk' _ bind_pure_eq (fun _ _ => rfl) bind_assoc_eq

end Program

end Interleave
