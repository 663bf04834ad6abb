/-!
# Methods of mutable objects

A method reads and assigns the fields of its object one statement after the
other, and may throw at any of them; what it assigned before it threw stays.
`Realizes` says that a method is a function from the old object to the new one:
when the function fails, nothing was assigned.

An object that methods are called on, with errors caught by the caller, keeps
what every single call keeps (`after_induct`).
-/

namespace Objects

/-- Code on an object: the result, and the object that it leaves behind. -/
def Method (σ ε α : Type) : Type := σ → Except ε α × σ

variable {σ ε α β ι : Type}

instance : Monad (Method σ ε) where
  pure a := fun s => (.ok a, s)
  bind m f := fun s => match m s with
    | (.ok a, s') => f a s'
    | (.error e, s') => (.error e, s')

namespace Method

/-- The object as it is. -/
def this : Method σ ε σ := fun s => (.ok s, s)

/-- An assignment. -/
def assign (f : σ → σ) : Method σ ε Unit := fun s => (.ok (), f s)

/-- A computation that does not see the object. -/
def lift (x : Except ε α) : Method σ ε α := fun s => (x, s)

/-- The outcome of a method as a function has it: the new object on success, the
old one on failure. -/
def outcome (s : σ) : Except ε (α × σ) → Except ε α × σ
  | .ok (a, s') => (.ok a, s')
  | .error e => (.error e, s)

/-- The method computes `f`. -/
def Realizes (m : Method σ ε α) (f : σ → Except ε (α × σ)) : Prop := ∀ s, m s = outcome s (f s)

theorem this_bind (f : σ → Method σ ε β) (s : σ) : (this >>= f) s = f s s := rfl

/-- A check that comes before any assignment. -/
theorem lift_bind {x : Except ε α} {m : α → Method σ ε β} {f : α → Except ε (β × σ)} {s : σ}
    (h : ∀ a, x = .ok a → m a s = outcome s (f a)) :
    (lift x >>= m) s = outcome s (x >>= f) := by
  cases x with
  | ok a => exact h a rfl
  | error e => rfl

variable {m : Method σ ε α} {f : σ → Except ε (α × σ)}

/-- A method that realizes a function throws before it assigns. -/
theorem Realizes.throws (h : m.Realizes f) {s s' : σ} {e : ε} (hcall : m s = (.error e, s')) :
    f s = .error e ∧ s' = s := by
  have hs := hcall.symm.trans (h s)
  cases hf : f s with
  | ok result =>
    rw [hf] at hs
    cases hs
  | error e' =>
    rw [hf] at hs
    cases hs
    exact ⟨rfl, rfl⟩

theorem Realizes.returns (h : m.Realizes f) {s s' : σ} {a : α} (hcall : m s = (.ok a, s')) :
    f s = .ok (a, s') := by
  have hs := hcall.symm.trans (h s)
  cases hf : f s with
  | ok result =>
    rw [hf] at hs
    cases hs
    rfl
  | error e' =>
    rw [hf] at hs
    cases hs

theorem Realizes.apply_ok (h : m.Realizes f) {s s' : σ} {a : α} (hf : f s = .ok (a, s')) :
    m s = (.ok a, s') := by
  rw [h s, hf]
  rfl

theorem Realizes.apply_error (h : m.Realizes f) {s : σ} {e : ε} (hf : f s = .error e) :
    m s = (.error e, s) := by
  rw [h s, hf]
  rfl

end Method

/-! ## Sequences of calls -/

/-- The object after calls whose errors the caller has caught. -/
def after (method : ι → Method σ ε α) (calls : List ι) (s : σ) : σ :=
  calls.foldl (fun s c => (method c s).2) s

variable {method : ι → Method σ ε α}

@[simp] theorem after_nil (s : σ) : after method [] s = s := rfl

/-- What holds at first and is kept by every call holds after any calls. -/
theorem after_induct {P : σ → Prop} {s : σ} (hstart : P s)
    (hcall : ∀ c s, P s → P (method c s).2) (calls : List ι) : P (after method calls s) := by
  induction calls generalizing s with
  | nil => exact hstart
  | cons c rest ih => exact ih (hcall c s hstart)

end Objects
