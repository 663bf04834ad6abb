import Wagering.Lib.Typestate

/-!
# Testimonies

A typestate says what a program has done and been answered so far.  A program
testifies when it also ends accordingly: what it returns and what it raises
agree with where it stands.  Like following a typestate, this is a matter of the
program's text alone.

`World.Attested.steps` carries testimonies over whole runs: in a sound world
whose jobs all testify, the result of every commit and every error that a
program raised agree with a state that was tied to the world when they ended.
The tie is to the world and not only to the store, so it may speak of the states
that the run has been through.
-/

namespace Interleave

variable {σ : Signature} {φ α β : Type}

/-- From `t` on the program makes only calls that are allowed, returns in `P` and
raises in `F`. -/
def Program.Testifies (T : Typestate σ) (P : T.State → α → Prop) (F : T.State → φ → Prop) :
    Program σ φ α → T.State → Prop
  | .pure a, t => P t a
  | .raise e, t => F t e
  | .call op rest, t =>
    T.Allows t op ∧ ∀ answer, (rest answer).Testifies T P F (T.next t op answer)

namespace Program

variable {T : Typestate σ} {P Q : T.State → α → Prop} {F G : T.State → φ → Prop}
  {p : Program σ φ α} {t : T.State}

theorem testifies_mono (h : p.Testifies T P F t) (hPQ : ∀ t a, P t a → Q t a)
    (hFG : ∀ t e, F t e → G t e) : p.Testifies T Q G t := by
  induction p generalizing t with
  | pure a => exact hPQ _ _ h
  | raise e => exact hFG _ _ h
  | call op rest ih => exact ⟨h.1, fun answer => ih answer (h.2 answer)⟩

theorem testifies_bind {R : T.State → β → Prop} {f : α → Program σ φ β}
    (h : p.Testifies T (fun t a => (f a).Testifies T R F t) F t) :
    (p >>= f).Testifies T R F t := by
  induction p generalizing t with
  | pure a => exact h
  | raise e => exact h
  | call op rest ih => exact ⟨h.1, fun answer => ih answer (h.2 answer)⟩

theorem testifies_map {R : T.State → β → Prop} {f : α → β}
    (h : p.Testifies T (fun t a => R t (f a)) F t) : (f <$> p).Testifies T R F t := by
  induction p generalizing t with
  | pure a => exact h
  | raise e => exact h
  | call op rest ih => exact ⟨h.1, fun answer => ih answer (h.2 answer)⟩

theorem testifies_call {op : σ.Op} {f : σ.Answer op → Program σ φ β} {R : T.State → β → Prop}
    (hallows : T.Allows t op) (h : ∀ answer, (f answer).Testifies T R F (T.next t op answer)) :
    (perform op >>= f).Testifies T R F t :=
  ⟨hallows, h⟩

/-- In states where every call is allowed and leads to another such state, any program
testifies to being there. -/
theorem testifies_free {I : T.State → Prop} (hallows : ∀ t op, I t → T.Allows t op)
    (hnext : ∀ t op answer, I t → I (T.next t op answer)) (h : I t) :
    p.Testifies T (fun t _ => I t) (fun t _ => I t) t := by
  induction p generalizing t with
  | pure a => exact h
  | raise e => exact h
  | call op rest ih => exact ⟨hallows t op h, fun answer => ih answer (hnext t op answer h)⟩

/-- Where every call is allowed, any program testifies to nothing. -/
theorem testifies_nothing (hallows : ∀ t op, T.Allows t op) :
    p.Testifies T (fun _ _ => True) (fun _ _ => True) t :=
  testifies_free (fun t op _ => hallows t op) (fun _ _ _ h => h) trivial

end Program

variable {S : Store σ φ} {ε o : Type}

/-- Every transaction of the job testifies from the start of the typestate. -/
def Job.Testifies (T : Typestate σ) (P : T.State → o → Prop) (F : T.State → φ → Prop) :
    Job S o → Prop
  | .done _ => True
  | .transactional body next => body.Testifies T P F T.start ∧ ∀ l r, (next l r).Testifies T P F

theorem Job.testifies_nothing {T : Typestate σ} (hallows : ∀ t op, T.Allows t op)
    (job : Job S o) : job.Testifies T (fun _ _ => True) fun _ _ => True := by
  induction job with
  | done result => trivial
  | transactional body next ih => exact ⟨Program.testifies_nothing hallows, ih⟩

/-- What ties the typestate of a session to the worlds of the runs that begin in `w₀`. -/
structure Ties (D : Discipline S) (T : Typestate σ) (units : ε → Job S o) (w₀ : World S ε o) :
    Type where
  Tied : Nat → World S ε o → S.Local → T.State → Prop
  start : ∀ {i u}, World.Steps units w₀ u → (∃ s, u.sessions[i]? = some s) →
    Tied i u S.start T.start
  rely : ∀ {i u u' l t}, World.Steps units w₀ u → World.Next units u u' → D.Inv u.shared →
    D.Own u.shared l → D.Inv u'.shared → Tied i u l t → D.Rely l u.shared u'.shared →
    Tied i u' l t
  exec : ∀ {i u u' others l op input a l' t}, World.Steps units w₀ u → World.Next units u u' →
    D.Inv u.shared → D.Own u.shared l → Tied i u l t → T.Allows t op →
    S.exec u.shared others l op input = some (u'.shared, .ok (a, l')) →
    Tied i u' l' (T.next t op a)

variable {D : Discipline S} {T : Typestate σ} {units : ε → Job S o} {w₀ : World S ε o}
  {V : Ties D T units w₀}

/-- The rest of the job of session `i` testifies from a state that is tied to the world. -/
def Status.Attested (V : Ties D T units w₀) (P : T.State → o → Prop) (F : T.State → φ → Prop)
    (i : Nat) (w : World S ε o) : Status S o → Prop
  | .running l prog next =>
    (∃ t, V.Tied i w l t ∧ prog.Testifies T P F t) ∧ ∀ l r, (next l r).Testifies T P F
  | _ => True

theorem Job.Testifies.attested_open {P : T.State → o → Prop} {F : T.State → φ → Prop}
    {job : Job S o} (h : job.Testifies T P F) {i : Nat} {w : World S ε o}
    (hw : World.Steps units w₀ w) (hi : ∃ s, w.sessions[i]? = some s) :
    job.open.Attested V P F i w := by
  cases job with
  | done result => trivial
  | transactional body next => exact ⟨⟨T.start, V.start hw hi, h.1⟩, h.2⟩

namespace World

variable {w w' : World S ε o} {action : Action S ε} {C : ε → Contract S o}
  {P : ε → T.State → o → Prop} {F : ε → T.State → φ → Prop}
  {Raised : φ → Prop}

/-- A failure that a step adds was raised by its program, is an outage, or is an
operation's own. -/
theorem step_failure (hstep : w.step units action = some w') {i : Nat} {sh : S.Shared}
    {l : S.Local} {e : φ} (hmem : (i, Ending.failed sh l e) ∈ w'.history) :
    (i, Ending.failed sh l e) ∈ w.history ∨
      (sh = w.shared ∧
        ∃ entry next, w.sessions[i]? = some ⟨entry, .running l (.raise e) next⟩) ∨
      S.outage e = true ∨
      ∃ others op input, S.exec w.shared others l op input = some (sh, .error e) := by
  have hclose : ∀ {j : Nat} {ending : Ending S o} {history : List (Nat × Ending S o)},
      (i, Ending.failed sh l e) ∈ history ++ [(j, ending)] →
        (i, Ending.failed sh l e) ∈ history ∨ i = j ∧ Ending.failed sh l e = ending := by
    intro j ending history h
    rcases List.mem_append.mp h with h | h
    · exact .inl h
    · exact .inr (Prod.mk.inj (List.mem_singleton.mp h))
  cases action with
  | begin entry =>
    simp only [step, Option.some.injEq] at hstep
    subst hstep
    exact .inl hmem
  | exec j input =>
    simp only [step] at hstep
    split at hstep
    case h_1 =>
      split at hstep
      case h_1 => cases hstep; exact .inl hmem
      case h_2 shared e' hop =>
        cases hstep
        rcases hclose hmem with h | ⟨rfl, h⟩
        · exact .inl h
        · cases h
          exact .inr (.inr (.inr ⟨_, _, _, hop⟩))
      case h_3 => cases hstep
    case h_2 => cases hstep
  | finish j =>
    simp only [step] at hstep
    split at hstep
    case h_1 =>
      cases hstep
      rcases hclose hmem with h | ⟨-, h⟩
      · exact .inl h
      · cases h
    case h_2 entry l' e' next hs =>
      cases hstep
      rcases hclose hmem with h | ⟨rfl, h⟩
      · exact .inl h
      · cases h
        exact .inr (.inl ⟨rfl, entry, next, hs⟩)
    case h_3 => cases hstep
  | fail j e' =>
    simp only [step] at hstep
    split at hstep
    case h_1 =>
      split at hstep
      case isTrue houtage =>
        cases hstep
        rcases hclose hmem with h | ⟨-, h⟩
        · exact .inl h
        · cases h
          exact .inr (.inr (.inl houtage))
      case isFalse => cases hstep
    case h_2 => cases hstep
  | crash j =>
    simp only [step] at hstep
    split at hstep
    case h_1 => cases hstep; exact .inl hmem
    case h_2 => cases hstep
  | ambient a =>
    simp only [step, Option.map_eq_some_iff] at hstep
    obtain ⟨shared, -, rfl⟩ := hstep
    exact .inl hmem

/-- A step ends one transaction at most. -/
theorem step_grows (hstep : w.step units action = some w') :
    w'.history = w.history ∨ ∃ x, w'.history = w.history ++ [x] := by
  cases action with
  | begin entry =>
    simp only [step, Option.some.injEq] at hstep
    subst hstep
    exact .inl rfl
  | exec j input =>
    simp only [step] at hstep
    split at hstep
    case h_1 =>
      split at hstep
      case h_1 => cases hstep; exact .inl rfl
      case h_2 => cases hstep; exact .inr ⟨_, rfl⟩
      case h_3 => cases hstep
    case h_2 => cases hstep
  | finish j =>
    simp only [step] at hstep
    split at hstep
    case h_1 => cases hstep; exact .inr ⟨_, rfl⟩
    case h_2 => cases hstep; exact .inr ⟨_, rfl⟩
    case h_3 => cases hstep
  | fail j e =>
    simp only [step] at hstep
    split at hstep
    case h_1 =>
      split at hstep
      case isTrue => cases hstep; exact .inr ⟨_, rfl⟩
      case isFalse => cases hstep
    case h_2 => cases hstep
  | crash j =>
    simp only [step] at hstep
    split at hstep
    case h_1 => cases hstep; exact .inl rfl
    case h_2 => cases hstep
  | ambient a =>
    simp only [step, Option.map_eq_some_iff] at hstep
    obtain ⟨shared, -, rfl⟩ := hstep
    exact .inl rfl

/-- An ending that a step adds comes last. -/
theorem step_last (hstep : w.step units action = some w') {x : Nat × Ending S o}
    (hmem : x ∈ w'.history) (hnew : x ∉ w.history) : w'.history = w.history ++ [x] := by
  rcases step_grows hstep with hsame | ⟨y, hgrows⟩
  · exact absurd (hsame ▸ hmem) hnew
  · rw [hgrows] at hmem ⊢
    rw [List.mem_singleton.mp ((List.mem_append.mp hmem).resolve_left hnew)]

/-- Every session testifies, and so did every transaction that committed and every
program that raised an error in `Raised`, in the world that it ended in. -/
structure Attested (V : Ties D T units w₀) (P : ε → T.State → o → Prop)
    (F : ε → T.State → φ → Prop) (Raised : φ → Prop) (w : World S ε o) : Prop where
  statuses : ∀ {i : Nat} {s : Session S ε o}, w.sessions[i]? = some s →
    s.status.Attested V (P s.entry) (F s.entry) i w
  commits : ∀ {i : Nat} {sh : S.Shared} {l : S.Local} {a : o},
    (i, Ending.committed sh l a) ∈ w.history → ∃ s, w.sessions[i]? = some s ∧
      ∃ u, Steps units w₀ u ∧ Steps units u w ∧ u.shared = sh ∧
        u.history ++ [(i, Ending.committed sh l a)] <+: w.history ∧
          ∃ t, V.Tied i u l t ∧ P s.entry t a
  failures : ∀ {i : Nat} {sh : S.Shared} {l : S.Local} {e : φ},
    (i, Ending.failed sh l e) ∈ w.history → Raised e → ∃ s, w.sessions[i]? = some s ∧
      ∃ u, Steps units w₀ u ∧ Steps units u w ∧ u.shared = sh ∧
        u.history ++ [(i, Ending.failed sh l e)] <+: w.history ∧
          ∃ t, V.Tied i u l t ∧ F s.entry t e

/-- Nothing has happened yet. -/
theorem Attested.empty {sh : S.Shared} : Attested V P F Raised (⟨sh, [], []⟩ : World S ε o) where
  statuses := fun hs => by cases hs
  commits := fun hmem => by cases hmem
  failures := fun hmem => by cases hmem

/-- The sessions testify after a step, too. -/
theorem Attested.step_statuses (h : Attested V P F Raised w) (hsound : w.Sound D C)
    (hinv : D.Inv w'.shared) (hunits : ∀ entry, (units entry).Testifies T (P entry) (F entry))
    (hw : Steps units w₀ w) (hstep : w.step units action = some w') {j : Nat}
    {s' : Session S ε o} (hs' : w'.sessions[j]? = some s') :
    s'.status.Attested V (P s'.entry) (F s'.entry) j w' := by
  have hnext : Next units w w' := ⟨action, hstep⟩
  obtain ⟨hextends, -⟩ := step_cases hstep
  rcases step_session hstep hs' with ⟨hother, hs⟩ | ⟨entry, rfl⟩ | ⟨s, -, hs, hmoves⟩
  · have hattested := h.statuses hs
    have hown := @World.Sound.own _ _ _ _ _ _ _ _ hsound j s'
    rcases s' with ⟨entry, status⟩
    cases status with
    | running l prog next =>
      obtain ⟨⟨t, htied, hprog⟩, hrest⟩ := hattested
      exact ⟨⟨t, V.rely hw hnext hsound.inv (hown hs rfl) hinv htied
        (hsound.step_rely hstep hs rfl hother), hprog⟩, hrest⟩
    | closed result => trivial
    | lost => trivial
  · exact (hunits entry).attested_open (hw.tail hnext) ⟨_, hs'⟩
  · have hattested := h.statuses hs
    have hown := @World.Sound.own _ _ _ _ _ _ _ _ hsound j s
    obtain ⟨s'', hs'', hentry⟩ := hextends.entries hs
    obtain rfl : s'' = s' := Option.some.inj (hs''.symm.trans hs')
    rw [hentry]
    rcases s with ⟨entry, status⟩
    rcases s'' with ⟨entry', status'⟩
    cases hmoves with
    | @called l l' op rest next input a hcalled hop =>
      obtain ⟨⟨t, htied, hallows, hprog⟩, hrest⟩ := hattested
      exact ⟨⟨_, V.exec hw hnext hsound.inv (hown hs rfl) htied hallows hop, hprog a⟩, hrest⟩
    | ended r => exact (hattested.2 _ r).attested_open (hw.tail hnext) ⟨_, hs''⟩
    | lost => trivial

/-- One step keeps the testimonies. -/
theorem Attested.step (h : Attested V P F Raised w) (hsound : w.Sound D C)
    (hinv : D.Inv w'.shared) (hunits : ∀ entry, (units entry).Testifies T (P entry) (F entry))
    (houtage : ∀ e, S.outage e = true → ¬ Raised e)
    (hrefused : ∀ {sh : S.Shared} {others : List S.Local} {l : S.Local} {op : σ.Op}
      {input : S.Input} {sh' : S.Shared} {e : φ},
      S.exec sh others l op input = some (sh', .error e) → ¬ Raised e)
    (hw : Steps units w₀ w) (hstep : w.step units action = some w') :
    Attested V P F Raised w' := by
  have hnext : Next units w w' := ⟨action, hstep⟩
  obtain ⟨hextends, -⟩ := step_cases hstep
  -- what was said of a world before the step is said of it after the step
  have hlater : ∀ {i : Nat} {sh : S.Shared} {Q : ε → World S ε o → Prop},
      (∃ s, w.sessions[i]? = some s ∧
        ∃ u, Steps units w₀ u ∧ Steps units u w ∧ u.shared = sh ∧ Q s.entry u) →
      ∃ s, w'.sessions[i]? = some s ∧
        ∃ u, Steps units w₀ u ∧ Steps units u w' ∧ u.shared = sh ∧ Q s.entry u := by
    rintro i sh Q ⟨s, hs, u, hu, huw, hsh, hq⟩
    obtain ⟨s', hs', heq⟩ := hextends.entries hs
    exact ⟨s', hs', u, hu, huw.tail hnext, hsh, heq ▸ hq⟩
  refine
    { statuses := fun hs' => h.step_statuses hsound hinv hunits hw hstep hs'
      commits := fun {i sh l a} hmem => ?commits
      failures := fun {i sh l e} hmem hraised => ?failures }
  case commits =>
    refine @hlater i sh (fun entry u => u.history ++ [(i, .committed sh l a)] <+: w'.history ∧
      ∃ t, V.Tied i u l t ∧ P entry t a) ?_
    by_cases hold : (i, Ending.committed sh l a) ∈ w.history
    · obtain ⟨s, hs, u, hu, huw, hsh, hpast, ht⟩ := h.commits hold
      exact ⟨s, hs, u, hu, huw, hsh, hpast.trans hextends.history, ht⟩
    · obtain ⟨rfl, entry, next, hs⟩ := (step_commit hstep hmem).resolve_left hold
      obtain ⟨⟨t, htied, ha⟩, -⟩ := h.statuses hs
      exact ⟨_, hs, w, hw, .refl, rfl, step_last hstep hmem hold ▸ List.prefix_refl _, t, htied,
        ha⟩
  case failures =>
    refine @hlater i sh (fun entry u => u.history ++ [(i, .failed sh l e)] <+: w'.history ∧
      ∃ t, V.Tied i u l t ∧ F entry t e) ?_
    by_cases hold : (i, Ending.failed sh l e) ∈ w.history
    · obtain ⟨s, hs, u, hu, huw, hsh, hpast, ht⟩ := h.failures hold hraised
      exact ⟨s, hs, u, hu, huw, hsh, hpast.trans hextends.history, ht⟩
    · rcases (step_failure hstep hmem).resolve_left hold with
        ⟨rfl, entry, next, hs⟩ | hout | ⟨others, op, input, hop⟩
      · obtain ⟨⟨t, htied, he⟩, -⟩ := h.statuses hs
        exact ⟨_, hs, w, hw, .refl, rfl, step_last hstep hmem hold ▸ List.prefix_refl _, t, htied,
          he⟩
      · exact absurd hraised (houtage e hout)
      · exact absurd hraised (hrefused hop)

/-- Over a whole run, from an empty world. -/
theorem Attested.steps (h₀ : Attested V P F Raised w₀)
    (hsound : ∀ {v}, Steps units w₀ v → v.Sound D C)
    (hunits : ∀ entry, (units entry).Testifies T (P entry) (F entry))
    (houtage : ∀ e, S.outage e = true → ¬ Raised e)
    (hrefused : ∀ {sh : S.Shared} {others : List S.Local} {l : S.Local} {op : σ.Op}
      {input : S.Input} {sh' : S.Shared} {e : φ},
      S.exec sh others l op input = some (sh', .error e) → ¬ Raised e)
    (h : Steps units w₀ w) : Attested V P F Raised w := by
  induction h with
  | refl => exact h₀
  | tail before last ih =>
    obtain ⟨action, hstep⟩ := last
    exact ih.step (hsound before) (hsound (before.tail ⟨action, hstep⟩)).inv hunits houtage
      hrefused before hstep

end World

end Interleave
