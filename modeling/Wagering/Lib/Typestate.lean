import Wagering.Lib.Rely

/-!
# Typestates

A typestate is what a program has done so far, as far as it matters: it allows
some calls and not others, and every answer leads to the next one.  Whether a
program follows a typestate is a matter of its text alone, whatever the calls
answer.

In a sound world whose jobs all follow a typestate, what ties it to the state of
the store is kept by every step: `World.Tracks.step` asks only that a call that
is allowed keeps the tie of its own session, and that what the others do keeps it.
-/

namespace Interleave

variable {σ : Signature} {φ α β : Type}

/-- What a program may call, and what it has done after each answer. -/
structure Typestate (σ : Signature) : Type 1 where
  State : Type
  start : State
  Allows : State → σ.Op → Prop
  next : State → (op : σ.Op) → σ.Answer op → State

/-- From `t` on the program makes only calls that are allowed, and returns in `P`. -/
def Program.Follows (T : Typestate σ) (P : T.State → α → Prop) :
    Program σ φ α → T.State → Prop
  | .pure a, t => P t a
  | .raise _, _ => True
  | .call op rest, t => T.Allows t op ∧ ∀ answer, (rest answer).Follows T P (T.next t op answer)

namespace Program

variable {T : Typestate σ} {P Q : T.State → α → Prop} {p : Program σ φ α} {t : T.State}

theorem follows_mono (h : p.Follows T P t) (hPQ : ∀ t a, P t a → Q t a) : p.Follows T Q t := by
  induction p generalizing t with
  | pure a => exact hPQ _ _ h
  | raise e => trivial
  | call op rest ih => exact ⟨h.1, fun answer => ih answer (h.2 answer)⟩

theorem follows_bind {R : T.State → β → Prop} {f : α → Program σ φ β}
    (h : p.Follows T (fun t a => (f a).Follows T R t) t) : (p >>= f).Follows T R t := by
  induction p generalizing t with
  | pure a => exact h
  | raise e => trivial
  | call op rest ih => exact ⟨h.1, fun answer => ih answer (h.2 answer)⟩

theorem follows_map {R : T.State → β → Prop} {f : α → β}
    (h : p.Follows T (fun t a => R t (f a)) t) : (f <$> p).Follows T R t := by
  induction p generalizing t with
  | pure a => exact h
  | raise e => trivial
  | call op rest ih => exact ⟨h.1, fun answer => ih answer (h.2 answer)⟩

theorem follows_call {op : σ.Op} {f : σ.Answer op → Program σ φ β} {R : T.State → β → Prop}
    (hallows : T.Allows t op) (h : ∀ answer, (f answer).Follows T R (T.next t op answer)) :
    (perform op >>= f).Follows T R t :=
  ⟨hallows, h⟩

end Program

variable {S : Store σ φ} {ε o : Type}

/-- Every transaction of the job follows the typestate from its start. -/
def Job.Follows (T : Typestate σ) : Job S o → Prop
  | .done _ => True
  | .transactional body next =>
    body.Follows T (fun _ _ => True) T.start ∧ ∀ l r, (next l r).Follows T

/-- The session that an action moves. -/
def Action.session? : Action S ε → Option Nat
  | .exec i _ => some i
  | .finish i => some i
  | .fail i _ => some i
  | .crash i => some i
  | _ => none

/-- How an action moves its own session. -/
inductive Status.Moves (w w' : World S ε o) (i : Nat) (action : Action S ε) :
    Status S o → Status S o → Prop
  | called {l l' : S.Local} {op : σ.Op} {rest : σ.Answer op → Program σ φ o}
    {next : S.Local → Except φ o → Job S o} {input : S.Input} {a : σ.Answer op}
    (called : action = .exec i input)
    (exec : S.exec w.shared (w.others i) l op input = some (w'.shared, .ok (a, l'))) :
    Moves w w' i action (.running l (.call op rest) next) (.running l' (rest a) next)
  | ended {l : S.Local} {prog : Program σ φ o} {next : S.Local → Except φ o → Job S o}
    (r : Except φ o) : Moves w w' i action (.running l prog next) (next l r).open
  | lost {status : Status S o} : Moves w w' i action status .lost

namespace World

variable {units : ε → Job S o} {w w' : World S ε o} {action : Action S ε}

/-- The sessions after a step: one moves, or one begins, and the others stay. -/
theorem step_session (hstep : w.step units action = some w') {j : Nat} {s' : Session S ε o}
    (hs' : w'.sessions[j]? = some s') :
    (action.session? ≠ some j ∧ w.sessions[j]? = some s') ∨
      (∃ entry, s' = ⟨entry, (units entry).open⟩) ∨
      ∃ s, action.session? = some j ∧ w.sessions[j]? = some s ∧
        s.status.Moves w w' j action s'.status := by
  have hset : ∀ {i : Nat} {t : Session S ε o} {status : Status S o} {shared : S.Shared},
      w.sessions[i]? = some t → ({ w with shared }.setStatus i status).sessions[j]? = some s' →
      (i ≠ j ∧ w.sessions[j]? = some s') ∨ (i = j ∧ s'.status = status) := by
    intro i t status shared ht h
    rw [setStatus_getElem?] at h
    by_cases hij : i = j
    · subst hij
      rw [if_pos rfl] at h
      obtain ⟨u, -, rfl⟩ := Option.map_eq_some_iff.mp h
      exact .inr ⟨rfl, rfl⟩
    · rw [if_neg hij] at h
      exact .inl ⟨hij, h⟩
  cases action with
  | begin entry =>
    simp only [step, Option.some.injEq] at hstep
    subst hstep
    rw [List.getElem?_append] at hs'
    split at hs'
    · exact .inl ⟨by simp [Action.session?], hs'⟩
    · rw [List.getElem?_singleton] at hs'
      split at hs'
      · exact .inr (.inl ⟨entry, (Option.some.inj hs').symm⟩)
      · cases hs'
  | exec i input =>
    simp only [step] at hstep
    split at hstep
    case h_1 entry l op rest next hs =>
      split at hstep
      case h_1 shared a l' hop =>
        cases hstep
        rcases @hset i _ _ shared hs hs' with ⟨hne, hs'⟩ | ⟨rfl, hstatus⟩
        · exact .inl ⟨fun h => hne (Option.some.inj h), hs'⟩
        · exact .inr (.inr ⟨_, rfl, hs, by rw [hstatus]; exact .called rfl hop⟩)
      case h_2 shared e hop =>
        cases hstep
        rcases @hset i _ _ shared hs hs' with ⟨hne, hs'⟩ | ⟨rfl, hstatus⟩
        · exact .inl ⟨fun h => hne (Option.some.inj h), hs'⟩
        · exact .inr (.inr ⟨_, rfl, hs, by rw [hstatus]; exact .ended _⟩)
      case h_3 => cases hstep
    case h_2 => cases hstep
  | finish i =>
    simp only [step] at hstep
    split at hstep
    case h_1 entry l a next hs =>
      cases hstep
      rcases @hset i _ _ (S.commit w.shared l) hs hs' with ⟨hne, hs'⟩ | ⟨rfl, hstatus⟩
      · exact .inl ⟨fun h => hne (Option.some.inj h), hs'⟩
      · exact .inr (.inr ⟨_, rfl, hs, by rw [hstatus]; exact .ended _⟩)
    case h_2 entry l e next hs =>
      cases hstep
      rcases @hset i _ _ w.shared hs hs' with ⟨hne, hs'⟩ | ⟨rfl, hstatus⟩
      · exact .inl ⟨fun h => hne (Option.some.inj h), hs'⟩
      · exact .inr (.inr ⟨_, rfl, hs, by rw [hstatus]; exact .ended _⟩)
    case h_3 => cases hstep
  | fail i e =>
    simp only [step] at hstep
    split at hstep
    case h_1 entry l prog next hs =>
      split at hstep
      case isTrue =>
        cases hstep
        rcases @hset i _ _ w.shared hs hs' with ⟨hne, hs'⟩ | ⟨rfl, hstatus⟩
        · exact .inl ⟨fun h => hne (Option.some.inj h), hs'⟩
        · exact .inr (.inr ⟨_, rfl, hs, by rw [hstatus]; exact .ended _⟩)
      case isFalse => cases hstep
    case h_2 => cases hstep
  | crash i =>
    simp only [step] at hstep
    split at hstep
    case h_1 entry l prog next hs =>
      cases hstep
      rcases @hset i _ _ w.shared hs hs' with ⟨hne, hs'⟩ | ⟨rfl, hstatus⟩
      · exact .inl ⟨fun h => hne (Option.some.inj h), hs'⟩
      · exact .inr (.inr ⟨_, rfl, hs, by rw [hstatus]; exact .lost⟩)
    case h_2 => cases hstep
  | ambient a =>
    simp only [step, Option.map_eq_some_iff] at hstep
    obtain ⟨shared, -, rfl⟩ := hstep
    exact .inl ⟨by simp [Action.session?], hs'⟩

/-- What every other session may rely on in a step. -/
theorem Sound.step_rely {D : Discipline S} {C : ε → Contract S o} (h : w.Sound D C)
    (hstep : w.step units action = some w') {j : Nat} {s : Session S ε o} {l : S.Local}
    (hs : w.sessions[j]? = some s) (hl : s.local? = some l) (hother : action.session? ≠ some j) :
    D.Rely l w.shared w'.shared := by
  have hown : D.Own w.shared l := h.own hs hl
  cases action with
  | begin entry =>
    simp only [World.step, Option.some.injEq] at hstep
    subst hstep
    exact D.rely_refl _ _
  | exec i input =>
    have hne : i ≠ j := fun heq => hother (congrArg some heq)
    simp only [World.step] at hstep
    split at hstep
    case h_1 entry loc op rest next hi =>
      have hcompat : D.Compat loc l := h.apart hne hi hs rfl hl
      have howni : D.Own w.shared loc := h.own hi rfl
      split at hstep
      case h_1 shared a l' hop =>
        cases hstep
        exact D.exec_rely h.inv howni hown hcompat hop
      case h_2 shared e hop =>
        cases hstep
        exact D.exec_rely h.inv howni hown hcompat hop
      case h_3 => cases hstep
    case h_2 => cases hstep
  | finish i =>
    have hne : i ≠ j := fun heq => hother (congrArg some heq)
    simp only [World.step] at hstep
    split at hstep
    case h_1 entry loc a next hi =>
      cases hstep
      obtain ⟨howni, hwp, -⟩ := h.statuses hi
      obtain ⟨hready, -, -⟩ := hwp w.shared (D.rely_refl _ _) h.inv howni
      exact D.commit_rely h.inv howni hready hown (h.apart hne hi hs rfl hl)
    case h_2 entry loc e next hi =>
      cases hstep
      exact D.rely_refl _ _
    case h_3 => cases hstep
  | fail i e =>
    simp only [World.step] at hstep
    split at hstep
    case h_1 entry loc prog next hi =>
      split at hstep
      case isTrue =>
        cases hstep
        exact D.rely_refl _ _
      case isFalse => cases hstep
    case h_2 => cases hstep
  | crash i =>
    simp only [World.step] at hstep
    split at hstep
    case h_1 entry loc prog next hi =>
      cases hstep
      exact D.rely_refl _ _
    case h_2 => cases hstep
  | ambient a =>
    simp only [World.step, Option.map_eq_some_iff] at hstep
    obtain ⟨shared, ha, rfl⟩ := hstep
    exact D.ambient_rely h.inv ha hown

/-! ## Ties -/

/-- The call that an action makes is one that `Permitted` allows in the committed state. -/
def Heeds (Permitted : S.Shared → σ.Op → Prop) (w : World S ε o) (action : Action S ε) : Prop :=
  ∀ (i : Nat) (input : S.Input) (entry : ε) (l : S.Local) (op : σ.Op)
    (rest : σ.Answer op → Program σ φ o) (next : S.Local → Except φ o → Job S o),
    action = .exec i input → w.sessions[i]? = some ⟨entry, .running l (.call op rest) next⟩ →
    Permitted w.shared op

end World

/-- The rest of the job follows the typestate from a state that is tied to the store. -/
def Status.Tracked (T : Typestate σ) (Tied : S.Shared → S.Local → T.State → Prop)
    (sh : S.Shared) : Status S o → Prop
  | .running l prog next =>
    (∃ t, Tied sh l t ∧ prog.Follows T (fun _ _ => True) t) ∧ ∀ l r, (next l r).Follows T
  | _ => True

theorem Job.Follows.tracked_open {T : Typestate σ} {Tied : S.Shared → S.Local → T.State → Prop}
    {job : Job S o} (h : job.Follows T) (hstart : ∀ sh, Tied sh S.start T.start) (sh : S.Shared) :
    job.open.Tracked T Tied sh := by
  cases job with
  | done result => trivial
  | transactional body next => exact ⟨⟨T.start, hstart sh, h.1⟩, h.2⟩

namespace World

variable {units : ε → Job S o} {w w' : World S ε o} {action : Action S ε}
  {T : Typestate σ} {Tied : S.Shared → S.Local → T.State → Prop}

/-- Every session follows the typestate. -/
def Tracks (T : Typestate σ) (Tied : S.Shared → S.Local → T.State → Prop)
    (w : World S ε o) : Prop :=
  ∀ {i : Nat} {s : Session S ε o}, w.sessions[i]? = some s → s.status.Tracked T Tied w.shared

/-- A step keeps the ties, when each call that is allowed keeps its own and no
session breaks another's. -/
theorem Tracks.step {D : Discipline S} {C : ε → Contract S o}
    {Permitted : S.Shared → σ.Op → Prop} (h : w.Tracks T Tied) (hsound : w.Sound D C)
    (hunits : ∀ entry, (units entry).Follows T) (hstart : ∀ sh, Tied sh S.start T.start)
    (hrely : ∀ {sh sh' l t}, Tied sh l t → D.Rely l sh sh' → Tied sh' l t)
    (hexec : ∀ {sh others l op input sh' a l' t}, D.Inv sh → D.Own sh l → Tied sh l t →
      T.Allows t op → Permitted sh op →
      S.exec sh others l op input = some (sh', .ok (a, l')) → Tied sh' l' (T.next t op a))
    (hheeds : w.Heeds Permitted action) (hstep : w.step units action = some w') :
    w'.Tracks T Tied := by
  intro j s' hs'
  rcases step_session hstep hs' with ⟨hother, hs⟩ | ⟨entry, rfl⟩ | ⟨s, -, hs, hmoves⟩
  · have htracked := h hs
    rcases s' with ⟨entry, status⟩
    cases status with
    | running l prog next =>
      obtain ⟨⟨t, htied, hprog⟩, hnext⟩ := htracked
      exact ⟨⟨t, hrely htied (hsound.step_rely hstep hs rfl hother), hprog⟩, hnext⟩
    | closed result => trivial
    | lost => trivial
  · exact (hunits entry).tracked_open hstart _
  · have htracked := h hs
    have hown := @World.Sound.own _ _ _ _ _ _ _ _ hsound j s
    have hpermitted := fun input => hheeds j input s.entry
    rcases s with ⟨entry, status⟩
    rcases s' with ⟨entry', status'⟩
    cases hmoves with
    | @called l l' op rest next input a hcalled hop =>
      obtain ⟨⟨t, htied, hallows, hprog⟩, hnext⟩ := htracked
      have htied' := hexec hsound.inv (hown hs rfl) htied hallows
        (hpermitted input l op rest next hcalled hs) hop
      exact ⟨⟨_, htied', hprog a⟩, hnext⟩
    | ended r => exact (htracked.2 _ r).tracked_open hstart _
    | lost => trivial

/-- A commit that a step adds is one of a session that had come to its end. -/
theorem step_commit (hstep : w.step units action = some w') {i : Nat} {sh : S.Shared} {l : S.Local}
    {a : o} (hmem : (i, Ending.committed sh l a) ∈ w'.history) :
    (i, Ending.committed sh l a) ∈ w.history ∨
      sh = w.shared ∧ ∃ entry next, w.sessions[i]? = some ⟨entry, .running l (.pure a) next⟩ := by
  have hclose : ∀ {j : Nat} {ending : Ending S o} {history : List (Nat × Ending S o)},
      (i, Ending.committed sh l a) ∈ history ++ [(j, ending)] →
        (i, Ending.committed sh l a) ∈ history ∨ i = j ∧ Ending.committed sh l a = ending := by
    intro j ending history h
    rcases List.mem_append.mp h with h | h
    · exact .inl h
    · exact .inr (Prod.mk.inj (List.mem_singleton.mp h))
  cases action with
  | begin entry =>
    simp only [step, Option.some.injEq] at hstep
    subst hstep
    exact .inl hmem
  | exec j input =>
    simp only [step] at hstep
    split at hstep
    case h_1 =>
      split at hstep
      case h_1 => cases hstep; exact .inl hmem
      case h_2 =>
        cases hstep
        rcases hclose hmem with h | ⟨-, h⟩
        · exact .inl h
        · cases h
      case h_3 => cases hstep
    case h_2 => cases hstep
  | finish j =>
    simp only [step] at hstep
    split at hstep
    case h_1 entry l' a' next hs =>
      cases hstep
      rcases hclose hmem with h | ⟨rfl, h⟩
      · exact .inl h
      · cases h
        exact .inr ⟨rfl, entry, next, hs⟩
    case h_2 =>
      cases hstep
      rcases hclose hmem with h | ⟨-, h⟩
      · exact .inl h
      · cases h
    case h_3 => cases hstep
  | fail j e =>
    simp only [step] at hstep
    split at hstep
    case h_1 =>
      split at hstep
      case isTrue =>
        cases hstep
        rcases hclose hmem with h | ⟨-, h⟩
        · exact .inl h
        · cases h
      case isFalse => cases hstep
    case h_2 => cases hstep
  | crash j =>
    simp only [step] at hstep
    split at hstep
    case h_1 => cases hstep; exact .inl hmem
    case h_2 => cases hstep
  | ambient a =>
    simp only [step, Option.map_eq_some_iff] at hstep
    obtain ⟨shared, -, rfl⟩ := hstep
    exact .inl hmem

/-- Over a whole run every session follows the typestate, and so did every
transaction that committed, to its end. -/
theorem Tracks.steps {D : Discipline S} {C : ε → Contract S o} {w₀ : World S ε o}
    (hsessions : w₀.sessions = []) (hhistory : w₀.history = [])
    (hsound : ∀ {v}, Steps units w₀ v → v.Sound D C)
    (hunits : ∀ entry, (units entry).Follows T) (hstart : ∀ sh, Tied sh S.start T.start)
    (hrely : ∀ {sh sh' l t}, Tied sh l t → D.Rely l sh sh' → Tied sh' l t)
    (hexec : ∀ {sh others l op input sh' a l' t}, D.Inv sh → Tied sh l t → T.Allows t op →
      S.exec sh others l op input = some (sh', .ok (a, l')) → Tied sh' l' (T.next t op a))
    (h : Steps units w₀ w) :
    w.Tracks T Tied ∧
      ∀ {i sh l a}, (i, Ending.committed sh l a) ∈ w.history → ∃ t, Tied sh l t := by
  induction h with
  | refl =>
    refine ⟨fun hs => ?_, fun hmem => ?_⟩
    · rw [hsessions] at hs
      cases hs
    · rw [hhistory] at hmem
      cases hmem
  | tail before last ih =>
    obtain ⟨htracks, hcommits⟩ := ih
    obtain ⟨action, hstep⟩ := last
    refine ⟨@Tracks.step _ _ _ _ _ _ _ _ _ _ _ _ _ (fun _ _ => True) htracks (hsound before) hunits
      hstart hrely (fun hinv _ htied hallows _ hop => hexec hinv htied hallows hop)
      (fun _ _ _ _ _ _ _ _ _ => trivial) hstep, fun hmem => ?_⟩
    rcases step_commit hstep hmem with hold | ⟨rfl, entry, next, hs⟩
    · exact hcommits hold
    · obtain ⟨⟨t, htied, -⟩, -⟩ := htracks hs
      exact ⟨t, htied⟩

end World

/-! ## Ranks -/

/-- A relation has no cycle when a rank grows from each point that goes on to the next. -/
theorem acyclic_of_rank {γ : Type} {r : γ → γ → Prop} (rank : γ → Nat)
    (h : ∀ {a b c}, r a b → r b c → rank a < rank b) (a : γ) : ¬ Relation.TransGen r a a := by
  have hgrows : ∀ {a b}, Relation.TransGen r a b → ∀ {c}, r b c → rank a < rank b := by
    intro a b hab
    induction hab with
    | single hab => exact fun hbc => h hab hbc
    | tail _ hbc ih => exact fun hcd => Nat.lt_trans (ih hbc) (h hbc hcd)
  intro hcycle
  obtain ⟨b, hab, -⟩ := Relation.TransGen.head'_iff.mp hcycle
  exact Nat.lt_irrefl _ (hgrows hcycle hab)

end Interleave
