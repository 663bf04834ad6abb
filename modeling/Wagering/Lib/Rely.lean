import Wagering.Lib.Interleave

/-!
# Rely-guarantee for interleaved transactions

A `Discipline` says what a session may rely on while its transaction is open:
the committed state keeps an invariant, and changes only in ways that do not
disturb what the session has locked or written.  In return each operation and
each commit must keep that promise towards the other sessions.

Under a discipline a program is verified alone: `Program.wp` is its weakest
precondition, closed under whatever the others may do between two operations.
`World.Sound.step` is the soundness theorem: if every job is safe alone, every
world that any schedule reaches keeps the invariant, and every transaction
ended as its contract allows.
-/

namespace Interleave

variable {σ : Signature} {φ : Type}

/-- What sessions may rely on, and the rules that make it sound.  `Own` ties a
transaction's local state to the committed state, `Compat` keeps two running
transactions apart, and `Ready` is what a commit owes the others. -/
structure Discipline (S : Store σ φ) : Type where
  Inv : S.Shared → Prop
  Own : S.Shared → S.Local → Prop
  Compat : S.Local → S.Local → Prop
  Rely : S.Local → S.Shared → S.Shared → Prop
  Ready : S.Shared → S.Local → Prop
  rely_refl : ∀ l sh, Rely l sh sh
  rely_trans : ∀ {l a b c}, Rely l a b → Rely l b c → Rely l a c
  own_start : ∀ sh, Own sh S.start
  own_rely : ∀ {l sh sh'}, Own sh l → Rely l sh sh' → Own sh' l
  compat_start : ∀ l, Compat l S.start
  compat_symm : ∀ {l o}, Compat l o → Compat o l
  exec_inv : ∀ {sh others l op input sh' r}, Inv sh → Own sh l →
    S.exec sh others l op input = some (sh', r) → Inv sh'
  exec_rely : ∀ {sh others l op input sh' r o}, Inv sh → Own sh l → Own sh o → Compat l o →
    S.exec sh others l op input = some (sh', r) → Rely o sh sh'
  exec_own : ∀ {sh others l op input sh' a l'}, Inv sh → Own sh l →
    S.exec sh others l op input = some (sh', .ok (a, l')) → Own sh' l'
  exec_compat : ∀ {sh others l op input sh' a l' o}, Inv sh → Own sh l → Own sh o →
    o ∈ others → Compat l o → S.exec sh others l op input = some (sh', .ok (a, l')) →
    Compat l' o
  commit_inv : ∀ {sh l}, Inv sh → Own sh l → Ready sh l → Inv (S.commit sh l)
  commit_rely : ∀ {sh l o}, Inv sh → Own sh l → Ready sh l → Own sh o → Compat l o →
    Rely o sh (S.commit sh l)
  ambient_inv : ∀ {sh a sh'}, Inv sh → S.ambient sh a = some sh' → Inv sh'
  ambient_rely : ∀ {sh a sh' l}, Inv sh → S.ambient sh a = some sh' → Own sh l → Rely l sh sh'

variable {S : Store σ φ} {α β : Type}

/-- What may happen to the committed state around a session that holds nothing. -/
abbrev Discipline.Evolve (D : Discipline S) (sh sh' : S.Shared) : Prop := D.Rely S.start sh sh'

/-! ## Weakest preconditions -/

/-- From `sh` and `l` on, whatever the others do in between, the program ends
in `P` if it returns and in `F` if it raises or an operation refuses. -/
def Program.wp (D : Discipline S) (P : S.Shared → S.Local → α → Prop)
    (F : S.Shared → S.Local → φ → Prop) : Program σ φ α → S.Shared → S.Local → Prop
  | .pure a, sh, l => ∀ sh', D.Rely l sh sh' → D.Inv sh' → D.Own sh' l → P sh' l a
  | .raise e, sh, l => ∀ sh', D.Rely l sh sh' → D.Inv sh' → D.Own sh' l → F sh' l e
  | .call op next, sh, l => ∀ sh', D.Rely l sh sh' → D.Inv sh' → D.Own sh' l →
      ∀ others input sh'' r, S.exec sh' others l op input = some (sh'', r) →
        match r with
        | .ok (a, l') => (next a).wp D P F sh'' l'
        | .error e => F sh'' l e

namespace Program

variable {D : Discipline S} {P P' : S.Shared → S.Local → α → Prop}
  {F F' : S.Shared → S.Local → φ → Prop}

theorem wp_rely {p : Program σ φ α} {sh sh' : S.Shared} {l : S.Local}
    (h : p.wp D P F sh l) (hr : D.Rely l sh sh') : p.wp D P F sh' l := by
  cases p with
  | pure a => exact fun sh'' hr' => h sh'' (D.rely_trans hr hr')
  | raise e => exact fun sh'' hr' => h sh'' (D.rely_trans hr hr')
  | call op next => exact fun sh'' hr' => h sh'' (D.rely_trans hr hr')

/-- It is enough to start from a state that satisfies the invariant. -/
theorem wp_intro {p : Program σ φ α} {sh : S.Shared} {l : S.Local}
    (h : ∀ sh', D.Rely l sh sh' → D.Inv sh' → D.Own sh' l → p.wp D P F sh' l) :
    p.wp D P F sh l := by
  cases p with
  | pure a => exact fun sh' hr hi ho => h sh' hr hi ho sh' (D.rely_refl _ _) hi ho
  | raise e => exact fun sh' hr hi ho => h sh' hr hi ho sh' (D.rely_refl _ _) hi ho
  | call op next => exact fun sh' hr hi ho => h sh' hr hi ho sh' (D.rely_refl _ _) hi ho

theorem wp_mono {p : Program σ φ α} {sh : S.Shared} {l : S.Local} (h : p.wp D P F sh l)
    (hP : ∀ sh l a, D.Inv sh → D.Own sh l → P sh l a → P' sh l a)
    (hF : ∀ sh l e, F sh l e → F' sh l e) : p.wp D P' F' sh l := by
  induction p generalizing sh l with
  | pure a => exact fun sh' hr hi ho => hP _ _ _ hi ho (h sh' hr hi ho)
  | raise e => exact fun sh' hr hi ho => hF _ _ _ (h sh' hr hi ho)
  | call op next ih =>
    intro sh' hr hi ho others input sh'' r hexec
    have := h sh' hr hi ho others input sh'' r hexec
    cases r with
    | error e => exact hF _ _ _ this
    | ok answer => exact ih _ this

theorem wp_bind {Q : S.Shared → S.Local → β → Prop} {p : Program σ φ α}
    {f : α → Program σ φ β} {sh : S.Shared} {l : S.Local}
    (h : p.wp D (fun sh l a => (f a).wp D Q F sh l) F sh l) : (p >>= f).wp D Q F sh l := by
  induction p generalizing sh l with
  | pure a => exact wp_intro h
  | raise e => exact h
  | call op next ih =>
    intro sh' hr hi ho others input sh'' r hexec
    have := h sh' hr hi ho others input sh'' r hexec
    cases r with
    | error e => exact this
    | ok answer => exact ih _ this

theorem wp_map {Q : S.Shared → S.Local → β → Prop} {p : Program σ φ α} {f : α → β}
    {sh : S.Shared} {l : S.Local} (h : p.wp D (fun sh l a => Q sh l (f a)) F sh l) :
    (f <$> p).wp D Q F sh l := by
  induction p generalizing sh l with
  | pure a => exact h
  | raise e => exact h
  | call op next ih =>
    intro sh' hr hi ho others input sh'' r hexec
    have := h sh' hr hi ho others input sh'' r hexec
    cases r with
    | error e => exact this
    | ok answer => exact ih _ this

/-- What no step disturbs still holds when the program ends. -/
theorem wp_frame {Q : S.Shared → Prop} (hQ : ∀ {l sh sh'}, D.Rely l sh sh' → Q sh → Q sh')
    {p : Program σ φ α} {sh : S.Shared} {l : S.Local} (h : p.wp D P F sh l) (hq : Q sh) :
    p.wp D (fun sh l a => Q sh ∧ P sh l a) (fun sh l e => Q sh ∧ F sh l e) sh l := by
  induction p generalizing sh l with
  | pure a => exact fun sh' hr hi ho => ⟨hQ hr hq, h sh' hr hi ho⟩
  | raise e => exact fun sh' hr hi ho => ⟨hQ hr hq, h sh' hr hi ho⟩
  | call op next ih =>
    intro sh' hr hi ho others input sh'' r hexec
    have hnext := h sh' hr hi ho others input sh'' r hexec
    have hq'' : Q sh'' :=
      hQ (D.exec_rely hi ho (D.own_start _) (D.compat_start _) hexec) (hQ hr hq)
    cases r with
    | error e => exact ⟨hq'', hnext⟩
    | ok answer => exact ih _ hnext hq''

end Program

/-! ## Contracts of whole jobs -/

/-- What each transaction of a request owes, given how the earlier ones ended,
and what the request as a whole may answer. -/
structure Contract (S : Store σ φ) (o : Type) : Type where
  commits : List (Ending S o) → S.Shared → S.Local → o → Prop
  fails : List (Ending S o) → S.Shared → S.Local → φ → Prop
  done : List (Ending S o) → Except φ o → Prop

variable {ε o : Type}

/-- The job meets its contract when it starts from `sh`. -/
def Job.Safe (D : Discipline S) (C : Contract S o) :
    Job S o → List (Ending S o) → S.Shared → Prop
  | .done result, past, _ => C.done past result
  | .transactional body next, past, sh =>
    body.wp D
      (fun sh l a => D.Ready sh l ∧ C.commits past sh l a ∧
        (next l (.ok a)).Safe D C (past ++ [.committed sh l a]) (S.commit sh l))
      (fun sh l e => C.fails past sh l e ∧
        (next l (.error e)).Safe D C (past ++ [.failed sh l e]) sh) sh S.start ∧
    ∀ sh' l e, D.Evolve sh sh' → D.Inv sh' → S.outage e →
      (next l (.error e)).Safe D C (past ++ [.failed sh' l e]) sh'

/-- What a session's status promises about the rest of its job. -/
def Status.Sound (D : Discipline S) (C : Contract S o) (past : List (Ending S o))
    (sh : S.Shared) : Status S o → Prop
  | .running l prog next => D.Own sh l ∧
    prog.wp D
      (fun sh l a => D.Ready sh l ∧ C.commits past sh l a ∧
        (next l (.ok a)).Safe D C (past ++ [.committed sh l a]) (S.commit sh l))
      (fun sh l e => C.fails past sh l e ∧
        (next l (.error e)).Safe D C (past ++ [.failed sh l e]) sh) sh l ∧
    ∀ sh' l e, D.Evolve sh sh' → D.Inv sh' → S.outage e →
      (next l (.error e)).Safe D C (past ++ [.failed sh' l e]) sh'
  | .closed result => C.done past result
  | .lost => True

/-- The local state of a status, as `Session.local?`. -/
def Status.local? : Status S o → Option S.Local
  | .running loc _ _ => some loc
  | _ => none

theorem Session.local?_eq (s : Session S ε o) : s.local? = s.status.local? := by
  rcases s with ⟨entry, status⟩
  cases status <;> rfl

variable {D : Discipline S} {C : Contract S o}

theorem Job.Safe.sound_open {job : Job S o} {past : List (Ending S o)} {sh : S.Shared}
    (h : job.Safe D C past sh) : job.open.Sound D C past sh := by
  cases job with
  | done result => exact h
  | transactional body next => exact ⟨D.own_start sh, h.1, h.2⟩

theorem Job.local?_open {job : Job S o} {l : S.Local} (h : job.open.local? = some l) :
    l = S.start := by
  cases job with
  | done result => cases h
  | transactional body next => exact (Option.some.inj h).symm

theorem Status.Sound.rely {status : Status S o} {past : List (Ending S o)} {sh sh' : S.Shared}
    (h : status.Sound D C past sh) (hl : ∀ l, status.local? = some l → D.Rely l sh sh')
    (he : D.Evolve sh sh') : status.Sound D C past sh' := by
  cases status with
  | running l prog next =>
    obtain ⟨own, hwp, rescue⟩ := h
    have hr := hl l rfl
    exact ⟨D.own_rely own hr, Program.wp_rely hwp hr,
      fun sh'' l' e he' => rescue sh'' l' e (D.rely_trans he he')⟩
  | closed result => exact h
  | lost => trivial

/-! ## Endings -/

/-- The ending is one its contract allows, after the endings in `past`. -/
def Ending.Holds (D : Discipline S) (C : Contract S o) (past : List (Ending S o)) :
    Ending S o → Prop
  | .committed sh l a => D.Inv sh ∧ D.Own sh l ∧ D.Ready sh l ∧ C.commits past sh l a
  | .failed sh l e => D.Inv sh ∧ (S.outage e ∨ C.fails past sh l e)

theorem Ending.Holds.inv {ending : Ending S o} {past : List (Ending S o)}
    (h : ending.Holds D C past) : D.Inv ending.before := by
  cases ending with
  | committed sh l a => exact h.1
  | failed sh l e => exact h.1

/-! ## Worlds -/

/-- A world in which every session still owes only what its contract says, and
every recorded ending was allowed when it happened. -/
structure World.Sound (D : Discipline S) (C : ε → Contract S o) (w : World S ε o) : Prop where
  inv : D.Inv w.shared
  statuses : ∀ {i : Nat} {s : Session S ε o}, w.sessions[i]? = some s →
    s.status.Sound D (C s.entry) (w.past i) w.shared
  apart : ∀ {i j : Nat} {s t : Session S ε o} {l m : S.Local}, i ≠ j →
    w.sessions[i]? = some s → w.sessions[j]? = some t → s.local? = some l → t.local? = some m →
      D.Compat l m
  recorded : ∀ {earlier i ending later}, w.history = earlier ++ (i, ending) :: later →
    ∃ s, w.sessions[i]? = some s ∧ ending.Holds D (C s.entry) (World.pastOf i earlier)
  ordered : w.history.Pairwise fun a b => D.Evolve a.2.after b.2.before
  settled : ∀ {h}, h ∈ w.history → D.Evolve h.2.after w.shared

namespace World.Sound

variable {C : ε → Contract S o} {w : World S ε o}

theorem own (h : w.Sound D C) {i : Nat} {s : Session S ε o} {l : S.Local}
    (hs : w.sessions[i]? = some s) (hl : s.local? = some l) : D.Own w.shared l := by
  have hst := h.statuses hs
  rcases s with ⟨entry, status⟩
  cases status with
  | running loc prog next =>
    cases hl
    exact hst.1
  | closed result => cases hl
  | lost => cases hl

/-- The committed state changes under the sessions, none of which moves. -/
theorem shift (h : w.Sound D C) {shared : S.Shared} (hinv : D.Inv shared)
    (hrely : ∀ {l}, D.Own w.shared l → D.Rely l w.shared shared) :
    World.Sound D C { w with shared } where
  inv := hinv
  statuses := fun {_ s} hs => (h.statuses hs).rely
    (fun _ hl => hrely (h.own hs (s.local?_eq.trans hl))) (hrely (D.own_start _))
  apart := h.apart
  recorded := h.recorded
  ordered := h.ordered
  settled := fun hm => D.rely_trans (h.settled hm) (hrely (D.own_start _))

/-- Session `i` moves to `status`, the committed state to `shared`, and the
history gains the ending of `i`'s transaction, if one ended. -/
theorem move (h : w.Sound D C) {i : Nat} {s : Session S ε o}
    (hs : w.sessions[i]? = some s) {shared : S.Shared} (status : Status S o)
    (ending : Option (Ending S o)) (hinv : D.Inv shared)
    (hrely : ∀ {l}, D.Own w.shared l → (∀ m, s.local? = some m → D.Compat m l) →
      D.Rely l w.shared shared)
    (hstatus : status.Sound D (C s.entry) (w.past i ++ ending.toList) shared)
    (hcompat : ∀ {l}, status.local? = some l → ∀ {m}, m ∈ w.others i →
      D.Own w.shared m → (∀ l', s.local? = some l' → D.Compat l' m) → D.Compat l m)
    (hending : ∀ e, ending = some e → e.Holds D (C s.entry) (w.past i) ∧
      D.Evolve w.shared e.before ∧ D.Evolve e.after shared) :
    World.Sound D C { w.setStatus i status with
      shared := shared, history := w.history ++ ending.toList.map (i, ·) } := by
  have hevolve : D.Evolve w.shared shared :=
    hrely (D.own_start _) fun m _ => D.compat_start m
  have hother : ∀ {j t}, i ≠ j → w.sessions[j]? = some t → ∀ m, t.local? = some m →
      ∀ l', s.local? = some l' → D.Compat l' m :=
    fun hne ht m hm l' hl' => h.apart hne hs ht hl' hm
  refine
    { inv := hinv
      statuses := fun {j t} ht => ?statuses
      apart := fun {j k t u l m} hjk ht hu hl hm => ?apart
      recorded := fun {earlier j e later} hsplit => ?recorded
      ordered := ?ordered
      settled := fun {x} hx => ?settled }
  case statuses =>
    simp only [setStatus_getElem?] at ht
    by_cases hij : i = j
    · subst hij
      simp only [hs, if_pos, Option.map_some, Option.some.injEq] at ht
      subst ht
      cases ending with
      | none => simpa [past] using hstatus
      | some e => simpa [past] using hstatus
    · rw [if_neg hij] at ht
      have hp : World.pastOf j (w.history ++ ending.toList.map (i, ·)) = w.past j := by
        cases ending with
        | none => simp [past]
        | some e => simp [past, pastOf_other hij]
      simp only [past, hp]
      refine (h.statuses ht).rely (fun l hl => ?_) hevolve
      have hl' := t.local?_eq.trans hl
      exact hrely (h.own ht hl') fun m hm => hother hij ht l hl' m hm
  case apart =>
    simp only [setStatus_getElem?] at ht hu
    by_cases hij : i = j
    · subst hij
      rw [if_neg hjk] at hu
      simp only [hs, if_pos, Option.map_some, Option.some.injEq] at ht
      subst ht
      rw [Session.local?_eq] at hl
      exact hcompat hl (mem_others.mpr ⟨k, u, Ne.symm hjk, hu, hm⟩) (h.own hu hm)
        (hother hjk hu m hm)
    · rw [if_neg hij] at ht
      by_cases hik : i = k
      · subst hik
        simp only [hs, if_pos, Option.map_some, Option.some.injEq] at hu
        subst hu
        rw [Session.local?_eq] at hm
        exact D.compat_symm (hcompat hm (mem_others.mpr ⟨j, t, hjk, ht, hl⟩) (h.own ht hl)
          (hother hij ht l hl))
      · rw [if_neg hik] at hu
        exact h.apart hjk ht hu hl hm
  case recorded =>
    have hold : ∀ {earlier' later' : List (Nat × Ending S o)},
        w.history = earlier' ++ (j, e) :: later' →
        ∃ t', (w.setStatus i status).sessions[j]? = some t' ∧
          e.Holds D (C t'.entry) (World.pastOf j earlier') := by
      intro earlier' later' heq
      obtain ⟨t, ht, hholds⟩ := h.recorded heq
      obtain ⟨t', ht', hentry⟩ := setStatus_entry i status ht
      exact ⟨t', ht', hentry ▸ hholds⟩
    cases hend : ending with
    | none =>
      rw [hend] at hsplit
      exact hold (by simpa using hsplit)
    | some e' =>
      rw [hend] at hsplit
      simp only [Option.toList_some, List.map_cons, List.map_nil] at hsplit
      rcases List.eq_nil_or_concat later with hnil | ⟨later', last, hlast⟩
      · subst hnil
        obtain ⟨hearlier, hx⟩ := List.append_inj' hsplit rfl
        cases hx
        obtain ⟨t', ht', hentry⟩ := setStatus_entry i status hs
        exact ⟨t', ht', hentry ▸ hearlier ▸ (hending e hend).1⟩
      · subst hlast
        rw [List.concat_eq_append, ← List.cons_append, ← List.append_assoc] at hsplit
        exact hold (List.append_inj' hsplit rfl).1
  case ordered =>
    cases hend : ending with
    | none => simpa using h.ordered
    | some e =>
      simp only [Option.toList_some, List.map_cons, List.map_nil]
      refine List.pairwise_append.mpr ⟨h.ordered, by simp, fun a ha b hb => ?_⟩
      rw [List.mem_singleton] at hb
      subst hb
      exact D.rely_trans (h.settled ha) (hending e hend).2.1
  case settled =>
    rcases List.mem_append.mp hx with hx | hx
    · exact D.rely_trans (h.settled hx) hevolve
    · obtain ⟨e, he, rfl⟩ := List.mem_map.mp hx
      exact (hending e (Option.mem_toList.mp he)).2.2

/-- A new session opens. -/
theorem begin (h : w.Sound D C) {entry : ε} {job : Job S o}
    (hjob : job.Safe D (C entry) [] w.shared) :
    World.Sound D C { w with sessions := w.sessions ++ [⟨entry, job.open⟩] } := by
  have hnew : ∀ {j : Nat} {t : Session S ε o}, (w.sessions ++ [⟨entry, job.open⟩])[j]? = some t →
      w.sessions[j]? = some t ∨ (j = w.sessions.length ∧ t = ⟨entry, job.open⟩) := by
    intro j t ht
    rcases Nat.lt_trichotomy j w.sessions.length with hlt | heq | hgt
    · rw [List.getElem?_append_left hlt] at ht
      exact .inl ht
    · subst heq
      simp only [List.getElem?_concat_length, Option.some.injEq] at ht
      exact .inr ⟨rfl, ht.symm⟩
    · rw [List.getElem?_eq_none
        (by simp only [List.length_append, List.length_singleton]; omega)] at ht
      cases ht
  refine
    { inv := h.inv
      statuses := fun {j t} ht => ?statuses
      apart := fun {j k t u l m} hjk ht hu hl hm => ?apart
      recorded := fun {earlier j e later} hsplit => ?recorded
      ordered := h.ordered
      settled := h.settled }
  case statuses =>
    rcases hnew ht with hold | ⟨hj, ht⟩
    · exact h.statuses hold
    · subst ht
      have hpast : w.past j = [] := by
        refine pastOf_nil fun x hx hxj => ?_
        obtain ⟨earlier, later, hsplit⟩ := List.append_of_mem hx
        obtain ⟨s, hs, -⟩ := h.recorded hsplit
        rw [hxj, hj, List.getElem?_eq_none (Nat.le_refl _)] at hs
        cases hs
      have := hjob.sound_open
      rwa [← hpast] at this
  case apart =>
    rcases hnew ht with ht | ⟨hj, ht⟩ <;> rcases hnew hu with hu | ⟨hk, hu⟩
    · exact h.apart hjk ht hu hl hm
    · subst hu
      rw [Session.local?_eq] at hm
      exact Job.local?_open hm ▸ D.compat_start l
    · subst ht
      rw [Session.local?_eq] at hl
      exact Job.local?_open hl ▸ D.compat_symm (D.compat_start m)
    · exact absurd (hj.trans hk.symm) hjk
  case recorded =>
    obtain ⟨s, hs, hholds⟩ := h.recorded hsplit
    have hlt := (List.getElem?_eq_some_iff.mp hs).1
    exact ⟨s, by rw [List.getElem?_append_left hlt]; exact hs, hholds⟩

/-- The transaction of session `i` ends and its job goes on. -/
theorem close (h : w.Sound D C) {i : Nat} {s : Session S ε o}
    (hs : w.sessions[i]? = some s) {shared : S.Shared} {ending : Ending S o} {job : Job S o}
    (hinv : D.Inv shared)
    (hrely : ∀ {l}, D.Own w.shared l → (∀ m, s.local? = some m → D.Compat m l) →
      D.Rely l w.shared shared)
    (hholds : ending.Holds D (C s.entry) (w.past i)) (hbefore : D.Evolve w.shared ending.before)
    (hafter : ending.after = shared)
    (hjob : job.Safe D (C s.entry) (w.past i ++ [ending]) shared) :
    World.Sound D C ({ w with shared }.close i ending job) := by
  refine h.move hs job.open (some ending) hinv hrely hjob.sound_open
    (fun hl _ _ _ _ => Job.local?_open hl ▸ D.compat_symm (D.compat_start _)) fun e he => ?_
  cases he
  exact ⟨hholds, hbefore, hafter ▸ D.rely_refl _ _⟩

/-- Every step keeps a world sound, when every job is safe on its own. -/
theorem step {units : ε → Job S o} (h : w.Sound D C)
    (hunits : ∀ entry sh, D.Inv sh → (units entry).Safe D (C entry) [] sh)
    {action : Action S ε} {w' : World S ε o} (hstep : w.step units action = some w') :
    w'.Sound D C := by
  cases action with
  | begin entry =>
    simp only [World.step, Option.some.injEq] at hstep
    exact hstep ▸ h.begin (hunits entry _ h.inv)
  | ambient a =>
    simp only [World.step, Option.map_eq_some_iff] at hstep
    obtain ⟨shared, ha, rfl⟩ := hstep
    exact h.shift (D.ambient_inv h.inv ha) (D.ambient_rely h.inv ha)
  | crash i =>
    simp only [World.step] at hstep
    split at hstep
    case h_1 entry loc prog next hs =>
      cases hstep
      have := h.move hs .lost none h.inv
        (fun _ _ => D.rely_refl _ _) trivial (fun hl => by cases hl) (fun e he => by cases he)
      simp only [Option.toList_none, List.map_nil, List.append_nil] at this
      exact this
    case h_2 => cases hstep
  | fail i e =>
    simp only [World.step] at hstep
    split at hstep
    case h_1 entry loc prog next hs =>
      split at hstep
      case isTrue hout =>
        cases hstep
        obtain ⟨-, -, rescue⟩ := h.statuses hs
        exact h.close hs h.inv (fun _ _ => D.rely_refl _ _) ⟨h.inv, .inl hout⟩
          (D.rely_refl _ _) rfl (rescue _ _ _ (D.rely_refl _ _) h.inv hout)
      case isFalse => cases hstep
    case h_2 => cases hstep
  | finish i =>
    simp only [World.step] at hstep
    split at hstep
    case h_1 entry loc a next hs =>
      cases hstep
      obtain ⟨own, hwp, -⟩ := h.statuses hs
      obtain ⟨ready, commits, safe⟩ := hwp w.shared (D.rely_refl _ _) h.inv own
      exact h.close hs (D.commit_inv h.inv own ready)
        (fun own' hcompat => D.commit_rely h.inv own ready own' (hcompat loc rfl))
        ⟨h.inv, own, ready, commits⟩ (D.rely_refl _ _) rfl safe
    case h_2 entry loc e next hs =>
      cases hstep
      obtain ⟨own, hwp, -⟩ := h.statuses hs
      obtain ⟨fails, safe⟩ := hwp w.shared (D.rely_refl _ _) h.inv own
      exact h.close hs h.inv (fun _ _ => D.rely_refl _ _) ⟨h.inv, .inr fails⟩
        (D.rely_refl _ _) rfl safe
    case h_3 => cases hstep
  | exec i input =>
    simp only [World.step] at hstep
    split at hstep
    case h_1 entry loc op rest next hs =>
      obtain ⟨own, hwp, rescue⟩ := h.statuses hs
      have hexec := hwp w.shared (D.rely_refl _ _) h.inv own (w.others i) input
      split at hstep
      case h_1 shared answer loc' hop =>
        cases hstep
        have hinv := D.exec_inv h.inv own hop
        have := h.move hs (.running loc' (rest answer) next) none hinv
          (fun own' hcompat => D.exec_rely h.inv own own' (hcompat loc rfl) hop)
          (by
            simp only [Option.toList_none, List.append_nil]
            exact ⟨D.exec_own h.inv own hop, hexec _ _ hop, fun sh' l e he => rescue sh' l e
              (D.rely_trans (D.exec_rely h.inv own (D.own_start _) (D.compat_start _) hop) he)⟩)
          (fun {l} hl {m} hm own' hcompat => by
            cases hl
            exact D.exec_compat h.inv own own' hm (hcompat loc rfl) hop)
          (fun e he => by cases he)
        simp only [Option.toList_none, List.map_nil, List.append_nil] at this
        exact this
      case h_2 shared e hop =>
        cases hstep
        obtain ⟨fails, safe⟩ := hexec _ _ hop
        have hinv := D.exec_inv h.inv own hop
        exact h.close hs hinv
          (fun own' hcompat => D.exec_rely h.inv own own' (hcompat loc rfl) hop)
          ⟨hinv, .inr fails⟩
          (D.exec_rely h.inv own (D.own_start _) (D.compat_start _) hop) rfl safe
      case h_3 => cases hstep
    case h_2 => cases hstep

/-- Every world that some schedule reaches from a sound one is sound. -/
theorem steps {units : ε → Job S o} (h : w.Sound D C)
    (hunits : ∀ entry sh, D.Inv sh → (units entry).Safe D (C entry) [] sh)
    {w' : World S ε o} (hsteps : World.Steps units w w') : w'.Sound D C := by
  induction hsteps with
  | refl => exact h
  | tail _ last ih =>
    obtain ⟨action, hstep⟩ := last
    exact ih.step hunits hstep

/-- An empty world is sound when its committed state satisfies the invariant. -/
theorem empty {sh : S.Shared} (hinv : D.Inv sh) :
    World.Sound D C ⟨sh, [], []⟩ where
  inv := hinv
  statuses := fun hs => by simp at hs
  apart := fun _ hs => by simp at hs
  recorded := fun hsplit => by simp at hsplit
  ordered := .nil
  settled := fun hm => by simp at hm

end World.Sound

end Interleave
