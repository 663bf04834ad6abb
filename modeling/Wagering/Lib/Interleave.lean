import Mathlib.Data.List.Basic
import Wagering.Lib.Program

/-!
# Interleaved transactions

A `Store` gives the operations of a signature their meaning: the state that
every session sees once it is committed, and the state that a running
transaction keeps to itself (its writes, its locks).  A `Job` is what one
request does: transactions one after the other, each chosen from how the last
one ended.  A `World` runs any number of jobs, one operation of one session at
a time, with failures and crashes wherever the environment puts them.  A commit
that fails has rolled back: one that took effect while its reply was lost is not
among the steps.

`step` is computable: a concrete schedule is a list of actions, and `run`
evaluates it.
-/

namespace Interleave

/-- The meaning of the operations: `exec` runs one for a session with local
state `Local`, next to the local states of the other running sessions, and is
`none` while the operation has to wait.  `outage` marks the failures that may
strike any call. -/
structure Store (σ : Signature) (φ : Type) : Type 1 where
  Shared : Type
  Local : Type
  Input : Type
  Ambient : Type
  start : Local
  exec : Shared → List Local → Local → (op : σ.Op) → Input →
    Option (Shared × Except φ (σ.Answer op × Local))
  commit : Shared → Local → Shared
  ambient : Shared → Ambient → Option Shared
  outage : φ → Bool

variable {σ : Signature} {φ : Type}

/-- What a request does: nothing more, or one transaction and, from the local
state and the result it ended with, the rest. -/
inductive Job (S : Store σ φ) (o : Type) : Type
  | done (result : Except φ o) : Job S o
  | transactional (body : Program σ φ o) (next : S.Local → Except φ o → Job S o) : Job S o

/-- Where a session stands. -/
inductive Status (S : Store σ φ) (o : Type) : Type
  | running (loc : S.Local) (prog : Program σ φ o) (next : S.Local → Except φ o → Job S o)
  | closed (result : Except φ o)
  | lost

/-- A job about to start: its first transaction opens, or it is already over. -/
def Job.open {S : Store σ φ} {o : Type} : Job S o → Status S o
  | .done result => .closed result
  | .transactional body next => .running S.start body next

/-- A request and where its session stands. -/
structure Session (S : Store σ φ) (ε o : Type) : Type where
  entry : ε
  status : Status S o

/-- The local state of a session whose transaction is open. -/
def Session.local? {S : Store σ φ} {ε o : Type} (s : Session S ε o) : Option S.Local :=
  match s.status with
  | .running loc _ _ => some loc
  | _ => none

/-- How a transaction ended, with the committed state it met at that moment. -/
inductive Ending (S : Store σ φ) (o : Type) : Type
  | committed (before : S.Shared) (loc : S.Local) (answer : o)
  | failed (before : S.Shared) (loc : S.Local) (error : φ)

/-- The transaction's own state when it ended. -/
def Ending.loc {S : Store σ φ} {o : Type} : Ending S o → S.Local
  | .committed _ loc _ => loc
  | .failed _ loc _ => loc

/-- The committed state that an ending met. -/
def Ending.before {S : Store σ φ} {o : Type} : Ending S o → S.Shared
  | .committed sh _ _ => sh
  | .failed sh _ _ => sh

/-- The committed state that an ending left behind. -/
def Ending.after {S : Store σ φ} {o : Type} : Ending S o → S.Shared
  | .committed sh loc _ => S.commit sh loc
  | .failed sh _ _ => sh

/-- The committed state, the sessions, and how every transaction so far ended,
oldest first. -/
structure World (S : Store σ φ) (ε o : Type) : Type where
  shared : S.Shared
  sessions : List (Session S ε o)
  history : List (Nat × Ending S o)

/-- One step of the environment's schedule. -/
inductive Action (S : Store σ φ) (ε : Type) : Type
  | begin (entry : ε)
  | exec (i : Nat) (input : S.Input)
  | finish (i : Nat)
  | fail (i : Nat) (error : φ)
  | crash (i : Nat)
  | ambient (a : S.Ambient)

variable {S : Store σ φ} {ε o : Type}

namespace World

/-- The local states of the running sessions other than `i`. -/
def others (w : World S ε o) (i : Nat) : List S.Local :=
  (w.sessions.eraseIdx i).filterMap Session.local?

/-- Session `i` moves to a new status. -/
def setStatus (w : World S ε o) (i : Nat) (status : Status S o) : World S ε o :=
  { w with sessions := w.sessions.modify i fun s => { s with status } }

/-- The transaction of session `i` is over: record how, and go on with the job. -/
def close (w : World S ε o) (i : Nat) (ending : Ending S o) (job : Job S o) : World S ε o :=
  { w.setStatus i job.open with history := w.history ++ [(i, ending)] }

/-- The endings of session `i` in a history, oldest first. -/
def pastOf (i : Nat) (history : List (Nat × Ending S o)) : List (Ending S o) :=
  (history.filter fun h => h.1 = i).map Prod.snd

/-- How the transactions of session `i` ended, oldest first. -/
def past (w : World S ε o) (i : Nat) : List (Ending S o) :=
  pastOf i w.history

/-- One step.  `none`: the action does not apply here, or has to wait. -/
def step (units : ε → Job S o) (w : World S ε o) : Action S ε → Option (World S ε o)
  | .begin entry =>
    some { w with sessions := w.sessions ++ [⟨entry, (units entry).open⟩] }
  | .exec i input =>
    match w.sessions[i]? with
    | some ⟨_, .running loc (.call op rest) next⟩ =>
      match S.exec w.shared (w.others i) loc op input with
      | some (shared, .ok (answer, loc')) =>
        some { w.setStatus i (.running loc' (rest answer) next) with shared }
      | some (shared, .error e) =>
        some ({ w with shared }.close i (.failed shared loc e) (next loc (.error e)))
      | none => none
    | _ => none
  | .finish i =>
    match w.sessions[i]? with
    | some ⟨_, .running loc (.pure a) next⟩ =>
      some ({ w with shared := S.commit w.shared loc }.close i
        (.committed w.shared loc a) (next loc (.ok a)))
    | some ⟨_, .running loc (.raise e) next⟩ =>
      some (w.close i (.failed w.shared loc e) (next loc (.error e)))
    | _ => none
  | .fail i e =>
    match w.sessions[i]? with
    | some ⟨_, .running loc _ next⟩ =>
      if S.outage e then some (w.close i (.failed w.shared loc e) (next loc (.error e)))
      else none
    | _ => none
  | .crash i =>
    match w.sessions[i]? with
    | some ⟨_, .running _ _ _⟩ => some (w.setStatus i .lost)
    | _ => none
  | .ambient a => (S.ambient w.shared a).map fun shared => { w with shared }

/-- A whole schedule. -/
def run (units : ε → Job S o) (w : World S ε o) : List (Action S ε) → Option (World S ε o)
  | [] => some w
  | a :: rest => (w.step units a).bind fun w' => w'.run units rest

/-- Some action leads from `w` to `w'`. -/
def Next (units : ε → Job S o) (w w' : World S ε o) : Prop :=
  ∃ a, w.step units a = some w'

/-- Reachability: any schedule at all. -/
abbrev Steps (units : ε → Job S o) : World S ε o → World S ε o → Prop :=
  Relation.ReflTransGen (Next units)

theorem Steps.of_run {units : ε → Job S o} {actions : List (Action S ε)} :
    ∀ {w w' : World S ε o}, w.run units actions = some w' → Steps units w w' := by
  induction actions with
  | nil =>
    intro w w' h
    cases h
    exact .refl
  | cons a rest ih =>
    intro w w' h
    rw [run, Option.bind_eq_some_iff] at h
    obtain ⟨mid, first, later⟩ := h
    exact .head ⟨a, first⟩ (ih later)

/-! ## What the parts of a step do -/

theorem setStatus_getElem? (w : World S ε o) (i j : Nat) (status : Status S o) :
    (w.setStatus i status).sessions[j]? =
      if i = j then w.sessions[j]?.map fun s => { s with status } else w.sessions[j]? := by
  simp only [setStatus, List.getElem?_modify]
  split <;> simp

@[simp] theorem setStatus_shared (w : World S ε o) (i : Nat) (status : Status S o) :
    (w.setStatus i status).shared = w.shared := rfl

@[simp] theorem setStatus_history (w : World S ε o) (i : Nat) (status : Status S o) :
    (w.setStatus i status).history = w.history := rfl

theorem mem_others {w : World S ε o} {i : Nat} {l : S.Local} :
    l ∈ w.others i ↔ ∃ j s, j ≠ i ∧ w.sessions[j]? = some s ∧ s.local? = some l := by
  simp only [others, List.mem_filterMap, List.mem_eraseIdx_iff_getElem?]
  constructor
  · rintro ⟨s, ⟨j, hne, hj⟩, hl⟩
    exact ⟨j, s, hne, hj, hl⟩
  · rintro ⟨j, s, hne, hj, hl⟩
    exact ⟨s, ⟨j, hne, hj⟩, hl⟩

@[simp] theorem pastOf_append (i : Nat) (h h' : List (Nat × Ending S o)) :
    pastOf i (h ++ h') = pastOf i h ++ pastOf i h' := by
  simp [pastOf]

@[simp] theorem pastOf_self (i : Nat) (ending : Ending S o) :
    pastOf i [(i, ending)] = [ending] := by
  simp [pastOf]

theorem pastOf_other {i j : Nat} (hne : i ≠ j) (ending : Ending S o) :
    pastOf j [(i, ending)] = [] := by
  simp [pastOf, hne]

theorem mem_pastOf {i : Nat} {ending : Ending S o} {history : List (Nat × Ending S o)} :
    ending ∈ pastOf i history ↔ (i, ending) ∈ history := by
  simp [pastOf]

theorem pastOf_nil {i : Nat} {history : List (Nat × Ending S o)}
    (h : ∀ x ∈ history, x.1 ≠ i) : pastOf i history = [] := by
  simpa [pastOf] using h

/-! ## What a run leaves behind -/

theorem setStatus_entry (i : Nat) (status : Status S o) {w : World S ε o} {j : Nat}
    {s : Session S ε o} (hs : w.sessions[j]? = some s) :
    ∃ s', (w.setStatus i status).sessions[j]? = some s' ∧ s'.entry = s.entry := by
  rw [setStatus_getElem?]
  split
  · exact ⟨{ s with status }, by rw [hs, Option.map_some], rfl⟩
  · exact ⟨s, hs, rfl⟩

theorem entry_of_setStatus {w : World S ε o} {i : Nat} {status : Status S o}
    {s : Session S ε o} (hs : s ∈ (w.setStatus i status).sessions) :
    ∃ t ∈ w.sessions, t.entry = s.entry := by
  obtain ⟨j, hj⟩ := List.mem_iff_getElem?.mp hs
  rw [setStatus_getElem?] at hj
  split at hj
  · obtain ⟨t, ht, rfl⟩ := Option.map_eq_some_iff.mp hj
    exact ⟨t, List.mem_of_getElem? ht, rfl⟩
  · exact ⟨s, List.mem_of_getElem? hj, rfl⟩

/-- A session answers the request that began it. -/
theorem step_entries {units : ε → Job S o} {w w' : World S ε o} {action : Action S ε}
    (h : w.step units action = some w') {s : Session S ε o} (hs : s ∈ w'.sessions) :
    (∃ t ∈ w.sessions, t.entry = s.entry) ∨ action = .begin s.entry := by
  cases action with
  | begin entry =>
    simp only [step, Option.some.injEq] at h
    subst h
    rcases List.mem_append.mp hs with hs | hs
    · exact .inl ⟨s, hs, rfl⟩
    · rw [List.mem_singleton.mp hs]
      exact .inr rfl
  | exec i input =>
    simp only [step] at h
    split at h
    case h_1 =>
      split at h
      case h_1 =>
        cases h
        exact .inl (entry_of_setStatus hs)
      case h_2 =>
        cases h
        exact .inl (entry_of_setStatus hs)
      case h_3 => cases h
    case h_2 => cases h
  | finish i =>
    simp only [step] at h
    split at h
    case h_1 =>
      cases h
      exact .inl (entry_of_setStatus hs)
    case h_2 =>
      cases h
      exact .inl (entry_of_setStatus hs)
    case h_3 => cases h
  | fail i e =>
    simp only [step] at h
    split at h
    case h_1 =>
      split at h
      case isTrue =>
        cases h
        exact .inl (entry_of_setStatus hs)
      case isFalse => cases h
    case h_2 => cases h
  | crash i =>
    simp only [step] at h
    split at h
    case h_1 =>
      cases h
      exact .inl (entry_of_setStatus hs)
    case h_2 => cases h
  | ambient a =>
    simp only [step, Option.map_eq_some_iff] at h
    obtain ⟨shared, -, rfl⟩ := h
    exact .inl ⟨s, hs, rfl⟩

/-- The ending is a commit. -/
def isCommit : Ending S o → Bool
  | .committed _ _ _ => true
  | .failed _ _ _ => false

/-- The commits of a history, with their sessions, oldest first. -/
def commitsOf (history : List (Nat × Ending S o)) : List (Nat × Ending S o) :=
  history.filter fun h => isCommit h.2

@[simp] theorem commitsOf_append (h h' : List (Nat × Ending S o)) :
    commitsOf (h ++ h') = commitsOf h ++ commitsOf h' := by
  simp [commitsOf]

@[simp] theorem commitsOf_failed (i : Nat) (sh : S.Shared) (l : S.Local) (e : φ) :
    commitsOf [((i, .failed sh l e) : Nat × Ending S o)] = [] := rfl

@[simp] theorem commitsOf_committed (i : Nat) (sh : S.Shared) (l : S.Local) (a : o) :
    commitsOf [(i, .committed sh l a)] = [(i, .committed sh l a)] := rfl

/-- The history only grows, and sessions keep their request. -/
structure Extends (w w' : World S ε o) : Prop where
  history : w.history <+: w'.history
  entries : ∀ {j : Nat} {s : Session S ε o}, w.sessions[j]? = some s →
    ∃ s', w'.sessions[j]? = some s' ∧ s'.entry = s.entry

theorem Extends.refl (w : World S ε o) : w.Extends w :=
  ⟨List.prefix_refl _, fun hs => ⟨_, hs, rfl⟩⟩

theorem Extends.trans {u v w : World S ε o} (h : u.Extends v) (h' : v.Extends w) :
    u.Extends w where
  history := h.history.trans h'.history
  entries := fun hs => by
    obtain ⟨s', hs', he⟩ := h.entries hs
    obtain ⟨s'', hs'', he'⟩ := h'.entries hs'
    exact ⟨s'', hs'', he'.trans he⟩

/-- What one step does to the committed state: nothing but an operation, the
environment, or one commit, which the history records. -/
theorem step_cases {units : ε → Job S o} {w w' : World S ε o} {action : Action S ε}
    (h : w.step units action = some w') :
    w.Extends w' ∧
      (commitsOf w'.history = commitsOf w.history ∧
          (w'.shared = w.shared ∨
            (∃ others l op input r, S.exec w.shared others l op input = some (w'.shared, r)) ∨
            ∃ a, action = .ambient a ∧ S.ambient w.shared a = some w'.shared) ∨
        ∃ i l a, w'.shared = S.commit w.shared l ∧
          w'.history = w.history ++ [(i, .committed w.shared l a)]) := by
  have hset : ∀ (i : Nat) (status : Status S o) (shared : S.Shared),
      w.Extends { w.setStatus i status with shared } :=
    fun i status shared => ⟨List.prefix_refl _, setStatus_entry i status⟩
  have hclose : ∀ (i : Nat) (ending : Ending S o) (job : Job S o) (shared : S.Shared),
      w.Extends ({ w with shared }.close i ending job) :=
    fun i ending job shared => ⟨List.prefix_append _ _, setStatus_entry i job.open⟩
  cases action with
  | begin entry =>
    simp only [step, Option.some.injEq] at h
    subst h
    refine ⟨⟨List.prefix_refl _, fun {j s} hs => ⟨s, ?_, rfl⟩⟩, .inl ⟨rfl, .inl rfl⟩⟩
    rw [List.getElem?_append_left (List.getElem?_eq_some_iff.mp hs).1]
    exact hs
  | exec i input =>
    simp only [step] at h
    split at h
    case h_1 entry loc op rest next hs =>
      split at h
      case h_1 shared answer loc' hop =>
        cases h
        exact ⟨hset _ _ _, .inl ⟨rfl, .inr (.inl ⟨_, _, _, _, _, hop⟩)⟩⟩
      case h_2 shared e hop =>
        cases h
        exact ⟨hclose _ _ _ _, .inl ⟨by simp [close], .inr (.inl ⟨_, _, _, _, _, hop⟩)⟩⟩
      case h_3 => cases h
    case h_2 => cases h
  | finish i =>
    simp only [step] at h
    split at h
    case h_1 entry loc a next hs =>
      cases h
      exact ⟨hclose _ _ _ _, .inr ⟨i, loc, a, rfl, rfl⟩⟩
    case h_2 entry loc e next hs =>
      cases h
      exact ⟨hclose _ _ _ _, .inl ⟨by simp [close], .inl rfl⟩⟩
    case h_3 => cases h
  | fail i e =>
    simp only [step] at h
    split at h
    case h_1 entry loc prog next hs =>
      split at h
      case isTrue =>
        cases h
        exact ⟨hclose _ _ _ _, .inl ⟨by simp [close], .inl rfl⟩⟩
      case isFalse => cases h
    case h_2 => cases h
  | crash i =>
    simp only [step] at h
    split at h
    case h_1 =>
      cases h
      exact ⟨hset _ _ _, .inl ⟨rfl, .inl rfl⟩⟩
    case h_2 => cases h
  | ambient a =>
    simp only [step, Option.map_eq_some_iff] at h
    obtain ⟨shared, ha, rfl⟩ := h
    exact ⟨⟨List.prefix_refl _, fun hs => ⟨_, hs, rfl⟩⟩, .inl ⟨rfl, .inr (.inr ⟨a, rfl, ha⟩)⟩⟩

theorem Steps.extends {units : ε → Job S o} {w w' : World S ε o} (h : Steps units w w') :
    w.Extends w' := by
  induction h with
  | refl => exact .refl _
  | tail _ last ih =>
    obtain ⟨action, hstep⟩ := last
    exact ih.trans (step_cases hstep).1

/-- What holds of the committed state now and did not at the beginning, and what
neither operations nor the environment can bring about, some recorded commit
has brought about. -/
theorem Steps.origin {units : ε → Job S o} {p : S.Shared → Prop}
    (hexec : ∀ {sh others l op input sh' r}, S.exec sh others l op input = some (sh', r) →
      p sh' → p sh)
    (hambient : ∀ {sh a sh'}, S.ambient sh a = some sh' → p sh' → p sh)
    {w w' : World S ε o} (h : Steps units w w') (hp : p w'.shared) :
    p w.shared ∨ ∃ i sh l a, (i, Ending.committed sh l a) ∈ w'.history ∧
      ¬ p sh ∧ p (S.commit sh l) := by
  induction h with
  | refl => exact .inl hp
  | @tail mid w' _ last ih =>
    obtain ⟨action, hstep⟩ := last
    obtain ⟨hextends, hshared⟩ := step_cases hstep
    have hearlier : p mid.shared → p w.shared ∨ ∃ i sh l a,
        (i, Ending.committed sh l a) ∈ w'.history ∧ ¬ p sh ∧ p (S.commit sh l) := by
      intro hmid
      rcases ih hmid with h | ⟨i, sh, l, a, hmem, h⟩
      · exact .inl h
      · exact .inr ⟨i, sh, l, a, hextends.history.subset hmem, h⟩
    rcases hshared with
      ⟨-, heq | ⟨others, l, op, input, r, hop⟩ | ⟨a, -, ha⟩⟩ | ⟨i, l, a, heq, hhist⟩
    · exact hearlier (heq ▸ hp)
    · exact hearlier (hexec hop hp)
    · exact hearlier (hambient ha hp)
    · by_cases hmid : p mid.shared
      · exact hearlier hmid
      · exact .inr ⟨i, mid.shared, l, a, by rw [hhist]; simp, hmid, heq ▸ hp⟩

/-- The session keeps to `P`, in the transaction that is open and in those it ended. -/
def Keeps (P : S.Local → Prop) (w : World S ε o) (j : Nat) : Prop :=
  (∀ s l, w.sessions[j]? = some s → s.local? = some l → P l) ∧
    ∀ ending, (j, ending) ∈ w.history → P ending.loc

theorem Keeps.setStatus {P : S.Local → Prop} {w : World S ε o} {i j : Nat}
    (h : w.Keeps P j) (status : Status S o) (shared : S.Shared)
    (hstatus : ∀ s l, (⟨s, status⟩ : Session S ε o).local? = some l → P l) :
    Keeps P { w.setStatus i status with shared } j := by
  refine ⟨fun s l hs hl => ?_, h.2⟩
  simp only [setStatus_getElem?] at hs
  split at hs
  · rw [Option.map_eq_some_iff] at hs
    obtain ⟨t, -, rfl⟩ := hs
    exact hstatus _ _ hl
  · exact h.1 s l hs hl

theorem Keeps.close {P : S.Local → Prop} {w : World S ε o} {i j : Nat}
    (h : w.Keeps P j) (hstart : P S.start) (ending : Ending S o) (job : Job S o)
    (hending : i = j → P ending.loc) : Keeps P (w.close i ending job) j := by
  refine ⟨(h.setStatus job.open w.shared fun entry l hl => ?_).1, fun e he => ?_⟩
  · cases job with
    | done result => cases hl
    | transactional body next =>
      cases hl
      exact hstart
  · rcases List.mem_append.mp he with he | he
    · exact h.2 e he
    · cases List.mem_singleton.mp he
      exact hending rfl

/-- What no call takes away from a session's own state stays, as long as the
committed state satisfies `Q`. -/
theorem step_keeps {units : ε → Job S o} {P : S.Local → Prop} {w w' : World S ε o}
    {action : Action S ε} (hstart : P S.start)
    (hexec : ∀ {others l op input sh' a l'}, P l →
      S.exec w.shared others l op input = some (sh', .ok (a, l')) → P l')
    (hstep : w.step units action = some w') {j : Nat} (h : w.Keeps P j) : w'.Keeps P j := by
  cases action with
  | begin entry =>
    simp only [step, Option.some.injEq] at hstep
    subst hstep
    refine ⟨fun s l hs hl => ?_, h.2⟩
    rw [List.getElem?_append] at hs
    split at hs
    · exact h.1 s l hs hl
    · rw [List.getElem?_singleton] at hs
      split at hs
      · cases hs
        cases hjob : units entry with
        | done result =>
          rw [hjob] at hl
          cases hl
        | transactional body next =>
          rw [hjob] at hl
          cases hl
          exact hstart
      · cases hs
  | exec i input =>
    simp only [step] at hstep
    split at hstep
    case h_1 entry loc op rest next hs =>
      split at hstep
      case h_1 shared answer loc' hop =>
        cases hstep
        by_cases hij : i = j
        · subst hij
          exact h.setStatus _ _ fun s l hl => by
            cases hl
            exact hexec (h.1 _ _ hs rfl) hop
        · refine ⟨fun s l hs' hl => ?_, h.2⟩
          simp only [setStatus_getElem?, if_neg hij] at hs'
          exact h.1 s l hs' hl
      case h_2 shared e hop =>
        cases hstep
        have hw : Keeps P { w with shared } j := h
        exact hw.close hstart _ _ fun hij => (hij ▸ h).1 _ _ hs rfl
      case h_3 => cases hstep
    case h_2 => cases hstep
  | finish i =>
    simp only [step] at hstep
    split at hstep
    case h_1 entry loc a next hs =>
      cases hstep
      have hw : Keeps P { w with shared := S.commit w.shared loc } j := h
      exact hw.close hstart _ _ fun hij => (hij ▸ h).1 _ _ hs rfl
    case h_2 entry loc e next hs =>
      cases hstep
      exact h.close hstart _ _ fun hij => (hij ▸ h).1 _ _ hs rfl
    case h_3 => cases hstep
  | fail i e =>
    simp only [step] at hstep
    split at hstep
    case h_1 entry loc prog next hs =>
      split at hstep
      case isTrue =>
        cases hstep
        exact h.close hstart _ _ fun hij => (hij ▸ h).1 _ _ hs rfl
      case isFalse => cases hstep
    case h_2 => cases hstep
  | crash i =>
    simp only [step] at hstep
    split at hstep
    case h_1 =>
      cases hstep
      exact h.setStatus _ w.shared fun s l hl => by cases hl
    case h_2 => cases hstep
  | ambient a =>
    simp only [step, Option.map_eq_some_iff] at hstep
    obtain ⟨shared, ha, rfl⟩ := hstep
    exact h

theorem Keeps.mono {P Q : S.Local → Prop} {w : World S ε o} {j : Nat} (h : w.Keeps P j)
    (hPQ : ∀ l, P l → Q l) : w.Keeps Q j :=
  ⟨fun s l hs hl => hPQ l (h.1 s l hs hl), fun ending he => hPQ _ (h.2 ending he)⟩

/-- A session that has not begun keeps to anything. -/
theorem Keeps.unborn {P : S.Local → Prop} {w : World S ε o} {j : Nat}
    (hj : w.sessions.length ≤ j) (hhistory : ∀ ending, (j, ending) ∉ w.history) : w.Keeps P j :=
  ⟨fun _ _ hs => absurd (List.getElem?_eq_some_iff.mp hs).1 (Nat.not_lt.mpr hj),
    fun ending he => absurd he (hhistory ending)⟩

/-- What grows with the run and no call takes away holds of a session at its end. -/
theorem Steps.keeps {units : ε → Job S o} {P : World S ε o → S.Local → Prop}
    {w w' : World S ε o} (h : Steps units w w')
    (hmono : ∀ {u v l}, Next units u v → P u l → P v l) (hstart : ∀ u, P u S.start)
    (hexec : ∀ {u v : World S ε o} {others l op input sh' a l'}, Steps units w u →
      Next units u v → P v l → S.exec u.shared others l op input = some (sh', .ok (a, l')) → P v l')
    {j : Nat} (hj : w.Keeps (P w) j) : w'.Keeps (P w') j := by
  induction h with
  | refl => exact hj
  | @tail mid w' before last ih =>
    obtain ⟨action, hstep⟩ := last
    exact step_keeps (hstart w') (fun hl hop => hexec before ⟨action, hstep⟩ hl hop) hstep
      (ih.mono fun l hl => hmono ⟨action, hstep⟩ hl)

/-- A step records endings only in the committed state before it or after it. -/
theorem step_records {units : ε → Job S o} {w w' : World S ε o} {action : Action S ε}
    (hstep : w.step units action = some w') {x : Nat × Ending S o} (hx : x ∈ w'.history) :
    x ∈ w.history ∨ x.2.before = w.shared ∨ x.2.before = w'.shared := by
  have hclose : ∀ {i : Nat} {ending : Ending S o},
      x ∈ w.history ++ [(i, ending)] → x ∈ w.history ∨ x.2 = ending := by
    intro i ending hx
    rcases List.mem_append.mp hx with h | h
    · exact .inl h
    · exact .inr (by rw [List.mem_singleton.mp h])
  cases action with
  | begin entry =>
    simp only [step, Option.some.injEq] at hstep
    subst hstep
    exact .inl hx
  | exec i input =>
    simp only [step] at hstep
    split at hstep
    case h_1 =>
      split at hstep
      case h_1 =>
        cases hstep
        exact .inl hx
      case h_2 =>
        cases hstep
        exact (hclose hx).imp_right fun h => .inr (by rw [h]; rfl)
      case h_3 => cases hstep
    case h_2 => cases hstep
  | finish i =>
    simp only [step] at hstep
    split at hstep
    case h_1 =>
      cases hstep
      exact (hclose hx).imp_right fun h => .inl (by rw [h]; rfl)
    case h_2 =>
      cases hstep
      exact (hclose hx).imp_right fun h => .inl (by rw [h]; rfl)
    case h_3 => cases hstep
  | fail i e =>
    simp only [step] at hstep
    split at hstep
    case h_1 =>
      split at hstep
      case isTrue =>
        cases hstep
        exact (hclose hx).imp_right fun h => .inl (by rw [h]; rfl)
      case isFalse => cases hstep
    case h_2 => cases hstep
  | crash i =>
    simp only [step] at hstep
    split at hstep
    case h_1 =>
      cases hstep
      exact .inl hx
    case h_2 => cases hstep
  | ambient a =>
    simp only [step, Option.map_eq_some_iff] at hstep
    obtain ⟨shared, ha, rfl⟩ := hstep
    exact .inl hx

/-- Every ending met a committed state of the run. -/
theorem Steps.met {units : ε → Job S o} {w w' : World S ε o} (h : Steps units w w')
    {x : Nat × Ending S o} (hx : x ∈ w'.history) :
    x ∈ w.history ∨ ∃ mid, Steps units w mid ∧ Steps units mid w' ∧ x.2.before = mid.shared := by
  induction h with
  | refl => exact .inl hx
  | @tail mid w' before last ih =>
    obtain ⟨action, hstep⟩ := last
    rcases step_records hstep hx with hold | heq | heq
    · refine (ih hold).imp_right ?_
      rintro ⟨u, hu, hmid, heq⟩
      exact ⟨u, hu, .tail hmid ⟨action, hstep⟩, heq⟩
    · exact .inr ⟨mid, before, .single ⟨action, hstep⟩, heq⟩
    · exact .inr ⟨w', .tail before ⟨action, hstep⟩, .refl, heq⟩

end World

end Interleave
