import Mathlib.Data.List.Infix
import Wagering.Lib.Pursuit
import Wagering.Text

/-!
# Failures of the database

`infrastructure/persistence/postgres-errors.ts`: which errors a resend may cure,
and which ones are lock conflicts.  An error is wrapped by the layers above the
driver, so both questions go through the causes of an error, and the objects of
a `heap` may refer to each other in any way.
-/

namespace Wagering

open Text Pursuit

/-- A value that is thrown, or a property of one.  What is neither a string nor
an object has none of the properties that are asked for. -/
inductive ErrorValue (ι : Type) : Type
  | undefined
  | null
  | text (value : Text)
  | other
  | object (i : ι)

/-- The properties of an error object that the classification reads. -/
structure ErrorObject (ι : Type) : Type where
  code : ErrorValue ι
  errno : ErrorValue ι
  sqlState : ErrorValue ι
  message : ErrorValue ι
  previous : ErrorValue ι
  cause : ErrorValue ι

section Values

variable {ι : Type}

/-- The string that a value is. -/
def ErrorValue.text? : ErrorValue ι → Option Text
  | .text value => some value
  | _ => none

/-- The object that a value is. -/
def ErrorValue.object? : ErrorValue ι → Option ι
  | .object i => some i
  | _ => none

/-- `value ?? fallback`. -/
def ErrorValue.orElse (value fallback : ErrorValue ι) : ErrorValue ι :=
  match value with
  | .undefined | .null => fallback
  | value => value

/-- `link.previous ?? link.cause`. -/
def ErrorObject.link (o : ErrorObject ι) : ErrorValue ι := o.previous.orElse o.cause

end Values

/-- `TRANSIENT_SQLSTATES`. -/
def transientSqlStates : List Text :=
  ["40001", "40P01", "55P03", "53300", "57P01", "57P02", "57P03"].map utf16

/-- `LockConflictReason`. -/
inductive LockConflictReason : Type
  | lockTimeout | deadlock
deriving DecidableEq

/-- `LOCK_CONFLICT_REASONS`. -/
def lockConflictReasons : List (Text × LockConflictReason) :=
  [(utf16 "55P03", .lockTimeout), (utf16 "40P01", .deadlock)]

/-- `TRANSIENT_CONNECTION_STATES`. -/
def transientConnectionStates : List Text :=
  ["08000", "08001", "08003", "08004", "08006", "08007"].map utf16

/-- `TRANSIENT_SOCKET_CODES`. -/
def transientSocketCodes : List Text :=
  ["ECONNRESET", "ECONNREFUSED", "ECONNABORTED", "EPIPE", "ETIMEDOUT", "EHOSTUNREACH",
    "ENETUNREACH", "ENETDOWN", "ENOTFOUND", "EAI_AGAIN"].map utf16

/-- `TRANSIENT_MESSAGES`, without the flag `i`. -/
def transientMessages : List Text :=
  ["connection terminated", "connection ended", "server closed the connection", "socket hang up",
    "timeout exceeded when trying to connect", "pool is draining"].map utf16

/-- The text as the flag `i` compares it with a pattern in lower case: only ASCII
letters have a case that a pattern of ASCII letters can match. -/
def foldCase (t : Text) : Text := t.map fun u => if isUpper u then u + 32 else u

/-- `pattern.test(message)`. -/
def testPattern (pattern message : Text) : Bool := pattern <:+: foldCase message

/-- `/^[0-9A-Z]{5}$/`. -/
def isSqlState (t : Text) : Bool := t.length = 5 && t.all fun u => isDigit u || isUpper u

/-! ## The walks along the causes -/

section Walks

variable {ι τ : Type}

/-- `sqlStateOf`, of an object. -/
def sqlStateOf (o : ErrorObject ι) : Option Text :=
  [o.code, o.errno, o.sqlState].findSome? fun value => value.text?.filter isSqlState

/-- The object that an object links to. -/
def causeOf (heap : ι → ErrorObject ι) (i : ι) : Option ι := (heap i).link.object?

/-- What `isTransientConnectionLoss` asks of one object. -/
def losesConnection (o : ErrorObject ι) : Bool :=
  (o.code.text?.any fun code => transientSocketCodes.contains code) ||
    o.message.text?.any fun message => transientMessages.any fun pattern =>
      testPattern pattern message

variable [Fintype ι] [DecidableEq ι] (heap : ι → ErrorObject ι) (error : ErrorValue ι)

/-- `findInCauseChain`. -/
def findInCauseChain (pick : Text → Option τ) : Option τ :=
  pursue (causeOf heap) (fun i => (sqlStateOf (heap i)).bind pick) ∅ error.object?

/-- `isTransientConnectionLoss`, a walk of its own. -/
def isTransientConnectionLoss : Bool :=
  (pursue (causeOf heap) (fun i => if losesConnection (heap i) then some true else none) ∅
    error.object?).getD false

/-- `isTransientDatabaseFailure`. -/
def isTransientDatabaseFailure : Bool :=
  let bySqlState :=
    (findInCauseChain heap error fun state =>
      if transientSqlStates.contains state || transientConnectionStates.contains state then
        some true
      else none).getD false
  bySqlState || isTransientConnectionLoss heap error

/-- `lockConflictReason`. -/
def lockConflictReason : Option LockConflictReason :=
  findInCauseChain heap error fun state => lockConflictReasons.lookup state

end Walks

/-! ## What one object says -/

section Objects

variable {ι : Type} {o : ErrorObject ι} {state : Text}

/-- The value is a well-formed SQLSTATE. -/
def ErrorValue.IsState (value : ErrorValue ι) (state : Text) : Prop :=
  value = .text state ∧ isSqlState state = true

/-- The first well-formed SQLSTATE among the three properties. -/
inductive FirstState (o : ErrorObject ι) (state : Text) : Prop
  | code (h : o.code.IsState state)
  | errno (code : ∀ s, ¬ o.code.IsState s) (h : o.errno.IsState state)
  | sqlState (code : ∀ s, ¬ o.code.IsState s) (errno : ∀ s, ¬ o.errno.IsState s)
    (h : o.sqlState.IsState state)

/-- The object alone tells that a resend may help. -/
inductive Transient (o : ErrorObject ι) : Prop
  | state {state : Text} (first : FirstState o state)
    (mem : state ∈ transientSqlStates ∨ state ∈ transientConnectionStates)
  | socket {code : Text} (has : o.code = .text code) (mem : code ∈ transientSocketCodes)
  | message {message pattern : Text} (has : o.message = .text message)
    (mem : pattern ∈ transientMessages) (found : testPattern pattern message = true)

theorem filter_isSqlState {value : ErrorValue ι} :
    value.text?.filter isSqlState = some state ↔ value.IsState state := by
  cases value <;> simp [ErrorValue.text?, ErrorValue.IsState, Option.filter_eq_some_iff]

theorem filter_isSqlState_none {value : ErrorValue ι} :
    value.text?.filter isSqlState = none ↔ ∀ s, ¬ value.IsState s := by
  simp only [Option.eq_none_iff_forall_ne_some, ne_eq, filter_isSqlState]

/-- `sqlStateOf` finds the first one. -/
theorem sqlStateOf_eq_some : sqlStateOf o = some state ↔ FirstState o state := by
  simp only [sqlStateOf, List.findSome?_cons, List.findSome?_nil]
  constructor
  · intro h
    split at h
    · cases h
      exact .code (filter_isSqlState.mp ‹_›)
    · have hcode := filter_isSqlState_none.mp ‹_›
      split at h
      · cases h
        exact .errno hcode (filter_isSqlState.mp ‹_›)
      · have herrno := filter_isSqlState_none.mp ‹_›
        split at h
        · cases h
          exact .sqlState hcode herrno (filter_isSqlState.mp ‹_›)
        · cases h
  · rintro (h | ⟨hcode, h⟩ | ⟨hcode, herrno, h⟩)
    · rw [filter_isSqlState.mpr h]
    · rw [filter_isSqlState_none.mpr hcode, filter_isSqlState.mpr h]
    · rw [filter_isSqlState_none.mpr hcode, filter_isSqlState_none.mpr herrno,
        filter_isSqlState.mpr h]

theorem text?_any {value : ErrorValue ι} {p : Text → Bool} :
    value.text?.any p = true ↔ ∃ t, value = .text t ∧ p t = true := by
  cases value <;> simp [ErrorValue.text?]

theorem losesConnection_iff : losesConnection o = true ↔
    (∃ code, o.code = .text code ∧ code ∈ transientSocketCodes) ∨
      ∃ message, o.message = .text message ∧
        ∃ pattern ∈ transientMessages, testPattern pattern message = true := by
  simp only [losesConnection, Bool.or_eq_true, text?_any, List.contains_iff_mem, List.any_eq_true]

/-- The states of lock conflicts are transient. -/
theorem lockConflictReasons_transient (h : (lockConflictReasons.lookup state).isSome = true) :
    state ∈ transientSqlStates := by
  by_cases htimeout : state = utf16 "55P03"
  · rw [htimeout]
    decide
  · by_cases hdeadlock : state = utf16 "40P01"
    · rw [hdeadlock]
      decide
    · rw [lockConflictReasons, List.lookup_cons, beq_false_of_ne htimeout, List.lookup_cons,
        beq_false_of_ne hdeadlock] at h
      cases h

end Objects

end Wagering
