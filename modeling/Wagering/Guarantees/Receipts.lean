import Mathlib.Algebra.Order.BigOperators.Group.List
import Mathlib.Tactic.Linarith
import Wagering.Guarantees.Groups
import Wagering.Lib.Serving

/-!
# Receipts of a batch

The messages of a batch are received together, and each one's visibility window
starts then.  `pollOnce` restarts the window of a message only when it turns to
that message, so a window outlasts the wait exactly when all messages but the
last are handled before it runs out.
-/

namespace Wagering

open Text Interleave

/-- `VISIBILITY_TIMEOUT_SECONDS`, with which the queue is created too. -/
def visibilityTimeoutSeconds : Nat := 60

/-! ## The queue, with a clock -/

/-- The seconds since the batch was received, the number of messages that the
worker has turned to, the moment each message's window runs out, by its place
in the batch, and whether one ran out on a message that was queued or in hand. -/
structure Windows : Type where
  clock : ℚ
  turns : Nat
  deadline : Nat → ℚ
  lapsed : Bool

/-- When the batch is received. -/
def Windows.received : Windows := ⟨0, 0, fun _ => visibilityTimeoutSeconds, false⟩

/-- The window of a message that is queued or in hand has run out. -/
def Windows.overdue (size : Nat) (w : Windows) : Bool :=
  (List.range size).any fun place => w.turns ≤ place + 1 && w.deadline place ≤ w.clock

/-- The clock goes on. -/
def Windows.pass (size : Nat) (seconds : ℚ) (w : Windows) : Windows :=
  let next := { w with clock := w.clock + seconds }
  { next with lapsed := w.lapsed || next.overdue size }

/-- The windows after `ChangeMessageVisibility` on the message in hand. -/
def Windows.change (seconds : ℚ) (w : Windows) : Windows :=
  { w with
    deadline := fun place => if place + 1 = w.turns then w.clock + seconds else w.deadline place }

section Time

variable {size : Nat} {a b : ℚ} {w : Windows}

theorem Windows.overdue_iff : w.overdue size = true ↔
    ∃ place < size, w.turns ≤ place + 1 ∧ w.deadline place ≤ w.clock := by
  simp [Windows.overdue]

/-- The clock only goes on. -/
theorem Windows.overdue_pass (hb : 0 ≤ b) (h : w.overdue size = true) :
    (w.pass size b).overdue size = true := by
  obtain ⟨place, hsize, hturns, hclock⟩ := overdue_iff.mp h
  exact overdue_iff.mpr ⟨place, hsize, hturns, hclock.trans (le_add_of_nonneg_right hb)⟩

theorem Windows.pass_pass (hb : 0 ≤ b) :
    (w.pass size a).pass size b = w.pass size (a + b) := by
  have hclock : w.clock + a + b = w.clock + (a + b) := add_assoc _ _ _
  have hlate := @overdue_pass size b { w with clock := w.clock + a } hb
  simp only [pass, hclock, Windows.mk.injEq, true_and, Bool.or_assoc] at hlate ⊢
  cases h : Windows.overdue size { w with clock := w.clock + a } with
  | false => simp
  | true => simpa using .inr (hlate h)

theorem Windows.pass_zero (h : w.overdue size = true → w.lapsed = true) :
    w.pass size 0 = w := by
  obtain ⟨clock, turns, deadline, lapsed⟩ := w
  simp only [pass, add_zero, Windows.mk.injEq, true_and]
  cases hlate : Windows.overdue size ⟨clock, turns, deadline, lapsed⟩ with
  | false => exact Bool.or_false _
  | true =>
    have hlapsed := h hlate
    simp only at hlapsed
    rw [hlapsed]
    rfl

end Time

section Statements

variable [Platform]

/-- A batch, how the delivery of each message ends, and how long a call takes
while the message at a place is in hand. -/
structure Shift : Type where
  batch : List QueueMessage
  outcome : Nat → Except Failure ConsumeOutcome
  takes : Nat → WorkerOp → ℚ

/-- Only the calls that handle a message take time. -/
def Shift.seconds (shift : Shift) (place : Nat) : WorkerOp → ℚ
  | .receive _ _ _ | .isStopping | .changeVisibility _ _ _ => 0
  | op => shift.takes place op

/-- What a call finds.  The receipt of a window that has run out is refused. -/
def Shift.answer (shift : Shift) (op : workerPorts.Op) (w : Windows) :
    Except Text (workerPorts.Answer op) × Windows :=
  match op with
  | .receive url size wait => (.ok (smooth shift.batch shift.outcome (.receive url size wait)),
      .received)
  | .isStopping => (.ok (smooth shift.batch shift.outcome .isStopping),
      { w with turns := w.turns + 1 })
  | .changeVisibility _ _ seconds =>
    if w.deadline (w.turns - 1) ≤ w.clock then (.error (utf16 "ReceiptHandleIsInvalid"), w)
    else (.ok (), w.change seconds)
  | op => (.ok (smooth shift.batch shift.outcome op),
      w.pass shift.batch.length (shift.seconds (w.turns - 1) op))

variable [Driver]

/-- A poll that receives the batch, from its first call on. -/
def Shift.poll (shift : Shift) (options : WagerConsumerOptions) : Except Text Nat × Windows :=
  Program.serve shift.answer (pollOnce options) .received

/-- How long the message at a place is handled. -/
def Shift.handling (shift : Shift) (options : WagerConsumerOptions) (place : Nat)
    (message : QueueMessage) : ℚ :=
  Program.cost (smooth shift.batch shift.outcome) (shift.seconds place)
    (decideMessage options [] place message)

/-- The messages of the batch are handled for these times, of at most the wallet
lock timeout each, and no call takes a negative time. -/
structure Shift.Handles (shift : Shift) (options : WagerConsumerOptions) (durations : List ℚ) :
    Prop where
  length : durations.length = shift.batch.length
  handling : ∀ (place : Nat) (message : QueueMessage), shift.batch[place]? = some message →
    durations[place]? = some (shift.handling options place message)
  timeout : ∀ d ∈ durations, d ≤ 20
  nonneg : ∀ place op, 0 ≤ shift.takes place op

/-- Every renewal comes in time, the whole batch is handled, and no window runs
out on a message that is queued or in hand. -/
def Shift.KeepsReceipts (shift : Shift) (options : WagerConsumerOptions) : Prop :=
  (shift.poll options).1 = .ok shift.batch.length ∧ (shift.poll options).2.lapsed = false

/-! ## Handling one message -/

variable {α : Type} {shift : Shift} {options : WagerConsumerOptions} {w : Windows}
  {place : Nat} {message : QueueMessage}

/-- A call that leaves the windows alone. -/
def WorkerOp.isQuiet : WorkerOp → Bool
  | .resolveUrl _ | .consume _ _ _ _ | .sendMessage _ _ _ _ | .deleteMessage _ _ => true
  | _ => false

omit [Platform] [Driver] in
theorem Shift.answer_quiet {op : WorkerOp} (h : op.isQuiet = true) :
    shift.answer op w = (.ok (smooth shift.batch shift.outcome op),
      w.pass shift.batch.length (shift.seconds (w.turns - 1) op)) := by
  cases op <;> first | rfl | cases h

omit [Platform] [Driver] in
theorem Shift.seconds_nonneg (h : ∀ place op, 0 ≤ shift.takes place op) (op : WorkerOp) :
    0 ≤ shift.seconds place op := by
  cases op <;> first | exact h place _ | exact le_refl 0

omit [Platform] [Driver] in
theorem Shift.cost_nonneg (h : ∀ place op, 0 ≤ shift.takes place op) (p : WorkerCode α) :
    0 ≤ Program.cost (smooth shift.batch shift.outcome) (shift.seconds place) p := by
  refine List.sum_nonneg fun d hd => ?_
  obtain ⟨event, -, rfl⟩ := List.mem_map.mp hd
  exact seconds_nonneg h event.op

omit [Platform] [Driver] in
/-- Quiet code only lets the time pass that it takes. -/
theorem Shift.serve_quiet (h : ∀ place op, 0 ≤ shift.takes place op) {p : WorkerCode α} {a : α}
    (hp : p.Calls fun op : WorkerOp => op.isQuiet = true)
    (hresult : Program.result (smooth shift.batch shift.outcome) p = .ok a)
    (hw : w.overdue shift.batch.length = true → w.lapsed = true) :
    Program.serve shift.answer p w = (.ok a, w.pass shift.batch.length
      (Program.cost (smooth shift.batch shift.outcome) (shift.seconds (w.turns - 1)) p)) := by
  induction p generalizing w with
  | pure a' =>
    cases hresult
    rw [show Program.cost (smooth shift.batch shift.outcome) (shift.seconds (w.turns - 1))
      (.pure a : WorkerCode α) = 0 from rfl, Windows.pass_zero hw]
    rfl
  | raise e => cases hresult
  | call op next ih =>
    have hlate : ∀ d, (w.pass shift.batch.length d).overdue shift.batch.length = true →
        (w.pass shift.batch.length d).lapsed = true := fun d hd =>
      Bool.or_eq_true_iff.mpr (.inr hd)
    have hcost : Program.cost (smooth shift.batch shift.outcome) (shift.seconds (w.turns - 1))
        (.call op next : WorkerCode α) = shift.seconds (w.turns - 1) op +
          Program.cost (smooth shift.batch shift.outcome) (shift.seconds (w.turns - 1))
            (next (smooth shift.batch shift.outcome op)) := Program.cost_call
    rw [Program.serve_call (answer_quiet hp.1), ih _ (hp.2 _) hresult (hlate _), hcost]
    exact congrArg _ (Windows.pass_pass (cost_nonneg h _))

/-- What handling a message has done: its time has passed, and the windows of the
messages behind it are as they were. -/
structure Windows.Handled (w : Windows) (size place : Nat) (seconds : ℚ) (w' : Windows) :
    Prop where
  clock : w'.clock = w.clock + seconds
  turns : w'.turns = w.turns
  deadline : ∀ q, place < q → w'.deadline q = w.deadline q
  lapsed : w'.lapsed = (w.pass size seconds).lapsed

/-- Handling a message within its window. -/
theorem Shift.serve_decideMessage (h : ∀ place op, 0 ≤ shift.takes place op)
    (hturns : w.turns = place + 1)
    (hwindow : w.clock + shift.handling options place message < w.deadline place)
    (hw : w.overdue shift.batch.length = true → w.lapsed = true) :
    ∃ w', Program.serve shift.answer (decideMessage options [] place message) w = (.ok (), w') ∧
      w.Handled shift.batch.length place (shift.handling options place message) w' := by
  obtain ⟨outcome, houtcome⟩ : ∃ o, Program.result (smooth shift.batch shift.outcome)
      (outcomeOf options (message.body.getD []) place message) = .ok o :=
    outcomeOf_result _ place message
  have hquiet : (outcomeOf options (message.body.getD []) place message).Calls
      fun op : WorkerOp => op.isQuiet = true := outcomeOf_calls fun _ _ => rfl
  have hin : w.turns - 1 = place := by omega
  have hserve := serve_quiet h hquiet houtcome hw
  rw [hin] at hserve
  generalize hspent : Program.cost (smooth shift.batch shift.outcome) (shift.seconds place)
    (outcomeOf options (message.body.getD []) place message) = spent at hserve
  have hlate : (w.pass shift.batch.length spent).overdue shift.batch.length = true →
      (w.pass shift.batch.length spent).lapsed = true := fun hd => Bool.or_eq_true_iff.mpr (.inr hd)
  have hquietly : ∀ tail : WorkerCode Unit, tail.Calls (fun op : WorkerOp => op.isQuiet = true) →
      Program.result (smooth shift.batch shift.outcome) tail = .ok () →
      ∃ w', Program.serve shift.answer tail (w.pass shift.batch.length spent) = (.ok (), w') ∧
        w.Handled shift.batch.length place (spent + Program.cost
          (smooth shift.batch shift.outcome) (shift.seconds place) tail) w' := by
    intro tail htail hresult
    have hrest := serve_quiet h htail hresult hlate
    rw [show (w.pass shift.batch.length spent).turns - 1 = place from hin,
      Windows.pass_pass (cost_nonneg h _)] at hrest
    exact ⟨_, hrest, rfl, rfl, fun _ _ => rfl, rfl⟩
  have hhandling : shift.handling options place message = _ := Program.cost_bind houtcome
  rw [hspent] at hhandling
  rw [hhandling] at hwindow ⊢
  unfold decideMessage
  rw [Program.serve_bind hserve]
  cases outcome with
  | processed result => exact hquietly _ (ask_calls rfl) rfl
  | duplicate => exact hquietly _ (ask_calls rfl) rfl
  | permanent reason =>
    exact hquietly _ (Program.Calls.bind (Program.Calls.bind (ask_calls rfl) fun _ =>
      ask_calls rfl) fun _ => ask_calls rfl) rfl
  | transient reason =>
    have hnone : spent + Program.cost (smooth shift.batch shift.outcome) (shift.seconds place)
        (returnForRetry [] message) = spent := by
      show spent + (0 + 0) = spent
      rw [add_zero, add_zero]
    rw [hnone] at hwindow ⊢
    refine ⟨_, Program.serve_call (if_neg ?_), rfl, rfl, fun q hq => if_neg ?_, rfl⟩
    · rw [show (w.pass shift.batch.length spent).turns - 1 = place from hin]
      exact not_le.mpr hwindow
    · exact fun heq => by
        rw [show (w.pass shift.batch.length spent).turns = place + 1 from hturns] at heq
        omega

/-! ## The batch -/

/-- Where the worker stands before it turns to a message: nothing has lapsed, and
the windows of all that are still queued are those of the receipt. -/
structure Windows.Queued (w : Windows) (place : Nat) : Prop where
  turns : w.turns = place
  deadline : ∀ q, place ≤ q → w.deadline q = visibilityTimeoutSeconds
  lapsed : w.lapsed = false
  clock : w.clock < visibilityTimeoutSeconds
  first : place = 0 → w.clock = 0

omit [Platform] [Driver] in
/-- What has lapsed stays so. -/
theorem Shift.serve_lapsed (shift : Shift) {p : WorkerCode α}
    (hp : p.Calls fun op : WorkerOp => ∀ url size wait, op ≠ .receive url size wait)
    (hw : w.lapsed = true) : (Program.serve shift.answer p w).2.lapsed = true := by
  refine Program.serve_keeps (I := fun w : Windows => w.lapsed = true) hp (fun op w hop hw => ?_) hw
  cases op with
  | receive url size wait => exact absurd rfl (hop url size wait)
  | isStopping => exact hw
  | changeVisibility url message seconds =>
    simp only [answer]
    split <;> exact hw
  | _ => exact Bool.or_eq_true_iff.mpr (.inl hw)

theorem handleBatch_noReceive (options : WagerConsumerOptions) (messages : List QueueMessage)
    (index : Nat) :
    (handleBatch options [] index messages).Calls
      fun op : WorkerOp => ∀ url size wait, op ≠ .receive url size wait := by
  have hqueue : ∀ op : WorkerOp, op.isDisposal = true →
      ∀ url size wait, op ≠ .receive url size wait := by
    rintro op hop url size wait rfl
    cases hop
  refine handleBatch_calls messages index (fun _ _ _ h => by cases h) hqueue fun i message _ =>
    decideMessage_calls (fun _ _ _ _ _ h => by cases h) hqueue

/-- The turn to a message whose window has not run out restarts it. -/
theorem Shift.serve_turn (shift : Shift)
    (hoptions : options.visibilityTimeoutSeconds = visibilityTimeoutSeconds)
    (hw : w.Queued place) (message : QueueMessage) (rest : List QueueMessage) :
    ∃ w', Program.serve shift.answer (handleBatch options [] place (message :: rest)) w =
        Program.serve shift.answer (decideMessage options [] place message >>= fun _ =>
          handleBatch options [] (place + 1) rest) w' ∧
      w'.turns = place + 1 ∧ w'.clock = w.clock ∧ w'.lapsed = false ∧
      w'.deadline place = w.clock + visibilityTimeoutSeconds ∧
      ∀ q, place < q → w'.deadline q = visibilityTimeoutSeconds := by
  generalize hp : (decideMessage options [] place message >>= fun _ =>
    handleBatch options [] (place + 1) rest) = p
  have hturns : w.turns + 1 = place + 1 := congrArg (· + 1) hw.turns
  have hstopping : shift.answer .isStopping w =
      (.ok (smooth shift.batch shift.outcome .isStopping), { w with turns := w.turns + 1 }) := rfl
  unfold handleBatch
  rw [hp]
  by_cases hplace : 0 < place
  · simp only [hplace, if_true]
    refine ⟨({ w with turns := w.turns + 1 } : Windows).change options.visibilityTimeoutSeconds,
      (Program.serve_call hstopping).trans (Program.serve_call (if_neg ?_)), hturns, rfl,
      hw.lapsed, ?_, fun q hq => ?_⟩
    · show ¬ w.deadline (w.turns + 1 - 1) ≤ w.clock
      rw [hturns, Nat.add_sub_cancel, hw.deadline place (Nat.le_refl place)]
      exact not_le.mpr hw.clock
    · rw [hoptions]
      exact if_pos hturns.symm
    · rw [← hw.deadline q hq.le]
      exact if_neg (show q + 1 ≠ w.turns + 1 by omega)
  · have hzero : place = 0 := Nat.eq_zero_of_not_pos hplace
    simp only [hplace, if_false]
    refine ⟨{ w with turns := w.turns + 1 }, rfl, hturns, rfl, hw.lapsed, ?_,
      fun q hq => hw.deadline q hq.le⟩
    rw [hw.first hzero, zero_add]
    exact hw.deadline place (Nat.le_refl place)

omit [Platform] [Driver] in
/-- While the window of the message in hand lasts, only the ones behind it can be late. -/
theorem Windows.overdue_inHand {size : Nat} (hturns : w.turns = place + 1)
    (hown : w.clock < w.deadline place)
    (hlater : ∀ q, place < q → w.deadline q = visibilityTimeoutSeconds) :
    w.overdue size = true ↔ place + 1 < size ∧ visibilityTimeoutSeconds ≤ w.clock := by
  rw [overdue_iff]
  constructor
  · rintro ⟨q, hsize, hq, hlate⟩
    rcases Nat.lt_or_eq_of_le (show place ≤ q by omega) with hlt | rfl
    · exact ⟨by omega, hlater q hlt ▸ hlate⟩
    · exact absurd hlate (not_le.mpr hown)
  · rintro ⟨hsize, hlate⟩
    exact ⟨place + 1, hsize, by omega, (hlater _ (Nat.lt_succ_self place)).symm ▸ hlate⟩

/-- The rest of a batch is handled in time exactly when the wait for its last
message is shorter than the window. -/
theorem Shift.serve_handleBatch
    (hoptions : options.visibilityTimeoutSeconds = visibilityTimeoutSeconds)
    (h : ∀ place op, 0 ≤ shift.takes place op) (rest : List QueueMessage) (durations : List ℚ)
    (hsize : place + rest.length = shift.batch.length) (hlength : durations.length = rest.length)
    (hhandling : ∀ i message, rest[i]? = some message →
      durations[i]? = some (shift.handling options (place + i) message))
    (htimeout : ∀ d ∈ durations, d ≤ 20) (hw : w.Queued place) :
    ((Program.serve shift.answer (handleBatch options [] place rest) w).1 = .ok () ∧
      (Program.serve shift.answer (handleBatch options [] place rest) w).2.lapsed = false) ↔
    w.clock + durations.dropLast.sum < visibilityTimeoutSeconds := by
  induction rest generalizing place durations w with
  | nil =>
    rw [List.length_eq_zero_iff.mp hlength]
    simp only [List.dropLast_nil, List.sum_nil, add_zero]
    exact ⟨fun _ => hw.clock, fun _ => ⟨rfl, hw.lapsed⟩⟩
  | cons message rest ih =>
    obtain ⟨d, later, rfl⟩ : ∃ d later, durations = d :: later :=
      List.exists_cons_of_length_eq_add_one hlength
    obtain rfl : d = shift.handling options place message :=
      Option.some.inj (hhandling 0 message rfl)
    obtain ⟨hd, hlater⟩ := List.forall_mem_cons.mp htimeout
    obtain ⟨w1, hturn, hturns1, hclock1, hlapsed1, hown1, hdeadline1⟩ :=
      shift.serve_turn hoptions hw message rest
    have hnonneg : 0 ≤ shift.handling options place message := cost_nonneg h _
    -- 20 s are within the message's own window
    have hwithin : w1.clock + shift.handling options place message < w1.deadline place := by
      rw [hown1, hclock1]
      simp only [visibilityTimeoutSeconds, Nat.cast_ofNat]
      linarith
    have hnot : ¬ w1.overdue shift.batch.length = true := by
      rw [Windows.overdue_inHand hturns1 (lt_of_le_of_lt (le_add_of_nonneg_right hnonneg) hwithin)
        hdeadline1, hclock1]
      exact fun hlate => absurd hw.clock (not_lt.mpr hlate.2)
    obtain ⟨w2, hdecide, handled⟩ := serve_decideMessage h hturns1 hwithin fun hd => absurd hd hnot
    have hclock2 : w2.clock = w.clock + shift.handling options place message := by
      rw [handled.clock, hclock1]
    have hlapsed2 : w2.lapsed = true ↔
        place + 1 < shift.batch.length ∧ visibilityTimeoutSeconds ≤ w2.clock := by
      rw [handled.lapsed, Windows.pass, Bool.or_eq_true, hlapsed1, handled.clock]
      simp only [Bool.false_eq_true, false_or]
      exact Windows.overdue_inHand hturns1 hwithin hdeadline1
    rw [hturn, Program.serve_bind hdecide]
    cases rest with
    | nil =>
      obtain rfl : later = [] := List.length_eq_zero_iff.mp (Nat.succ.inj hlength)
      have hlapsed : w2.lapsed = false := by
        rw [← Bool.not_eq_true, hlapsed2]
        exact fun hlate => absurd hlate.1 (by simp only [List.length_cons, List.length_nil] at hsize; omega)
      simp only [List.dropLast_singleton, List.sum_nil, add_zero]
      exact ⟨fun _ => hw.clock, fun _ => ⟨rfl, hlapsed⟩⟩
    | cons next rest =>
      have hne : later ≠ [] := by
        rintro rfl
        cases hlength
      have hmore : place + 1 < shift.batch.length := by
        simp only [List.length_cons] at hsize
        omega
      rw [List.dropLast_cons_of_ne_nil hne, List.sum_cons, ← add_assoc, ← hclock2]
      by_cases hlate : w2.clock < visibilityTimeoutSeconds
      · have hqueued : w2.Queued (place + 1) :=
          { turns := handled.turns.trans hturns1
            deadline := fun q hq => (handled.deadline q hq).trans (hdeadline1 q hq)
            lapsed := Bool.not_eq_true _ ▸ fun h => absurd (hlapsed2.mp h).2 (not_le.mpr hlate)
            clock := hlate
            first := fun h => absurd h (Nat.succ_ne_zero place) }
        refine ih later (by rw [← hsize]; simp only [List.length_cons]; omega)
          (Nat.succ.inj hlength) (fun i message hi => ?_) hlater hqueued
        have := hhandling (i + 1) message hi
        rwa [List.getElem?_cons_succ, ← Nat.add_assoc, Nat.add_right_comm] at this
      · have hlapsed : w2.lapsed = true := hlapsed2.mpr ⟨hmore, not_lt.mp hlate⟩
        have hstays := shift.serve_lapsed
          (handleBatch_noReceive options (next :: rest) (place + 1)) hlapsed
        have hsum : 0 ≤ later.dropLast.sum := List.sum_nonneg fun x hx => by
          obtain ⟨i, hi, rfl⟩ := List.mem_iff_getElem.mp (List.dropLast_subset _ hx)
          have hrest : i < (next :: rest).length := Nat.succ.inj hlength ▸ hi
          have := hhandling (i + 1) _ (List.getElem?_eq_getElem hrest)
          rw [List.getElem?_cons_succ, List.getElem?_eq_getElem hi] at this
          rw [Option.some.inj this]
          exact cost_nonneg h _
        refine iff_of_false (fun hkept => ?_) (not_lt.mpr ?_)
        · rw [hkept.2] at hstays
          cases hstays
        · exact (not_lt.mp hlate).trans (le_add_of_nonneg_right hsum)

/-- A poll is the loop over the batch that it receives. -/
theorem Shift.poll_eq : shift.poll options =
    match Program.serve shift.answer (handleBatch options [] 0 shift.batch) .received with
    | (.ok (), w) => (.ok shift.batch.length, w)
    | (.error e, w) => (.error e, w) := by
  have hpoll : shift.poll options = Program.serve shift.answer
      (handleBatch options [] 0 shift.batch >>= fun _ =>
        (pure shift.batch.length : WorkerCode Nat)) .received := rfl
  rw [hpoll, Program.serve_bind_eq]
  generalize Program.serve shift.answer (handleBatch options [] 0 shift.batch) .received = ended
  rcases ended with ⟨e | a, w⟩ <;> rfl

omit [Platform] [Driver] in
theorem Windows.received_queued : Windows.received.Queued 0 where
  turns := rfl
  deadline _ _ := rfl
  lapsed := rfl
  clock := by decide
  first _ := rfl

/-- A batch keeps its receipts exactly when all its messages but the last are
handled within one window. -/
theorem Shift.keepsReceipts_iff (shift : Shift) (options : WagerConsumerOptions)
    (durations : List ℚ) (hoptions : options.visibilityTimeoutSeconds = visibilityTimeoutSeconds)
    (h : shift.Handles options durations) :
    shift.KeepsReceipts options ↔ durations.dropLast.sum < visibilityTimeoutSeconds := by
  have hloop := serve_handleBatch hoptions h.nonneg shift.batch durations (Nat.zero_add _) h.length
    (fun i message hi => (Nat.zero_add i).symm ▸ h.handling i message hi) h.timeout
    Windows.received_queued
  rw [show Windows.received.clock = 0 from rfl, zero_add] at hloop
  rw [← hloop, KeepsReceipts, poll_eq]
  split
  · rename_i w heq
    rw [heq]
    simp
  · rename_i e w heq
    rw [heq]
    simp

end Statements

/-! ## Batches of bets -/

local instance receiptPlatform : Platform := betPlatform

local instance receiptDriver : Driver := sampleDriver

/-- Deliveries of one bet, each of which waits for the wallet's lock. -/
def lockedShift (size : Nat) : Shift where
  batch := (List.range size).map fun n => sampleQueueMessage (decimal n) firstBet
  outcome _ := .ok .duplicate
  takes
    | _, .consume _ _ _ _ => 20
    | _, _ => 0

/-- Delivering one of them takes the whole lock timeout. -/
theorem lockedShift_handling (size place : Nat) (n : Nat) :
    (lockedShift size).handling sampleOptions place (sampleQueueMessage (decimal n) firstBet) =
      20 := by
  obtain ⟨parsed, hparsed⟩ : ∃ parsed, parseWagerMessage
      ((sampleQueueMessage (decimal n) firstBet).body.getD []) = .ok parsed := firstBet_accepted
  unfold Shift.handling decideMessage outcomeOf
  simp only [hparsed]
  show (20 : ℚ) + (0 + 0) = 20
  rw [add_zero, add_zero]

theorem lockedShift_handles (size : Nat) :
    (lockedShift size).Handles sampleOptions (List.replicate size 20) where
  length := by simp [lockedShift]
  handling place message h := by
    simp only [lockedShift, List.getElem?_map, Option.map_eq_some_iff] at h
    obtain ⟨n, hn, rfl⟩ := h
    have hplace : place < size := by
      simpa using (List.getElem?_eq_some_iff.mp hn).1
    rw [List.getElem?_replicate, if_pos hplace]
    exact congrArg some (lockedShift_handling size place n).symm
  timeout d hd := (List.eq_of_mem_replicate hd).le
  nonneg place op := by
    cases op <;> first | exact le_refl 0 | exact (by decide : (0 : ℚ) ≤ 20)

/-- Three of them are handled within one window. -/
theorem lockedShift_keeps : (lockedShift 3).KeepsReceipts sampleOptions :=
  (Shift.keepsReceipts_iff (lockedShift 3) sampleOptions (List.replicate 3 20) rfl
    (lockedShift_handles 3)).mpr (by decide +kernel)

/-- When the worker turns to the fourth of five, their window has just run out. -/
theorem lockedShift_lapses : ¬ ∀ (shift : Shift) (options : WagerConsumerOptions)
    (durations : List ℚ), options.visibilityTimeoutSeconds = visibilityTimeoutSeconds →
    shift.batch.length ≤ 10 → shift.Handles options durations → shift.KeepsReceipts options := by
  intro h
  have hkept := (h (lockedShift 5) sampleOptions _ rfl (by decide) (lockedShift_handles 5)).2
  have hlapsed : ((lockedShift 5).poll sampleOptions).2.lapsed = true := by decide +kernel
  rw [hkept] at hlapsed
  cases hlapsed

end Wagering
