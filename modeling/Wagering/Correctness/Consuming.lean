import Wagering.Application.ConsumeWagerMessage
import Wagering.Correctness.Submitting

/-!
# Consuming a message

`ConsumeWagerMessageUseCase`: the inbox row, the business effect and the mark of
completion are one transaction, so a committed inbox row is always a processed
one, and a delivery that commits nothing else has found such a row.
-/

namespace Wagering

open Interleave

variable {sh sh' : Shared} {l l' : Local} {delivery : InboxDelivery} {command : SubmitWagerCommand}

/-- The texts of the delivery fit their columns. -/
structure InboxDelivery.Fits (delivery : InboxDelivery) : Prop where
  consumerName : Text.Fits 64 delivery.consumerName
  providerId : Text.Fits 64 delivery.providerId
  messageId : Text.Fits 128 delivery.messageId
  payloadHash : Text.characters delivery.payloadHash ≤ 64
  brokerMessageId : ∀ id ∈ delivery.brokerMessageId, Text.Fits 128 id

/-! ## The inbox row -/

theorem inbox_mem_iff {db : Database} {key : InboxKey} :
    .inbox key ∈ db.uniqueKeys ↔ ∃ m ∈ db.inbox, m.key = key := by
  simp [Database.uniqueKeys, WalletRow.uniqueKeys, WagerTransactionRow.uniqueKeys,
    WalletLedgerEntryRow.uniqueKeys, OutboxMessageRow.uniqueKeys, eq_comm]

theorem inbox_rules {receivedAt : Instant} (hfits : delivery.Fits)
    (hreceived : receivedAt.isTimestamp = true) :
    ∀ rule ∈ inboxRules (delivery.row receivedAt), rule.holds = true := by
  simp only [inboxRules, List.forall_mem_cons, InboxDelivery.row]
  exact ⟨hfits.consumerName.text _, hfits.providerId.text _, hfits.messageId.text _,
    optional_holds fun id hid => (hfits.brokerMessageId id hid).text _,
    hfits.consumerName.length _, hfits.providerId.length _, hfits.messageId.length _,
    decide_eq_true hfits.payloadHash,
    optional_holds fun id hid => (hfits.brokerMessageId id hid).length _, hreceived, rfl, rfl,
    by simp⟩

/-- The row that a delivery inserts and then marks. -/
def InboxDelivery.stored (delivery : InboxDelivery) (receivedAt : Instant) : InboxMessageRow :=
  (delivery.row receivedAt).stored

theorem InboxDelivery.stored_key (delivery : InboxDelivery) (receivedAt : Instant) :
    (delivery.stored receivedAt).key = delivery.key.stored := rfl

/-- A row whose texts the inbox has taken passes its rules as it was stored. -/
theorem stored_inbox_rules {row : InboxMessageRow} (h : ∀ rule ∈ inboxRules row, rule.holds = true) :
    ∀ rule ∈ inboxRules row.stored, rule.holds = true := by
  have htext : ∀ {column : String} {t : Text}, (textRule column t).holds = true →
      (textRule column (Text.stored t)).holds = true := by
    intro column t ht
    rwa [textRule, Text.hasNul_stored]
  have hlength : ∀ {column : String} {n : Nat} {t : Text}, (lengthRule column n t).holds = true →
      (lengthRule column n (Text.stored t)).holds = true := by
    intro column n t ht
    rwa [lengthRule, Text.characters_stored]
  simp only [inboxRules, List.forall_mem_cons] at h ⊢
  obtain ⟨h1, h2, h3, h4, h5, h6, h7, h8, h9, h10⟩ := h
  exact ⟨htext h1, htext h2, htext h3, optional_map h4 fun _ => htext, hlength h5, hlength h6,
    hlength h7, h8, optional_map h9 fun _ => hlength, h10⟩

/-- Marking a row that the inbox has taken fails only when the clock went back. -/
theorem mark_rules {receivedAt processedAt : Instant}
    (hrules : ∀ rule ∈ inboxRules (delivery.row receivedAt), rule.holds = true)
    (hprocessed : processedAt.isTimestamp = true) (hle : receivedAt ≤ processedAt) :
    ∀ rule ∈ inboxUpdateRules (delivery.stored receivedAt)
      ((delivery.stored receivedAt).mark processedAt), rule.holds = true := by
  have hstored := stored_inbox_rules hrules
  simp only [inboxUpdateRules, inboxRules, List.forall_mem_cons] at hstored ⊢
  obtain ⟨h1, h2, h3, h4, h5, h6, h7, h8, h9, h10, -⟩ := hstored
  exact ⟨rfl, h1, h2, h3, h4, h5, h6, h7, h8, h9, h10, hprocessed, decide_eq_true hle, by simp⟩

/-- The key of a row that the transaction inserted is nobody else's. -/
theorem inserted_fresh {row : InboxMessageRow} (h : .insertInbox row ∈ inboxOf l.log)
    (ho : Own sh l) : ∀ m ∈ sh.db.inbox, m.key ≠ row.key := by
  have hkey : .inbox row.key ∈ l.keys := by
    simp only [Local.keys, List.mem_flatMap]
    exact ⟨_, mem_of_mem_inboxOf h, List.mem_singleton.mpr rfl⟩
  exact fun m hm heq => ho.free _ hkey (inbox_mem_iff.mpr ⟨m, hm, heq⟩)

/-- The transaction finds the row that it inserted. -/
theorem inserted_lookup {row : InboxMessageRow} (h : inboxOf l.log = [.insertInbox row])
    (ho : Own sh l) :
    Keyed.lookup InboxMessageRow.key row.key (l.view sh.db).inbox = some row := by
  have hfresh := inserted_fresh (by rw [h]; exact List.mem_cons_self) ho
  have hview : (l.view sh.db).inbox = sh.db.inbox ++ [row] := by
    rw [Local.view, after_eq, h]
    rfl
  rw [hview, Keyed.lookup_append, Keyed.lookup_eq_none.mpr hfresh]
  simp [Keyed.lookup]

/-! ## Endings -/

variable [Platform]

/-- What a delivery that commits has done, by its outcome. -/
inductive Consumption (delivery : InboxDelivery) (command : SubmitWagerCommand) (sh : Shared)
    (l : Local) : ConsumeOutcome → Prop
  | processed {receivedAt processedAt : Instant} {result : SubmitWagerResult}
    (inbox : inboxOf l.log =
      [.insertInbox (delivery.stored receivedAt), .markInbox delivery.key.stored processedAt])
    (submission : Submission command sh l result) :
    Consumption delivery command sh l (.processed result)
  | duplicate {m : InboxMessageRow} (log : l.log = []) (kept : l.lostAt = none) (mem : m ∈ sh.db.inbox)
    (key : m.key = delivery.key.stored) (hash : m.payloadHash = delivery.payloadHash) :
    Consumption delivery command sh l .duplicate
  | permanent {m : InboxMessageRow} {reason : Text} (log : l.log = []) (kept : l.lostAt = none)
    (mem : m ∈ sh.db.inbox) (key : m.key = delivery.key.stored)
    (hash : m.payloadHash ≠ delivery.payloadHash) :
    Consumption delivery command sh l (.permanent reason)

/-- What the transaction of a delivery may fail with, outages apart. -/
inductive ConsumeFailure (delivery : InboxDelivery) (command : SubmitWagerCommand) (sh : Shared)
    (l : Local) : Failure → Prop
  | submission {e : Failure} (h : SubmitFailure command sh l e) :
    ConsumeFailure delivery command sh l e
  | refused {e : RepositoryError} (h : ¬ delivery.Fits) :
    ConsumeFailure delivery command sh l (.repository e)
  | clock {e : RepositoryError}
    (h : ¬ l.readings.Pairwise fun later earlier => earlier ≤ later) :
    ConsumeFailure delivery command sh l (.repository e)

/-- The inbox after a delivery that was processed: its own row, and it is done. -/
theorem Consumption.inbox {result : SubmitWagerResult}
    (h : Consumption delivery command sh l (.processed result)) (ho : Own sh l) :
    ∃ row, (l.view sh.db).inbox = sh.db.inbox ++ [row] ∧ row.Done ∧
      row.key = delivery.key.stored ∧ row.payloadHash = delivery.payloadHash := by
  cases h with
  | @processed receivedAt processedAt _ inbox submission =>
    have hnew := inserted_fresh (by rw [inbox]; exact List.mem_cons_self) ho
    refine ⟨(delivery.stored receivedAt).mark processedAt, ?_, ⟨rfl, ?_⟩, rfl, rfl⟩
    · rw [Local.view, after_eq, inbox]
      change Keyed.adjust InboxMessageRow.key (delivery.stored receivedAt).key _ _ = _
      exact Keyed.adjust_concat hnew rfl
    · simp [InboxDelivery.stored, InboxMessageRow.mark, InboxMessageRow.stored, Option.map_map,
        Function.comp_def]

/-! ## The code -/

variable {P : Shared → Local → ConsumeOutcome → Prop} {F : Shared → Local → Failure → Prop}

/-- `classifyRedelivery`: the row that won the key is there, and it is done. -/
theorem wp_classifyRedelivery (hlog : l.log = []) (hlost : l.lostAt = none)
    (htaken : ∃ m ∈ sh.db.inbox, m.key = delivery.key.stored)
    (hP : ∀ sh' outcome, Consumption delivery command sh' l outcome → P sh' l outcome) :
    (classifyRedelivery delivery).wp discipline P F sh l := by
  refine wp_findInbox fun sh1 hr1 hs1 ho1 => ?_
  rw [Database.inboxByKey, show (l.view sh1.db) = sh1.db by rw [Local.view, hlog]; rfl]
  cases hfound : Keyed.lookup InboxMessageRow.key delivery.key.stored sh1.db.inbox with
  | none =>
    obtain ⟨m, hm, hkey⟩ := htaken
    exact absurd hkey (Keyed.lookup_eq_none.mp hfound m (hr1.inbox m hm))
  | some existing =>
    have hmem := Keyed.mem_of_lookup hfound
    have hkey := Keyed.key_of_lookup hfound
    have hdone := (hs1.inbox existing hmem).processed
    by_cases hhash : existing.payloadHash = delivery.payloadHash
    · have hnone : existing.processedAt.isNone = false := by simpa using hdone
      simp only [hhash, ne_eq, not_true_eq_false, if_false, hnone, Bool.false_eq_true]
      exact wp_pure fun sh2 hr2 _ _ => hP _ _ (.duplicate hlog hlost (hr2.inbox _ hmem) hkey hhash)
    · simp only [hhash, ne_eq, not_false_eq_true, if_true]
      exact wp_pure fun sh2 hr2 _ _ => hP _ _ (.permanent hlog hlost (hr2.inbox _ hmem) hkey hhash)

/-- The transaction of a delivery, started with nothing. -/
theorem wp_consumeWithin (hlog : l.log = []) (hlost : l.lostAt = none)
    (hP : ∀ sh' l' outcome, Consumption delivery command sh' l' outcome → P sh' l' outcome)
    (hF : ∀ sh' l' e, ConsumeFailure delivery command sh' l' e → F sh' l' e) :
    (consumeWithin delivery command).wp discipline P F sh l := by
  refine wp_now fun sh1 hr1 hs1 ho1 receivedAt hreceived => ?_
  have hreceived' := Instant.isReading_isTimestamp hreceived
  refine wp_reserveInbox fun sh2 hr2 hs2 ho2 => ⟨fun e he => ?refused, fun htaken => ?lost,
    fun hrules hfree => ?reserved⟩
  case refused =>
    refine hF _ _ _ (.refused fun hfits => ?_)
    rw [refusal_eq_none.mpr (inbox_rules hfits hreceived')] at he
    cases he
  case lost =>
    rw [show (Local.view { l with readings := receivedAt :: l.readings } sh2.db) = sh2.db by
      simp only [Local.view, hlog, Database.after_nil]] at htaken
    exact wp_classifyRedelivery hlog hlost (inbox_mem_iff.mp htaken) fun sh' outcome h => hP _ _ _ h
  case reserved =>
    have hrules := refusal_eq_none.mp hrules
    refine Program.wp_bind (wp_executeWithin ?_ hlost (fun sh3 l3 result hsub hinbox hreadings => ?_)
      fun sh' l' e h => hF _ _ _ (.submission h))
    · simp [Local.push, hlog, businessOf, Write.isInbox]
    · refine wp_now fun sh4 hr4 hs4 ho4 processedAt hprocessed => ?_
      have hlog3 : inboxOf ({ l3 with readings := processedAt :: l3.readings } : Local).log =
          [.insertInbox (delivery.stored receivedAt)] := by
        rw [show ({ l3 with readings := processedAt :: l3.readings } : Local).log = l3.log from rfl,
          hinbox]
        simp [Local.push, hlog, inboxOf, Write.isInbox, InboxDelivery.stored]
      refine wp_markInboxProcessed fun sh5 hr5 hs5 ho5 =>
        ⟨delivery.stored receivedAt, inserted_lookup hlog3 ho5, fun e he => ?clock, ?marked⟩
      case clock =>
        refine hF _ _ _ (.clock fun hmonotone => ?_)
        have hle : receivedAt ≤ processedAt :=
          (List.pairwise_cons.mp hmonotone).1 _ (hreadings.subset List.mem_cons_self)
        have hmark := mark_rules hrules (Instant.isReading_isTimestamp hprocessed) hle
        rw [refusal_eq_none.mpr hmark] at he
        cases he
      case marked =>
        refine wp_pure fun sh6 hr6 hs6 ho6 => hP _ _ _ ?_
        have hboth : inboxOf (l3.log ++ [.markInbox delivery.key.stored processedAt]) =
            [.insertInbox (delivery.stored receivedAt),
              .markInbox delivery.key.stored processedAt] := by
          rw [inboxOf_append, hlog3]
          rfl
        have hread := (hsub.rely hr4 hs4 ho4).alike (.read l3 processedAt)
        exact .processed hboth (((hread.rely hr5 hs5 ho5).alike (.marked _ _ _)).rely hr6 hs6 ho6)

end Wagering
