import Wagering.Persistence.Database

/-!
# What statements leave of the tables

The unique keys after a sequence of statements, and the two halves of a
transaction's log: the statements about the inbox and those about everything
else do not see each other.
-/

namespace Wagering

/-! ## Unique keys -/

/-- The identifier in a key that holds a generated one. -/
def UniqueKey.id? : UniqueKey → Option Text
  | .walletId id | .wagerId id | .ledgerId id | .outboxId id => some id
  | _ => none

/-- The keys that a sequence of statements takes. -/
def keysOf (log : List Write) : List UniqueKey := log.flatMap Write.uniqueKeys

@[simp] theorem keysOf_append (log log' : List Write) :
    keysOf (log ++ log') = keysOf log ++ keysOf log' := by
  simp [keysOf]

@[simp] theorem keysOf_cons (write : Write) (log : List Write) :
    keysOf (write :: log) = write.uniqueKeys ++ keysOf log := rfl

@[simp] theorem keysOf_nil : keysOf [] = [] := rfl

theorem flatMap_adjust {α κ β : Type} [DecidableEq κ] {key : α → κ} {k : κ} {f : α → α}
    {g : α → List β} (hg : ∀ x, g (f x) = g x) (xs : List α) :
    (Keyed.adjust key k f xs).flatMap g = xs.flatMap g := by
  simp only [Keyed.adjust, List.flatMap_map]
  congr 1
  funext x
  split
  · exact hg x
  · rfl

theorem walletKeys_set (row old : WalletRow) : (row.set old).uniqueKeys = old.uniqueKeys := rfl

theorem wagerKeys_set (row old : WagerTransactionRow) :
    (row.set old).uniqueKeys = old.uniqueKeys := rfl

theorem inboxKeys_mark (key : InboxKey) (at_ : Instant) (rows : List InboxMessageRow) :
    (Keyed.adjust InboxMessageRow.key key (InboxMessageRow.mark at_) rows).map
      (fun row => UniqueKey.inbox row.key) = rows.map fun row => .inbox row.key := by
  simp only [Keyed.adjust, List.map_map]
  refine List.map_congr_left fun row _ => ?_
  simp only [Function.comp_apply]
  split <;> rfl

/-- An update leaves every key where it is, an insert adds its own. -/
theorem uniqueKeys_apply (db : Database) (write : Write) :
    (write.apply db).uniqueKeys.Perm (db.uniqueKeys ++ write.uniqueKeys) := by
  rw [List.perm_iff_count]
  intro k
  cases write with
  | updateWallet row =>
    simp only [Database.uniqueKeys, Write.apply, Write.uniqueKeys, List.append_nil,
      flatMap_adjust (walletKeys_set row)]
  | updateWager row =>
    simp only [Database.uniqueKeys, Write.apply, Write.uniqueKeys, List.append_nil,
      flatMap_adjust (wagerKeys_set row)]
  | markInbox key at_ =>
    simp only [Database.uniqueKeys, Write.apply, Write.uniqueKeys, List.append_nil,
      inboxKeys_mark]
  | insertWallet row =>
    simp [Database.uniqueKeys, Write.apply, Write.uniqueKeys, List.count_append]
    omega
  | insertWager row =>
    simp [Database.uniqueKeys, Write.apply, Write.uniqueKeys, List.count_append]
    omega
  | insertLedger row =>
    simp [Database.uniqueKeys, Write.apply, Write.uniqueKeys, List.count_append]
    omega
  | insertInbox row =>
    simp [Database.uniqueKeys, Write.apply, Write.uniqueKeys, List.count_append, List.count_cons]
  | insertOutbox rows =>
    simp [Database.uniqueKeys, Write.apply, Write.uniqueKeys, List.count_append]

theorem uniqueKeys_after (db : Database) (log : List Write) :
    (db.after log).uniqueKeys.Perm (db.uniqueKeys ++ keysOf log) := by
  induction log generalizing db with
  | nil => simp
  | cons write log ih =>
    rw [Database.after_cons, keysOf_cons, ← List.append_assoc]
    exact (ih _).trans ((uniqueKeys_apply db write).append_right _)

theorem mem_uniqueKeys_after {db : Database} {log : List Write} {k : UniqueKey} :
    k ∈ (db.after log).uniqueKeys ↔ k ∈ db.uniqueKeys ∨ k ∈ keysOf log := by
  rw [(uniqueKeys_after db log).mem_iff, List.mem_append]

/-! ## The two halves of a log -/

/-- The statement is about the inbox. -/
def Write.isInbox : Write → Bool
  | .insertInbox _ | .markInbox _ _ => true
  | _ => false

/-- The statements about the inbox. -/
def inboxOf (log : List Write) : List Write := log.filter Write.isInbox

/-- The statements about everything else. -/
def businessOf (log : List Write) : List Write := log.filter fun write => !write.isInbox

@[simp] theorem inboxOf_append (log log' : List Write) :
    inboxOf (log ++ log') = inboxOf log ++ inboxOf log' := by
  simp [inboxOf]

@[simp] theorem businessOf_append (log log' : List Write) :
    businessOf (log ++ log') = businessOf log ++ businessOf log' := by
  simp [businessOf]

theorem mem_of_mem_businessOf {log : List Write} {write : Write} (h : write ∈ businessOf log) :
    write ∈ log := (List.mem_filter.mp h).1

theorem mem_of_mem_inboxOf {log : List Write} {write : Write} (h : write ∈ inboxOf log) :
    write ∈ log := (List.mem_filter.mp h).1

theorem business_apply {write : Write} (h : write.isInbox = false) (db : Database)
    (inbox : List InboxMessageRow) :
    write.apply { db with inbox } = { write.apply db with inbox } ∧
      (write.apply db).inbox = db.inbox := by
  cases write <;> first | exact ⟨rfl, rfl⟩ | cases h

theorem inbox_apply {write : Write} (h : write.isInbox = true) (db : Database) :
    write.apply db =
      { db with inbox := (write.apply { Database.empty with inbox := db.inbox }).inbox } := by
  cases write <;> first | rfl | cases h

theorem business_after {log : List Write} (h : ∀ write ∈ log, write.isInbox = false)
    (db : Database) (inbox : List InboxMessageRow) :
    ({ db with inbox } : Database).after log = { db.after log with inbox } ∧
      (db.after log).inbox = db.inbox := by
  induction log generalizing db with
  | nil => exact ⟨rfl, rfl⟩
  | cons write log ih =>
    obtain ⟨hwrite, hlog⟩ := List.forall_mem_cons.mp h
    obtain ⟨happly, hinbox⟩ := business_apply hwrite db inbox
    obtain ⟨ih, ihinbox⟩ := ih hlog (write.apply db)
    exact ⟨by rw [Database.after_cons, happly, ih, Database.after_cons],
      by rw [Database.after_cons, ihinbox, hinbox]⟩

/-- The two halves of a log act side by side. -/
theorem after_eq (db : Database) (log : List Write) :
    db.after log = { db.after (businessOf log) with inbox :=
      (({ Database.empty with inbox := db.inbox } : Database).after (inboxOf log)).inbox } := by
  induction log generalizing db with
  | nil => rfl
  | cons write log ih =>
    have hall : ∀ w ∈ businessOf log, w.isInbox = false := fun w hw => by
      simpa using (List.mem_filter.mp hw).2
    cases hw : write.isInbox with
    | true =>
      have hb : businessOf (write :: log) = businessOf log := by simp [businessOf, hw]
      have hi : inboxOf (write :: log) = write :: inboxOf log := by simp [inboxOf, hw]
      rw [Database.after_cons, inbox_apply hw, ih, hb, hi, Database.after_cons,
        (business_after hall db _).1, inbox_apply hw { Database.empty with inbox := db.inbox }]
    | false =>
      have hb : businessOf (write :: log) = write :: businessOf log := by simp [businessOf, hw]
      have hi : inboxOf (write :: log) = inboxOf log := by simp [inboxOf, hw]
      rw [Database.after_cons, ih, hb, hi, Database.after_cons, (business_apply hw db db.inbox).2]

theorem after_business (db : Database) (log : List Write) :
    (db.after log).wallets = (db.after (businessOf log)).wallets ∧
      (db.after log).wagers = (db.after (businessOf log)).wagers ∧
      (db.after log).ledger = (db.after (businessOf log)).ledger ∧
      (db.after log).outbox = (db.after (businessOf log)).outbox := by
  rw [after_eq]
  exact ⟨rfl, rfl, rfl, rfl⟩

/-! ## Where a row comes from -/

/-- A transaction's row was there before, or a statement inserted it, or one updated it. -/
theorem mem_wagers_after {log : List Write} {db : Database} {row : WagerTransactionRow}
    (h : row ∈ (db.after log).wagers) :
    row ∈ db.wagers ∨ .insertWager row ∈ log ∨
      ∃ new old : WagerTransactionRow, .updateWager new ∈ log ∧ old.id = new.id ∧
        row = new.set old := by
  induction log generalizing db with
  | nil => exact .inl h
  | cons write log ih =>
    rw [Database.after_cons] at h
    rcases ih h with hmem | hinserted | ⟨new, old, hupdated, hrow⟩
    · cases write with
      | insertWager r =>
        rcases List.mem_append.mp hmem with hmem | hmem
        · exact .inl hmem
        · rw [List.mem_singleton.mp hmem]
          exact .inr (.inl List.mem_cons_self)
      | updateWager r =>
        rcases Keyed.mem_adjust.mp hmem with ⟨old, -, hid, rfl⟩ | ⟨hmem, -⟩
        · exact .inr (.inr ⟨r, old, List.mem_cons_self, hid, rfl⟩)
        · exact .inl hmem
      | _ => exact .inl hmem
    · exact .inr (.inl (List.mem_cons_of_mem _ hinserted))
    · exact .inr (.inr ⟨new, old, List.mem_cons_of_mem _ hupdated, hrow⟩)

end Wagering
