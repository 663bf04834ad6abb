import Wagering.Guarantees.Balances

/-!
# Reversals

What right books say about reversals: each one undoes a processed transaction of
a kind it may undo, a transaction has at most one that has not been undone, and
so a bet or a win, its reversals and their rollbacks together move the wallet by
the whole amount or by nothing.
-/

namespace Wagering

namespace Books

variable {b : Books} {t u v : WagerTransactionRow} {e : WalletLedgerEntryRow}

/-- `u` was applied as a reversal of the transaction `id`. -/
def isReversalOf (id : Text) (u : WagerTransactionRow) : Bool :=
  u.kind.isReversal && u.referenceTransactionId = some id

/-- The reversals of a transaction. -/
def reversalsOf (b : Books) (t : WagerTransactionRow) : List WagerTransactionRow :=
  b.wagers.filter (isReversalOf t.id)

/-- The rollbacks of the reversals of a transaction. -/
def rollbacksOf (b : Books) (t : WagerTransactionRow) : List WagerTransactionRow :=
  b.wagers.filter fun v => (b.reversalsOf t).any fun u => isReversalOf u.id v

/-- What the entries of a transaction add to its wallet. -/
def moved (b : Books) (t : WagerTransactionRow) : Int :=
  ((b.entriesOf t.id).map WalletLedgerEntryRow.signed).sum

/-- What a transaction, its reversals and their rollbacks add to the wallet. -/
def net (b : Books) (t : WagerTransactionRow) : Int :=
  ((t :: b.reversalsOf t ++ b.rollbacksOf t).map b.moved).sum

theorem mem_reversalsOf :
    u ∈ b.reversalsOf t ↔
      u ∈ b.wagers ∧ u.kind.isReversal = true ∧ u.referenceTransactionId = some t.id := by
  simp [reversalsOf, isReversalOf]

theorem mem_rollbacksOf :
    v ∈ b.rollbacksOf t ↔ ∃ u ∈ b.reversalsOf t, v ∈ b.reversalsOf u := by
  simp only [rollbacksOf, List.mem_filter, List.any_eq_true, mem_reversalsOf, isReversalOf,
    Bool.and_eq_true, decide_eq_true_eq]
  constructor
  · rintro ⟨hv, u, hu, hk, hid⟩
    exact ⟨u, hu, hv, hk, hid⟩
  · rintro ⟨u, hu, hv, hk, hid⟩
    exact ⟨hv, u, hu, hk, hid⟩

variable [Platform]

/-! ## One reversal -/

/-- What a reversal undoes. -/
theorem Consistent.reverses (hc : b.Consistent) (hu : u ∈ b.reversalsOf t) (ht : t ∈ b.wagers) :
    u.status = .processed ∧ Reverses u t := by
  obtain ⟨hmem, hkind, hid⟩ := mem_reversalsOf.mp hu
  have right := hc.wagers u hmem
  have hprocessed := (right.linked t.id hid).1
  obtain ⟨r, hr, hrid, reverses⟩ := right.reversal hprocessed hkind
  have heq : r = t := hc.eq_of_id hr ht (Option.some.inj (hrid.symm.trans hid))
  exact ⟨hprocessed, heq ▸ reverses⟩

/-- A reversal moves the wallet the other way. -/
theorem Consistent.direction_opposite (hc : b.Consistent) {e' : WalletLedgerEntryRow}
    (hu : u ∈ b.reversalsOf t) (ht : t ∈ b.wagers) (he : e ∈ b.entriesOf u.id)
    (he' : e' ∈ b.entriesOf t.id) : e.direction = e'.direction.opposite := by
  obtain ⟨-, reverses⟩ := hc.reverses hu ht
  obtain ⟨hmem, hkind, hid⟩ := mem_reversalsOf.mp hu
  obtain ⟨-, -, -, enters, -⟩ := (hc.wagers u hmem).settled.of_entry he
  obtain ⟨-, -, -, enters', -⟩ := (hc.wagers t ht).settled.of_entry he'
  have hreference : t.kind ∈ u.kind.reversibleKinds := reverses.kind
  have hbase : t.kind.baseDirection = some e'.direction := by
    rcases enters'.directed with h | ⟨hrollback, -⟩
    · exact h
    · rw [hrollback] at hreference
      cases hk : u.kind <;> simp [hk, WagerTransactionKind.reversibleKinds] at hreference
  rcases enters.directed with h | ⟨-, r, hr, hrid, -, hdirection⟩
  · -- a refund credits what the bet has debited
    cases hk : u.kind <;> simp [hk, WagerTransactionKind.reversibleKinds] at hreference
    · rw [hk, WagerTransactionKind.baseDirection, Option.some.injEq] at h
      rw [hreference, WagerTransactionKind.baseDirection, Option.some.injEq] at hbase
      rw [← h, ← hbase]
      rfl
    · rw [hk] at h
      cases h
  · have heq : r = t := hc.eq_of_id hr ht (Option.some.inj (hrid.symm.trans hid))
    rw [heq, hbase] at hdirection
    rw [Option.some.inj hdirection, LedgerDirection.opposite_opposite]

/-- A processed transaction that moves money is moved by its amount. -/
theorem Consistent.moved_eq (hc : b.Consistent) (ht : t ∈ b.wagers) (hs : t.status = .processed)
    (hk : t.kind ≠ .loss) :
    ∃ e ∈ b.entriesOf t.id, b.Enters t e ∧ b.moved t = e.direction.signed t.amount := by
  obtain ⟨e, hentries, enters⟩ := (hc.wagers t ht).settled.moved hs hk
  refine ⟨e, hentries ▸ List.mem_cons_self, enters, ?_⟩
  simp [moved, hentries, WalletLedgerEntryRow.signed, enters.amount]

/-- A reversal takes back what its reference moved. -/
theorem Consistent.moved_reversal (hc : b.Consistent) (hu : u ∈ b.reversalsOf t)
    (ht : t ∈ b.wagers) : b.moved u = -b.moved t := by
  obtain ⟨hprocessed, reverses⟩ := hc.reverses hu ht
  obtain ⟨hmem, hkind, -⟩ := mem_reversalsOf.mp hu
  have hloss : u.kind ≠ .loss := by
    intro h
    rw [h] at hkind
    cases hkind
  have hloss' : t.kind ≠ .loss := by
    intro h
    have := reverses.kind
    rw [h] at this
    cases hk : u.kind <;> simp [hk, WagerTransactionKind.reversibleKinds] at this
  obtain ⟨e, he, -, hmoved⟩ := hc.moved_eq hmem hprocessed hloss
  obtain ⟨e', he', -, hmoved'⟩ := hc.moved_eq ht reverses.processed hloss'
  rw [hmoved, hmoved', hc.direction_opposite hu ht he he', reverses.amount,
    LedgerDirection.signed_opposite]

/-! ## The slot -/

theorem Consistent.wagers_nodup (hc : b.Consistent) : b.wagers.Nodup := hc.wagerIds.of_map

/-- Nothing reverses a rollback. -/
theorem Consistent.rollback_final (hc : b.Consistent) (ht : t ∈ b.wagers)
    (hk : t.kind = .rollback) : b.reversalsOf t = [] := by
  refine List.eq_nil_iff_forall_not_mem.mpr fun u hu => ?_
  obtain ⟨-, reverses⟩ := hc.reverses hu ht
  have := reverses.kind
  rw [hk] at this
  cases hk : u.kind <;> simp [hk, WagerTransactionKind.reversibleKinds] at this

/-- Whether a reversal holds the slot of its reference. -/
theorem Consistent.active_iff (hc : b.Consistent) (hu : u ∈ b.reversalsOf t) (ht : t ∈ b.wagers) :
    isActiveReversal b.wagers t.id u = true ↔ b.reversalsOf u = [] := by
  obtain ⟨hprocessed, -⟩ := hc.reverses hu ht
  obtain ⟨hmem, hkind, hid⟩ := mem_reversalsOf.mp hu
  rw [isActiveReversal_iff]
  constructor
  · rintro ⟨-, -, -, hnone⟩
    refine List.eq_nil_iff_forall_not_mem.mpr fun v hv => ?_
    obtain ⟨hvprocessed, reverses⟩ := hc.reverses hv hmem
    obtain ⟨hvmem, hvkind, hvid⟩ := mem_reversalsOf.mp hv
    refine hnone v hvmem ⟨hvid, hvprocessed, ?_⟩
    have hreversible := reverses.kind
    -- a refund reverses bets only, so what reverses a reversal is a rollback
    cases hk : v.kind <;> simp [hk, WagerTransactionKind.reversibleKinds] at hreversible ⊢
    rw [hreversible] at hkind
    cases hkind
  · intro hnil
    refine ⟨hid, hprocessed, hkind, ?_⟩
    rintro v hv ⟨hvid, -, hvkind⟩
    have hv' : v ∈ b.reversalsOf u := mem_reversalsOf.mpr ⟨hv, by rw [hvkind]; rfl, hvid⟩
    rw [hnil] at hv'
    cases hv'

/-- A reversal was undone at most once. -/
theorem Consistent.undone_once (hc : b.Consistent) (hu : u ∈ b.reversalsOf t)
    {v v' : WagerTransactionRow} (hv : v ∈ b.reversalsOf u)
    (hv' : v' ∈ b.reversalsOf u) : v = v' := by
  obtain ⟨hmem, hkind, -⟩ := mem_reversalsOf.mp hu
  have hactive : ∀ {v : WagerTransactionRow}, v ∈ b.reversalsOf u →
      isActiveReversal b.wagers u.id v = true := by
    intro v hv
    obtain ⟨-, reverses⟩ := hc.reverses hv hmem
    have hreversible := reverses.kind
    refine (hc.active_iff hv hmem).mpr (hc.rollback_final (mem_reversalsOf.mp hv).1 ?_)
    cases hk : v.kind <;> simp [hk, WagerTransactionKind.reversibleKinds] at hreversible ⊢
    rw [hreversible] at hkind
    cases hkind
  exact hc.slots (mem_reversalsOf.mp hv).1 (mem_reversalsOf.mp hv').1 (hactive hv) (hactive hv')

/-! ## Conservation -/

/-- The rollbacks undo one reversal each. -/
theorem Consistent.length_rollbacksOf (hc : b.Consistent) (ht : t ∈ b.wagers) :
    (b.rollbacksOf t).length =
      ((b.reversalsOf t).filter fun u => !isActiveReversal b.wagers t.id u).length := by
  have hinj : ∀ x ∈ b.rollbacksOf t, ∀ y ∈ b.rollbacksOf t,
      x.referenceTransactionId = y.referenceTransactionId → x = y := by
    intro x hx y hy heq
    obtain ⟨u, hu, hxu⟩ := mem_rollbacksOf.mp hx
    obtain ⟨u', hu', hyu⟩ := mem_rollbacksOf.mp hy
    have hid : u.id = u'.id := by
      have hx' := (mem_reversalsOf.mp hxu).2.2
      have hy' := (mem_reversalsOf.mp hyu).2.2
      exact Option.some.inj (hx'.symm.trans (heq.trans hy'))
    have huu : u = u' := hc.eq_of_id (mem_reversalsOf.mp hu).1 (mem_reversalsOf.mp hu').1 hid
    exact hc.undone_once hu hxu (huu ▸ hyu)
  have hleft : ((b.rollbacksOf t).map WagerTransactionRow.referenceTransactionId).Nodup :=
    List.Nodup.map_on hinj (hc.wagers_nodup.filter _)
  have hright : (((b.reversalsOf t).filter fun u => !isActiveReversal b.wagers t.id u).map
      fun u => some u.id).Nodup := by
    refine List.Nodup.map_on (fun x hx y hy heq => ?_) ((hc.wagers_nodup.filter _).filter _)
    exact hc.eq_of_id (mem_reversalsOf.mp (List.mem_filter.mp hx).1).1
      (mem_reversalsOf.mp (List.mem_filter.mp hy).1).1 (Option.some.inj heq)
  have hperm := (List.perm_ext_iff_of_nodup hleft hright).mpr fun id => ?_
  · simpa using hperm.length_eq
  · simp only [List.mem_map, List.mem_filter, Bool.not_eq_true']
    constructor
    · rintro ⟨v, hv, rfl⟩
      obtain ⟨u, hu, hvu⟩ := mem_rollbacksOf.mp hv
      refine ⟨u, ⟨hu, Bool.eq_false_iff.mpr fun hactive => ?_⟩, (mem_reversalsOf.mp hvu).2.2.symm⟩
      rw [(hc.active_iff hu ht).mp hactive] at hvu
      cases hvu
    · rintro ⟨u, ⟨hu, hactive⟩, rfl⟩
      have hne : b.reversalsOf u ≠ [] := fun hnil => by
        rw [(hc.active_iff hu ht).mpr hnil] at hactive
        cases hactive
      obtain ⟨v, hv⟩ := List.exists_mem_of_ne_nil _ hne
      exact ⟨v, mem_rollbacksOf.mpr ⟨u, hu, hv⟩, (mem_reversalsOf.mp hv).2.2⟩

/-- At most one reversal of a transaction is active. -/
theorem Consistent.length_active (hc : b.Consistent) :
    ((b.reversalsOf t).filter (isActiveReversal b.wagers t.id)).length =
      if hasActiveReversal b.wagers t.id then 1 else 0 := by
  cases hactive : hasActiveReversal b.wagers t.id with
  | false =>
    rw [hasActiveReversal, List.any_eq_false] at hactive
    rw [List.filter_eq_nil_iff.mpr fun u hu => hactive u (mem_reversalsOf.mp hu).1]
    rfl
  | true =>
    obtain ⟨u, hu, hactive⟩ := List.any_eq_true.mp hactive
    have hmem : u ∈ b.reversalsOf t := by
      obtain ⟨hid, -, hkind, -⟩ := isActiveReversal_iff.mp hactive
      exact mem_reversalsOf.mpr ⟨hu, hkind, hid⟩
    have hsingle : (b.reversalsOf t).filter (isActiveReversal b.wagers t.id) = [u] := by
      refine List.perm_singleton.mp ((List.perm_ext_iff_of_nodup
        ((hc.wagers_nodup.filter _).filter _) (List.nodup_singleton u)).mpr fun v => ?_)
      rw [List.mem_filter, List.mem_singleton]
      constructor
      · rintro ⟨hv, hvactive⟩
        exact hc.slots (mem_reversalsOf.mp hv).1 hu hvactive hactive
      · rintro rfl
        exact ⟨hmem, hactive⟩
    rw [hsingle]
    rfl

/-- A transaction, its reversals and their rollbacks move the wallet as the
transaction did, or not at all when a reversal is active. -/
theorem Consistent.conserved (hc : b.Consistent) (ht : t ∈ b.wagers) :
    b.net t = if hasActiveReversal b.wagers t.id then 0 else b.moved t := by
  have hreversals : ((b.reversalsOf t).map b.moved).sum =
      -((b.reversalsOf t).length * b.moved t) := by
    have hmap : (b.reversalsOf t).map b.moved = (b.reversalsOf t).map fun _ => -b.moved t :=
      List.map_congr_left fun u hu => hc.moved_reversal hu ht
    simp [hmap]
  have hrollbacks : ((b.rollbacksOf t).map b.moved).sum =
      (b.rollbacksOf t).length * b.moved t := by
    have hmap : (b.rollbacksOf t).map b.moved = (b.rollbacksOf t).map fun _ => b.moved t := by
      refine List.map_congr_left fun v hv => ?_
      obtain ⟨u, hu, hvu⟩ := mem_rollbacksOf.mp hv
      rw [hc.moved_reversal hvu (mem_reversalsOf.mp hu).1, hc.moved_reversal hu ht, neg_neg]
    simp [hmap]
  have hlength : (b.reversalsOf t).length =
      ((b.reversalsOf t).filter (isActiveReversal b.wagers t.id)).length +
        (b.rollbacksOf t).length := by
    rw [hc.length_rollbacksOf ht]
    exact (List.length_eq_length_filter_add _)
  simp only [net, List.cons_append, List.map_cons, List.sum_cons, List.map_append,
    List.sum_append, hreversals, hrollbacks, hlength, hc.length_active]
  split
  · push_cast
    ring
  · push_cast
    ring

/-- A transaction of a kind with a direction of its own moves the wallet that way. -/
theorem Consistent.moved_base (hc : b.Consistent) (ht : t ∈ b.wagers)
    (hs : t.status = .processed) {direction : LedgerDirection}
    (hbase : t.kind.baseDirection = some direction) (hk : t.kind ≠ .loss) :
    b.moved t = direction.signed t.amount := by
  obtain ⟨e, -, enters, hmoved⟩ := hc.moved_eq ht hs hk
  rcases enters.directed with h | ⟨hrollback, -⟩
  · rw [hmoved, Option.some.inj (h.symm.trans hbase)]
  · rw [hrollback] at hbase
    cases hbase

/-! ## Over every run -/

/-- The entry of the one transaction undoes the entry of the other. -/
def Undoes (b : Books) (u t : WagerTransactionRow) : Prop :=
  ∃ e e', b.entriesOf u.id = [e] ∧ b.entriesOf t.id = [e'] ∧ e.direction = e'.direction.opposite

/-- What holds of reversals. -/
structure ReversedOnce (b : Books) : Prop where
  reversal : ∀ u ∈ b.wagers, u.status = .processed → u.kind.isReversal = true →
    ∃ t ∈ b.wagers, u.referenceTransactionId = some t.id ∧ Reverses u t ∧ b.Undoes u t
  slot : ∀ (t : WagerTransactionRow), ∀ u ∈ b.wagers, ∀ v ∈ b.wagers,
    isActiveReversal b.wagers t.id u = true → isActiveReversal b.wagers t.id v = true → u = v
  bet : ∀ t ∈ b.wagers, t.status = .processed → t.kind = .bet →
    b.net t = if hasActiveReversal b.wagers t.id then 0 else -t.amount
  win : ∀ t ∈ b.wagers, t.status = .processed → t.kind = .win →
    b.net t = if hasActiveReversal b.wagers t.id then 0 else t.amount

end Books

/-- In every state that the service reaches nothing was reversed twice. -/
theorem Reachable.reversedOnce [Platform] [Driver] {w : Service} (h : Reachable w) :
    w.shared.db.books.ReversedOnce := by
  have hc := h.sound.inv.books
  refine
    { reversal := fun u hu hs hk => ?reversal
      slot := fun t u hu v hv hactive hactive' => hc.slots hu hv hactive hactive'
      bet := fun t ht hs hk => ?bet
      win := fun t ht hs hk => ?win }
  case reversal =>
    obtain ⟨t, ht, hid, reverses⟩ := (hc.wagers u hu).reversal hs hk
    have hmem : u ∈ w.shared.db.books.reversalsOf t := Books.mem_reversalsOf.mpr ⟨hu, hk, hid⟩
    have hloss : u.kind ≠ .loss := by
      intro h
      rw [h] at hk
      cases hk
    have hloss' : t.kind ≠ .loss := by
      intro h
      have := reverses.kind
      rw [h] at this
      cases hk : u.kind <;> simp [hk, WagerTransactionKind.reversibleKinds] at this
    obtain ⟨e, he, -⟩ := (hc.wagers u hu).settled.moved hs hloss
    obtain ⟨e', he', -⟩ := (hc.wagers t ht).settled.moved reverses.processed hloss'
    exact ⟨t, ht, hid, reverses, e, e', he, he', hc.direction_opposite hmem ht
      (he ▸ List.mem_cons_self) (he' ▸ List.mem_cons_self)⟩
  case bet =>
    rw [hc.conserved ht, hc.moved_base ht hs (by rw [hk]; rfl) (by rw [hk]; decide)]
    rfl
  case win =>
    rw [hc.conserved ht, hc.moved_base ht hs (by rw [hk]; rfl) (by rw [hk]; decide)]
    rfl

theorem sample_reversedOnce : sampleService.shared.db.books.ReversedOnce :=
  @Reachable.reversedOnce samplePlatform sampleDriver sampleService sample_reachable

end Wagering
