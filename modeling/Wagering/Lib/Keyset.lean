import Mathlib.Data.List.Basic
import Mathlib.Data.List.Nodup
import Mathlib.Data.List.Perm.Subperm
import Mathlib.Order.Defs.Unbundled
import Wagering.Lib.Keyed

/-!
# Keyset pagination

Rows are listed downwards in the order of their keys.  A page after a cursor is
the first rows below it, found with one more than asked for, which tells
whether there are further ones.  The next cursor is the key of the last row.

A walk follows the cursors while rows are inserted anywhere.  It goes strictly
downwards, so nothing comes twice, and it passes every row that was there at
the start (`Walk.passes`).
-/

namespace Keyset

variable {ρ κ : Type} (key : ρ → κ) (lt : κ → κ → Prop) [DecidableRel lt]

/-- The row lies below the cursor. -/
def below (after : Option κ) (x : ρ) : Bool := after.all fun c => lt (key x) c

/-- Rows downwards by their keys. -/
def downwards (rows : List ρ) : List ρ := rows.mergeSort fun x y => !decide (lt (key x) (key y))

/-- The rows that the query for a page finds. -/
def found (rows : List ρ) (limit : Nat) (after : Option κ) : List ρ :=
  (downwards key lt (rows.filter (below key lt after))).take (limit + 1)

variable {key lt} {rows rows' : List ρ} {limit : Nat} {after : Option κ} {x y : ρ}

@[simp] theorem below_some {c : κ} : below key lt (some c) x = true ↔ lt (key x) c := by
  simp [below]

/-- The page of the rows found. -/
def page (limit : Nat) (found : List ρ) : List ρ := found.take limit

/-- There are rows beyond the page. -/
def hasMore (limit : Nat) (found : List ρ) : Bool := limit < found.length

theorem mem_found (h : x ∈ found key lt rows limit after) :
    x ∈ rows ∧ below key lt after x = true := by
  have hmem := List.mem_of_mem_take h
  rw [downwards, List.mem_mergeSort] at hmem
  exact List.mem_filter.mp hmem

section Order

variable [IsStrictTotalOrder κ lt]

/-- The sorted rows go strictly downwards. -/
theorem pairwise_downwards (h : Keyed.Distinct key rows) :
    (downwards key lt rows).Pairwise fun x y => lt (key y) (key x) := by
  have hsorted : (downwards key lt rows).Pairwise
      fun x y => (!decide (lt (key x) (key y))) = true := by
    refine List.pairwise_mergeSort (fun x y z hxy hyz => ?_) (fun x y => ?_) rows
    · simp only [Bool.not_eq_true', decide_eq_false_iff_not] at hxy hyz ⊢
      intro hxz
      rcases trichotomous_of lt (key x) (key y) with h | h | h
      · exact hxy h
      · exact hyz (h ▸ hxz)
      · exact hyz (trans_of lt h hxz)
    · by_cases h : lt (key x) (key y)
      · simp [h, asymm_of lt h]
      · simp [h]
  have hdistinct : (downwards key lt rows).Pairwise fun x y => key x ≠ key y :=
    (List.pairwise_map.mp h).perm (List.mergeSort_perm _ _).symm fun hne => hne.symm
  refine (hsorted.and hdistinct).imp fun ⟨hle, hne⟩ => ?_
  simp only [Bool.not_eq_true', decide_eq_false_iff_not] at hle
  rcases trichotomous_of lt (key _) (key _) with h | h | h
  · exact absurd h hle
  · exact absurd h hne
  · exact h

theorem distinct_filter {p : ρ → Bool} (h : Keyed.Distinct key rows) :
    Keyed.Distinct key (rows.filter p) :=
  List.Nodup.sublist (List.filter_sublist.map key) h

theorem pairwise_found (h : Keyed.Distinct key rows) :
    (found key lt rows limit after).Pairwise fun x y => lt (key y) (key x) :=
  (pairwise_downwards (distinct_filter h)).sublist (List.take_sublist _ _)

/-- A row below the cursor is on the page, or the page is full and the row is
below all of it. -/
theorem mem_page_or (limit : Nat) (h : Keyed.Distinct key rows) (hx : x ∈ rows)
    (hbelow : below key lt after x = true) :
    x ∈ page limit (found key lt rows limit after) ∨
      hasMore limit (found key lt rows limit after) = true ∧
        ∀ y ∈ page limit (found key lt rows limit after), lt (key x) (key y) := by
  have hmem : x ∈ downwards key lt (rows.filter (below key lt after)) := by
    rw [downwards, List.mem_mergeSort]
    exact List.mem_filter.mpr ⟨hx, hbelow⟩
  have hpairwise : (downwards key lt (rows.filter (below key lt after))).Pairwise
      fun x y => lt (key y) (key x) :=
    pairwise_downwards (distinct_filter h)
  unfold page hasMore found
  rw [List.take_take, Nat.min_eq_left (Nat.le_succ limit)]
  rw [← List.take_append_drop limit (downwards key lt (rows.filter (below key lt after)))]
    at hmem hpairwise
  rcases List.mem_append.mp hmem with hmem | hmem
  · exact .inl hmem
  · have hlength := List.length_pos_of_mem hmem
    rw [List.length_drop] at hlength
    refine .inr ⟨?_, fun y hy => (List.pairwise_append.mp hpairwise).2.2 y hy x hmem⟩
    simp only [List.length_take, decide_eq_true_eq]
    omega

/-- The listing is the one order of the rows that goes downwards. -/
theorem downwards_eq {listed : List ρ} (h : Keyed.Distinct key rows) (hperm : rows.Perm listed)
    (hdown : listed.Pairwise fun x y => lt (key y) (key x)) : downwards key lt rows = listed :=
  ((List.mergeSort_perm _ _).trans hperm).eq_of_pairwise
    (fun _ _ _ _ hxy hyx => (asymm_of lt hxy hyx).elim) (pairwise_downwards h) hdown

/-- A list is the reverse of its listing exactly when its keys ascend. -/
theorem downwards_eq_reverse_iff (h : Keyed.Distinct key rows) :
    downwards key lt rows = rows.reverse ↔ rows.Pairwise fun x y => lt (key x) (key y) := by
  rw [← List.pairwise_reverse]
  constructor
  · intro heq
    have hdown : (downwards key lt rows).Pairwise fun x y => lt (key y) (key x) :=
      pairwise_downwards h
    rwa [heq] at hdown
  · exact downwards_eq h (List.reverse_perm rows).symm

end Order

/-! ## Walks -/

/-- Where a walk has come to: the cursor of its next request, or its end. -/
inductive Progress (κ : Type) : Type
  | at (after : Option κ)
  | over

/-- A walk from a cursor, with the pages that it got and where it has come to.
Between its requests rows are only added, and each request has its own limit. -/
inductive Walk (key : ρ → κ) (lt : κ → κ → Prop) [DecidableRel lt] :
    List ρ → Option κ → List (List ρ) → Progress κ → Prop
  | start {rows : List ρ} {after : Option κ} : Walk key lt rows after [] (.at after)
  | last {rows rows' : List ρ} {after : Option κ} {limit : Nat}
      (hgrows : ∀ x ∈ rows, x ∈ rows') (hdistinct : Keyed.Distinct key rows')
      (hlast : hasMore limit (found key lt rows' limit after) = false) :
      Walk key lt rows after [page limit (found key lt rows' limit after)] .over
  | next {rows rows' : List ρ} {after : Option κ} {limit : Nat} {x : ρ} {pages : List (List ρ)}
      {progress : Progress κ} (hgrows : ∀ x ∈ rows, x ∈ rows') (hdistinct : Keyed.Distinct key rows')
      (hx : (page limit (found key lt rows' limit after)).getLast? = some x)
      (rest : Walk key lt rows' (some (key x)) pages progress) :
      Walk key lt rows after (page limit (found key lt rows' limit after) :: pages) progress

/-- The rows of a walk, page after page. -/
structure Passes (key : ρ → κ) (lt : κ → κ → Prop) [DecidableRel lt] (rows : List ρ)
    (after : Option κ) (pages : List (List ρ)) (progress : Progress κ) : Prop where
  downwards : pages.flatten.Pairwise fun x y => lt (key y) (key x)
  below : ∀ x ∈ pages.flatten, below key lt after x = true
  complete : progress = .over → ∀ x ∈ rows, Keyset.below key lt after x = true →
    x ∈ pages.flatten
  length : pages.length ≤ pages.flatten.length + 1

variable [IsStrictTotalOrder κ lt] {pages : List (List ρ)} {progress : Progress κ}

omit [DecidableRel lt] [IsStrictTotalOrder κ lt] in
/-- The last row of a page is the lowest. -/
theorem last_le_page {found : List ρ} (hfound : found.Pairwise fun x y => lt (key y) (key x))
    (hx : found.getLast? = some x) (hy : y ∈ found) : y = x ∨ lt (key x) (key y) := by
  obtain ⟨init, rfl⟩ := List.getLast?_eq_some_iff.mp hx
  rcases List.mem_append.mp hy with hy | hy
  · exact .inr ((List.pairwise_append.mp hfound).2.2 y hy x List.mem_cons_self)
  · exact .inl (List.mem_singleton.mp hy)

theorem Walk.passes (h : Walk key lt rows after pages progress) :
    Passes key lt rows after pages progress := by
  induction h with
  | start =>
    exact
      { downwards := .nil
        below := fun x hx => by cases hx
        complete := fun hover => by cases hover
        length := Nat.zero_le _ }
  | @last rows rows' after limit hgrows hdistinct hlast =>
    have hpage : ∀ x, x ∈ [page limit (found key lt rows' limit after)].flatten ↔
        x ∈ page limit (found key lt rows' limit after) := by simp
    refine
      { downwards := ?_
        below := fun x hx => (mem_found (List.mem_of_mem_take ((hpage x).mp hx))).2
        complete := fun _ x hx hbelow => (hpage x).mpr ?_
        length := by simp }
    · rw [List.flatten_singleton]
      exact (pairwise_found hdistinct).sublist (List.take_sublist _ _)
    · rcases mem_page_or limit hdistinct (hgrows x hx) hbelow with hmem | ⟨hmore, -⟩
      · exact hmem
      · rw [hlast] at hmore
        cases hmore
  | @next rows rows' after limit x pages progress hgrows hdistinct hx rest ih =>
    have hdown : (page limit (found key lt rows' limit after)).Pairwise
        fun x y => lt (key y) (key x) :=
      (pairwise_found hdistinct).sublist (List.take_sublist _ _)
    have hxmem := List.mem_of_getLast? hx
    have hxbelow := (mem_found (List.mem_of_mem_take hxmem)).2
    -- what comes later is below the last row of this page
    have hlater : ∀ y ∈ pages.flatten, lt (key y) (key x) :=
      fun y hy => below_some.mp (ih.below y hy)
    refine
      { downwards := List.pairwise_append.mpr ⟨hdown, ih.downwards, fun y hy z hz => ?_⟩
        below := fun y hy => ?_
        complete := fun hover y hy hbelow => ?_
        length := ?_ }
    · rcases last_le_page hdown hx hy with rfl | hlt
      · exact hlater z hz
      · exact trans_of lt (hlater z hz) hlt
    · rcases List.mem_append.mp hy with hpage | hrest
      · exact (mem_found (List.mem_of_mem_take hpage)).2
      · cases after with
        | none => rfl
        | some c =>
          exact below_some.mpr (trans_of lt (hlater y hrest) (below_some.mp hxbelow))
    · rcases mem_page_or limit hdistinct (hgrows y hy) hbelow with hmem | ⟨-, hlow⟩
      · exact List.mem_append_left _ hmem
      · exact List.mem_append_right _
          (ih.complete hover y (hgrows y hy) (below_some.mpr (hlow x hxmem)))
    · have hpos := List.length_pos_of_mem hxmem
      have := ih.length
      simp only [List.length_cons, List.flatten_cons, List.length_append]
      omega

/-- A walk that only meets these rows ends: it has at most one page more than
there are rows. -/
theorem Walk.length_le (h : Walk key lt rows after pages progress) {all : List ρ}
    (hall : ∀ x ∈ pages.flatten, x ∈ all) : pages.length ≤ all.length + 1 := by
  have hpasses := h.passes
  have hnodup : pages.flatten.Nodup := hpasses.downwards.imp fun {a b} hlt heq => by
    rw [heq] at hlt
    exact irrefl_of lt (key b) hlt
  exact Nat.le_trans hpasses.length
    (Nat.succ_le_succ (List.Nodup.subperm hnodup hall).length_le)

end Keyset
