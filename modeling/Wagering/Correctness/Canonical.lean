import Mathlib.Data.List.Perm.Basic
import Wagering.Application.PayloadHash
import Wagering.Lib.Separated

/-!
# Canonical texts

`canonicalize` never prints two values alike.  A printed string says where it
ends, because a quote inside it is escaped; a number ends at the first character
that no number has; an array and an object end at their bracket.  So the text of
a value, whatever follows it in an enclosing value, determines the value up to
the order of object keys.
-/

namespace Wagering

open Text Separated

/-! ## Strings -/

/-- The value of a lower-case hexadecimal digit. -/
def Text.hexValue (u : UInt16) : Nat := if u.toNat < 58 then u.toNat - 48 else u.toNat - 87

/-- The code unit that `\` and a letter stand for. -/
def Text.unescapeLetter (u : UInt16) : UInt16 :=
  match u.toNat with
  | 98 => 8
  | 102 => 12
  | 110 => 10
  | 114 => 13
  | 116 => 9
  | _ => u

/-- The code unit that is escaped after a backslash, and what follows it. -/
def Text.readEscape : Text → Option (UInt16 × Text)
  | [] => none
  | v :: rest =>
    if v.toNat = 117 then
      match rest with
      | a :: b :: c :: d :: rest =>
        some ((hexValue a * 4096 + hexValue b * 256 + hexValue c * 16 + hexValue d).toUInt16,
          rest)
      | _ => none
    else some (unescapeLetter v, rest)

/-- The first code unit of a printed string, and what follows it; nothing at the
closing quote. -/
def Text.readUnit : Text → Option (UInt16 × Text)
  | [] => none
  | u :: rest =>
    if u.toNat = 34 then none
    else if u.toNat = 92 then readEscape rest
    else some (u, rest)

theorem Text.hexValue_hexDigit {n : Nat} (h : n < 16) : hexValue (hexDigit n) = n := by
  unfold hexValue
  rw [toNat_hexDigit h]
  split <;> split <;> omega

/-- A code unit that is neither a quote nor a backslash is read as it is. -/
theorem Text.readUnit_plain {u : UInt16} (hquote : u.toNat ≠ 34) (hslash : u.toNat ≠ 92)
    (rest : Text) : readUnit (u :: rest) = some (u, rest) := by
  simp only [readUnit, hquote, hslash, if_false]

/-- A code unit that was escaped is read back. -/
theorem Text.readUnit_jsonEscape (u : UInt16) (rest : Text) :
    readUnit (jsonEscape u ++ rest) = some (u, rest) := by
  have hunit : ∀ n : Nat, u.toNat = n → u = n.toUInt16 := by
    intro n hn
    subst hn
    exact UInt16.ofNat_toNat.symm
  unfold jsonEscape
  split
  · rw [hunit 34 ‹_›]
    rfl
  · rw [hunit 92 ‹_›]
    rfl
  · rw [hunit 8 ‹_›]
    rfl
  · rw [hunit 12 ‹_›]
    rfl
  · rw [hunit 10 ‹_›]
    rfl
  · rw [hunit 13 ‹_›]
    rfl
  · rw [hunit 9 ‹_›]
    rfl
  · split
    · have hlt := u.toNat_lt
      have hsum : u.toNat / 4096 * 4096 + u.toNat / 256 % 16 * 256 + u.toNat / 16 % 16 * 16 +
          u.toNat % 16 = u.toNat := by omega
      have hread : readUnit (unicodeEscape u ++ rest) =
          some ((hexValue (hexDigit (u.toNat / 4096)) * 4096 +
            hexValue (hexDigit (u.toNat / 256 % 16)) * 256 +
            hexValue (hexDigit (u.toNat / 16 % 16)) * 16 +
            hexValue (hexDigit (u.toNat % 16))).toUInt16, rest) := rfl
      rw [hread, hexValue_hexDigit (by omega), hexValue_hexDigit (by omega),
        hexValue_hexDigit (by omega), hexValue_hexDigit (by omega), hsum]
      simp [Nat.toUInt16]
    · exact readUnit_plain ‹_› ‹_› rest

/-- A text that prints a string unit by unit: escaped, or a surrogate as it is. -/
inductive Text.Prints : Text → Text → Prop
  | nil : Prints [] []
  | escaped {t x : Text} (u : UInt16) (rest : Prints t x) : Prints (u :: t) (jsonEscape u ++ x)
  | raw {t x : Text} {u : UInt16} (hu : isSurrogate u = true) (rest : Prints t x) :
    Prints (u :: t) (u :: x)

theorem Text.isSurrogate_of_isLowSurrogate {u : UInt16} (h : isLowSurrogate u = true) :
    isSurrogate u = true := by
  simp only [isLowSurrogate, isSurrogate, Bool.and_eq_true, decide_eq_true_eq] at *
  omega

theorem Text.prints_jsonEscapes (t : Text) : Prints t (jsonEscapes t) := by
  fun_induction jsonEscapes t with
  | case1 => exact .nil
  | case2 u =>
    have h := Prints.escaped u .nil
    rwa [List.append_nil] at h
  | case3 u v rest hpair ih =>
    rw [Bool.and_eq_true] at hpair
    exact .raw (isSurrogate_of_isHighSurrogate hpair.1)
      (.raw (isSurrogate_of_isLowSurrogate hpair.2) ih)
  | case4 u v rest _ ih => exact .escaped u ih

/-- The first unit of a printed string is read back, and a string that is not
empty does not begin with its closing quote. -/
theorem Text.Prints.readUnit {u : UInt16} {t x : Text} (h : Prints (u :: t) x) (rest : Text) :
    ∃ x', Prints t x' ∧ Text.readUnit (x ++ rest) = some (u, x' ++ rest) := by
  cases h with
  | escaped _ htail =>
    refine ⟨_, htail, ?_⟩
    rw [List.append_assoc, readUnit_jsonEscape]
  | raw hu htail =>
    refine ⟨_, htail, readUnit_plain ?_ ?_ _⟩
    · rintro h34
      simp [isSurrogate, h34] at hu
    · rintro h92
      simp [isSurrogate, h92] at hu

/-- Printed strings, closed by their quotes, tell what they print and where they end. -/
theorem Text.Prints.inj {s t x y r r' : Text} (hs : Prints s x) (ht : Prints t y)
    (h : x ++ 34 :: r = y ++ 34 :: r') : s = t ∧ r = r' := by
  induction s generalizing t x y with
  | nil =>
    cases hs
    cases t with
    | nil =>
      cases ht
      exact ⟨rfl, (List.cons.inj h).2⟩
    | cons v t =>
      obtain ⟨y', -, hread⟩ := ht.readUnit (34 :: r')
      rw [← h] at hread
      cases hread
  | cons u s ih =>
    obtain ⟨x', hs', hread⟩ := hs.readUnit (34 :: r)
    cases t with
    | nil =>
      cases ht
      rw [h] at hread
      cases hread
    | cons v t =>
      obtain ⟨y', ht', hread'⟩ := ht.readUnit (34 :: r')
      rw [h, hread'] at hread
      simp only [Option.some.injEq, Prod.mk.injEq] at hread
      obtain ⟨hst, hr⟩ := ih hs' ht' hread.2.symm
      exact ⟨by rw [hread.1, hst], hr⟩

/-- Printed strings part in front of anything. -/
theorem Text.jsonString_part {s t r r' : Text} (h : jsonString s ++ r = jsonString t ++ r') :
    s = t ∧ r = r' := by
  simp only [jsonString, List.cons_append, List.append_assoc, List.nil_append,
    List.cons.injEq, true_and] at h
  exact (prints_jsonEscapes s).inj (prints_jsonEscapes t) h

/-! ## Values -/

/-- Equal up to the order of object keys. -/
inductive Json.Same : Json → Json → Prop
  | null : Same .null .null
  | bool (b : Bool) : Same (.bool b) (.bool b)
  | number (literal : Text) : Same (.number literal) (.number literal)
  | string (value : Text) : Same (.string value) (.string value)
  | array {items items' : List Json} (each : List.Forall₂ Same items items') :
    Same (.array items) (.array items')
  | object {fields fields' ordered ordered' : List (Text × Json)} (perm : fields.Perm ordered)
    (perm' : fields'.Perm ordered') (keys : ordered.map Prod.fst = ordered'.map Prod.fst)
    (each : List.Forall₂ Same (ordered.map Prod.snd) (ordered'.map Prod.snd)) :
    Same (.object fields) (.object fields')

/-- A property of every value, from the properties of its parts. -/
theorem Json.induct {P : Json → Prop} (null : P .null) (bool : ∀ b, P (.bool b))
    (number : ∀ literal, P (.number literal)) (string : ∀ value, P (.string value))
    (array : ∀ items, (∀ item ∈ items, P item) → P (.array items))
    (object : ∀ fields, (∀ field ∈ fields, P field.2) → P (.object fields)) (x : Json) : P x := by
  refine @Json.rec P (fun items => ∀ item ∈ items, P item)
    (fun fields => ∀ field ∈ fields, P field.2) (fun field => P field.2)
    null bool number string array object ?_ ?_ ?_ ?_ ?_ x
  · simp
  · intro item items hitem hitems
    simpa using ⟨hitem, hitems⟩
  · simp
  · intro field fields hfield hfields
    exact List.forall_mem_cons.mpr ⟨hfield, hfields⟩
  · intro _ _ hvalue
    exact hvalue

theorem canonicalizeItems_eq (items : List Json) :
    canonicalizeItems items = items.map canonicalize := by
  induction items with
  | nil => rfl
  | cons item items ih => rw [canonicalizeItems, ih, List.map_cons]

theorem canonicalizeFields_eq (fields : List (Text × Json)) :
    canonicalizeFields fields = fields.map fun f => (f.1, canonicalize f.2) := by
  induction fields with
  | nil => rfl
  | cons f fields ih => rw [canonicalizeFields, ih, List.map_cons]

/-! ## The room on the call stack -/

/-- A value that took `nesting` levels of `depth`. -/
def ifFits {α : Type} (depth nesting : Nat) (a : α) : Except Failure α :=
  if nesting ≤ depth then .ok a else .error .stackOverflow

/-- Two values that are computed one after the other fit if both do. -/
theorem ifFits_bind {α β γ : Type} (depth m n : Nat) (a : α) (b : β) (f : α → β → γ) :
    (do let a ← ifFits depth m a; let b ← ifFits depth n b; pure (f a b)) =
      ifFits depth (max m n) (f a b) := by
  simp only [ifFits]
  by_cases hm : m ≤ depth
  · by_cases hn : n ≤ depth
    · rw [if_pos hm, if_pos hn, if_pos (Nat.max_le.mpr ⟨hm, hn⟩)]
      rfl
    · rw [if_pos hm, if_neg hn, if_neg fun h => hn (Nat.max_le.mp h).2]
      rfl
  · rw [if_neg hm, if_neg fun h => hm (Nat.max_le.mp h).1]
    rfl

/-- One level more of both. -/
theorem ifFits_succ {α β : Type} (depth n : Nat) (a : α) (f : α → β) :
    (do let a ← ifFits depth n a; pure (f a)) = ifFits (depth + 1) (n + 1) (f a) := by
  simp only [ifFits, Nat.add_le_add_iff_right]
  split <;> rfl

theorem canonicalizeItemsWithin_eq {depth : Nat} {items : List Json}
    (h : ∀ item ∈ items, canonicalizeWithin depth item =
      ifFits depth item.nesting (canonicalize item)) :
    canonicalizeItemsWithin depth items =
      ifFits depth (Json.itemsNesting items) (canonicalizeItems items) := by
  induction items with
  | nil => rfl
  | cons item items ih =>
    obtain ⟨hitem, hitems⟩ := List.forall_mem_cons.mp h
    rw [canonicalizeItemsWithin, hitem, ih hitems]
    exact ifFits_bind depth _ _ _ _ List.cons

theorem canonicalizeFieldsWithin_eq {depth : Nat} {fields : List (Text × Json)}
    (h : ∀ field ∈ fields, canonicalizeWithin depth field.2 =
      ifFits depth field.2.nesting (canonicalize field.2)) :
    canonicalizeFieldsWithin depth fields =
      ifFits depth (Json.fieldsNesting fields) (canonicalizeFields fields) := by
  induction fields with
  | nil => rfl
  | cons field fields ih =>
    obtain ⟨hfield, hfields⟩ := List.forall_mem_cons.mp h
    rw [canonicalizeFieldsWithin, hfield, ih hfields]
    exact ifFits_bind depth _ _ _ _ fun text entries => (field.1, text) :: entries

/-- A value is printed exactly if the stack has room for its nesting. -/
theorem canonicalizeWithin_eq (x : Json) (depth : Nat) :
    canonicalizeWithin depth x = ifFits depth x.nesting (canonicalize x) := by
  induction x using Json.induct generalizing depth with
  | null => cases depth <;> rfl
  | bool b => cases depth <;> rfl
  | number literal => cases depth <;> rfl
  | string value => cases depth <;> rfl
  | array items ih =>
    cases depth with
    | zero => rfl
    | succ depth =>
      rw [canonicalizeWithin, canonicalizeItemsWithin_eq fun item hitem => ih item hitem depth]
      exact ifFits_succ depth _ _ _
  | object fields ih =>
    cases depth with
    | zero => rfl
    | succ depth =>
      rw [canonicalizeWithin, canonicalizeFieldsWithin_eq fun field hfield => ih field hfield depth]
      exact ifFits_succ depth _ _ _

/-- What is returned within a depth is what any deeper stack returns. -/
theorem canonicalize_of_within {x : Json} {depth : Nat} {t : Text}
    (h : canonicalizeWithin depth x = .ok t) : t = canonicalize x := by
  rw [canonicalizeWithin_eq, ifFits] at h
  split at h
  · cases h
    rfl
  · cases h

theorem Json.itemsFinite_iff (items : List Json) :
    itemsFinite items = true ↔ ∀ item ∈ items, item.isFinite = true := by
  induction items with
  | nil => simp [itemsFinite]
  | cons item items ih => simp [itemsFinite, ih]

theorem Json.fieldsFinite_iff (fields : List (Text × Json)) :
    fieldsFinite fields = true ↔ ∀ field ∈ fields, field.2.isFinite = true := by
  induction fields with
  | nil => simp [fieldsFinite]
  | cons field fields ih =>
    rw [fieldsFinite, Bool.and_eq_true, ih, List.forall_mem_cons]

/-- The fields of an object in the order of their keys. -/
def sortedFields (fields : List (Text × Json)) : List (Text × Json) :=
  fields.insertionSort fun f g => Text.le f.1 g.1

/-- One field of an object, printed. -/
def printField (field : Text × Json) : Text :=
  jsonString field.1 ++ 58 :: canonicalize field.2

theorem canonicalize_array (items : List Json) :
    canonicalize (.array items) = 91 :: (joined 44 (items.map canonicalize) ++ [93]) := by
  rw [canonicalize, canonicalizeItems_eq]
  rfl

theorem canonicalize_object (fields : List (Text × Json)) :
    canonicalize (.object fields) =
      123 :: (joined 44 ((sortedFields fields).map printField) ++ [125]) := by
  have hsort : ((fields.map fun f => (f.1, canonicalize f.2)).insertionSort
      fun a b => Text.le a.1 b.1) =
      (sortedFields fields).map fun f => (f.1, canonicalize f.2) :=
    (List.map_insertionSort (fun f g : Text × Json => Text.le f.1 g.1 = true)
      (fun f g : Text × Text => Text.le f.1 g.1 = true) _ _ fun _ _ _ _ => Iff.rfl).symm
  rw [canonicalize, canonicalizeFields_eq, canonicalObject, hsort, List.map_map]
  have hfield : ∀ f : Text × Json, jsonString f.1 ++ utf16 ":" ++ canonicalize f.2 =
      printField f := fun f => by
    rw [printField, List.append_assoc]
    rfl
  simp only [Function.comp_def, hfield]
  rfl

/-- Sorting the keys changes nothing of the length. -/
theorem length_canonicalize_object {fields : List (Text × Json)} (h : fields ≠ []) :
    (canonicalize (.object fields)).length =
      (fields.flatMap fun f => printField f ++ [44]).length + 1 := by
  have hperm : (sortedFields fields).Perm fields := List.perm_insertionSort _ _
  have hne : (sortedFields fields).map printField ≠ [] := by
    rw [Ne, List.map_eq_nil_iff]
    exact fun hnil => h (List.nil_perm.mp (hnil ▸ hperm))
  have hlength : (fields.flatMap fun f => printField f ++ [44]).length =
      (joined 44 ((sortedFields fields).map printField) ++ [44]).length := by
    rw [joined_concat _ hne, List.flatMap_map]
    exact (hperm.symm.flatMap_right _).length_eq
  rw [canonicalize_object, hlength]
  simp

/-! ## What a value's text begins with, and what may follow it -/

/-- The first character of a text, where every character of a number counts as `0`. -/
def leadOf : Text → UInt16
  | [] => 0
  | u :: _ => if isNumeral u then 48 else u

/-- The character that tells which kind of value is printed. -/
def Json.lead : Json → UInt16
  | .null => 110
  | .bool true => 116
  | .bool false => 102
  | .number _ => 48
  | .string _ => 34
  | .array _ => 91
  | .object _ => 123

/-- What may follow a value: nothing that could continue a number. -/
def Ends (rest : Text) : Prop := ∀ u ∈ rest.head?, isNumeral u = false

theorem ends_cons {u : UInt16} (h : isNumeral u = false) (rest : Text) : Ends (u :: rest) := by
  intro v hv
  rw [List.head?_cons, Option.mem_some_iff] at hv
  exact hv ▸ h

theorem isFiniteLiteral_iff {literal : Text} : literal.isFiniteLiteral = true ↔
    (∃ u rest, literal = u :: rest) ∧ ∀ u ∈ literal, isNumeral u = true := by
  cases literal <;> simp [isFiniteLiteral]

theorem canonicalize_number {literal : Text} (h : literal.isFiniteLiteral = true) :
    canonicalize (.number literal) = literal := by
  rw [canonicalize, if_pos h]

theorem leadOf_canonicalize {x : Json} (hx : x.isFinite = true) (rest : Text) :
    leadOf (canonicalize x ++ rest) = x.lead := by
  cases x with
  | null => rfl
  | bool b => cases b <;> rfl
  | number literal =>
    rw [Json.isFinite] at hx
    obtain ⟨⟨u, literal, rfl⟩, hnumeral⟩ := isFiniteLiteral_iff.mp hx
    rw [canonicalize_number hx]
    simp only [List.cons_append, leadOf, hnumeral u List.mem_cons_self, if_true]
    rfl
  | string value => rfl
  | array items => rw [canonicalize_array]; rfl
  | object fields => rw [canonicalize_object]; rfl

/-- No value begins with a bracket that closes one. -/
theorem canonicalize_cons {x : Json} (hx : x.isFinite = true) :
    ∃ u rest, canonicalize x = u :: rest ∧ u ≠ 93 := by
  have hlead := leadOf_canonicalize hx []
  rw [List.append_nil] at hlead
  cases hc : canonicalize x with
  | nil =>
    rw [hc] at hlead
    cases x with
    | bool b => cases b <;> cases hlead
    | _ => cases hlead
  | cons u rest =>
    refine ⟨u, rest, rfl, ?_⟩
    rintro rfl
    rw [hc] at hlead
    cases x with
    | bool b => cases b <;> cases hlead
    | _ => cases hlead

theorem forall₂_printField {fields fields' : List (Text × Json)}
    (h : List.Forall₂ (fun f f' => f.1 = f'.1 ∧ Json.Same f.2 f'.2) fields fields') :
    fields.map Prod.fst = fields'.map Prod.fst ∧
      List.Forall₂ Json.Same (fields.map Prod.snd) (fields'.map Prod.snd) := by
  induction h with
  | nil => exact ⟨rfl, .nil⟩
  | cons hhead _ ih =>
    simp only [List.map_cons]
    exact ⟨by rw [hhead.1, ih.1], .cons hhead.2 ih.2⟩

/-- The text of a value, whatever follows it, determines the value. -/
theorem canonicalize_part (x y : Json) (hx : x.isFinite = true) (hy : y.isFinite = true) :
    Part Ends (canonicalize x) (canonicalize y) (Json.Same x y) := by
  induction x using Json.induct generalizing y with
  | null =>
    intro r r' _ _ h
    have hlead := leadOf_canonicalize hy r'
    rw [← h] at hlead
    cases y with
    | null => exact ⟨.null, List.append_cancel_left h⟩
    | bool b => cases b <;> cases hlead
    | _ => cases hlead
  | bool b =>
    intro r r' _ _ h
    have hlead := (leadOf_canonicalize hx r).symm.trans ((congrArg leadOf h).trans
      (leadOf_canonicalize hy r'))
    cases y with
    | bool b' =>
      cases b <;> cases b'
      · exact ⟨.bool false, List.append_cancel_left h⟩
      · cases hlead
      · cases hlead
      · exact ⟨.bool true, List.append_cancel_left h⟩
    | _ => cases b <;> cases hlead
  | number literal =>
    intro r r' hr hr' h
    have hlead := (leadOf_canonicalize hx r).symm.trans ((congrArg leadOf h).trans
      (leadOf_canonicalize hy r'))
    cases y with
    | number literal' =>
      rw [Json.isFinite] at hx hy
      rw [canonicalize_number hx, canonicalize_number hy] at h
      obtain ⟨rfl, hrest⟩ := part_span isNumeral (isFiniteLiteral_iff.mp hx).2
        (isFiniteLiteral_iff.mp hy).2 r r' hr hr' h
      exact ⟨.number literal, hrest⟩
    | bool b => cases b <;> cases hlead
    | _ => cases hlead
  | string value =>
    intro r r' _ _ h
    have hlead := (leadOf_canonicalize hx r).symm.trans ((congrArg leadOf h).trans
      (leadOf_canonicalize hy r'))
    cases y with
    | string value' =>
      rw [canonicalize, canonicalize] at h
      obtain ⟨rfl, hrest⟩ := jsonString_part h
      exact ⟨.string value, hrest⟩
    | bool b => cases b <;> cases hlead
    | _ => cases hlead
  | array items ih =>
    intro r r' _ _ h
    have hlead := (leadOf_canonicalize hx r).symm.trans ((congrArg leadOf h).trans
      (leadOf_canonicalize hy r'))
    cases y with
    | array items' =>
      rw [Json.isFinite, Json.itemsFinite_iff] at hx hy
      simp only [canonicalize_array, List.cons_append, List.append_assoc, List.nil_append,
        List.cons.injEq, true_and] at h
      obtain ⟨heach, hrest⟩ := part_joined (by decide) (ends_cons rfl) (ends_cons rfl)
        (fun item hitem => canonicalize_cons (hx item hitem))
        (fun item hitem => canonicalize_cons (hy item hitem))
        (fun item hitem item' hitem' => ih item hitem item' (hx item hitem) (hy item' hitem'))
        r r' h
      exact ⟨.array heach, hrest⟩
    | bool b => cases b <;> cases hlead
    | _ => cases hlead
  | object fields ih =>
    intro r r' _ _ h
    have hlead := (leadOf_canonicalize hx r).symm.trans ((congrArg leadOf h).trans
      (leadOf_canonicalize hy r'))
    cases y with
    | object fields' =>
      rw [Json.isFinite, Json.fieldsFinite_iff] at hx hy
      simp only [canonicalize_object, List.cons_append, List.append_assoc, List.nil_append,
        List.cons.injEq, true_and] at h
      have hperm : (sortedFields fields).Perm fields := List.perm_insertionSort _ _
      have hperm' : (sortedFields fields').Perm fields' := List.perm_insertionSort _ _
      have hquote : ∀ f : Text × Json, ∃ u rest, printField f = u :: rest ∧ u ≠ 125 :=
        fun f => ⟨34, _, rfl, by decide⟩
      -- a field parts at its key, then at its value
      have hpart : ∀ f ∈ sortedFields fields, ∀ g ∈ sortedFields fields',
          Part Ends (printField f) (printField g) (f.1 = g.1 ∧ Json.Same f.2 g.2) := by
        intro f hf g hg s s' hs hs' heq
        simp only [printField, List.append_assoc, List.cons_append] at heq
        obtain ⟨hkey, hvalue⟩ := jsonString_part heq
        have hf' := hperm.mem_iff.mp hf
        obtain ⟨hsame, hend⟩ := ih f hf' g.2 (hx f hf') (hy g (hperm'.mem_iff.mp hg)) s s' hs hs'
          (List.cons.inj hvalue).2
        exact ⟨⟨hkey, hsame⟩, hend⟩
      obtain ⟨heach, hrest⟩ := part_joined (by decide) (ends_cons rfl) (ends_cons rfl)
        (fun f _ => hquote f) (fun f _ => hquote f) hpart r r' h
      obtain ⟨hkeys, hvalues⟩ := forall₂_printField heach
      exact ⟨.object hperm.symm hperm'.symm hkeys hvalues, hrest⟩
    | bool b => cases b <;> cases hlead
    | _ => cases hlead

/-- `canonicalize` is injective on values with finite numbers, up to the order of
object keys. -/
theorem Json.same_of_canonicalize {x y : Json} (hx : x.isFinite = true) (hy : y.isFinite = true)
    (h : canonicalize x = canonicalize y) : Json.Same x y :=
  (canonicalize_part x y hx hy [] [] (by simp [Ends]) (by simp [Ends])
    (by rw [List.append_nil, List.append_nil, h])).1

/-! ## The text survives UTF-8 -/

/-- A text without lone surrogates in front of another is stored as it is. -/
theorem Text.stored_append {s : Text} (h : stored s = s) (t : Text) :
    stored (s ++ t) = s ++ stored t := by
  fun_induction stored s with
  | case1 => rfl
  | case2 u hu =>
    rw [List.cons.injEq] at h
    rw [← h.1] at hu
    cases hu
  | case3 u hu => exact stored_cons t (by simpa using hu)
  | case4 u v rest hpair ih =>
    simp only [List.cons.injEq, true_and] at h
    simp only [List.cons_append, stored, hpair, if_true, ih h]
  | case5 u v rest _ hu ih =>
    rw [List.cons.injEq] at h
    rw [← h.1] at hu
    cases hu
  | case6 u v rest _ hu ih =>
    rw [List.cons.injEq] at h
    rw [List.cons_append, stored_cons _ (by simpa using hu), ih h.2]
    rfl

theorem Text.stored_jsonEscape (u : UInt16) : stored (jsonEscape u) = jsonEscape u := by
  have hhex : ∀ n < 16, isSurrogate (hexDigit n) = false := by
    intro n hn
    simp only [isSurrogate, toNat_hexDigit hn, Bool.and_eq_false_iff, decide_eq_false_iff_not]
    left
    split <;> omega
  unfold jsonEscape
  split
  · rfl
  · rfl
  · rfl
  · rfl
  · rfl
  · rfl
  · rfl
  · split
    · refine stored_of_plain fun v hv => ?_
      simp only [unicodeEscape, List.mem_cons, List.not_mem_nil, or_false] at hv
      have hlt := u.toNat_lt
      rcases hv with rfl | rfl | rfl | rfl | rfl | rfl
      · rfl
      · rfl
      · exact hhex _ (by omega)
      · exact hhex _ (by omega)
      · exact hhex _ (by omega)
      · exact hhex _ (by omega)
    · rename_i hplain
      refine stored_of_plain fun v hv => ?_
      rw [List.mem_singleton] at hv
      subst hv
      rw [Bool.or_eq_true, not_or] at hplain
      simpa using hplain.2

theorem Text.stored_jsonEscapes (t : Text) : stored (jsonEscapes t) = jsonEscapes t := by
  fun_induction jsonEscapes t with
  | case1 => rfl
  | case2 u => exact stored_jsonEscape u
  | case3 u v rest hpair ih => simp only [stored, hpair, if_true, ih]
  | case4 u v rest _ ih => rw [stored_append (stored_jsonEscape u), ih]

theorem Text.stored_jsonString (t : Text) : stored (jsonString t) = jsonString t := by
  rw [jsonString, List.cons_append, stored_cons _ rfl, stored_append (stored_jsonEscapes t)]
  rfl

theorem stored_joined {parts : List Text} (h : ∀ part ∈ parts, stored part = part) :
    stored (joined 44 parts) = joined 44 parts := by
  induction parts with
  | nil => rfl
  | cons s parts ih =>
    obtain ⟨hs, hparts⟩ := List.forall_mem_cons.mp h
    cases parts with
    | nil => rw [joined_singleton, hs]
    | cons t parts => rw [joined_cons_cons, stored_append hs, stored_cons _ rfl, ih hparts]

theorem isSurrogate_of_isNumeral {u : UInt16} (h : isNumeral u = true) : isSurrogate u = false := by
  simp only [isNumeral, isDigit, isSurrogate, Bool.or_eq_true, Bool.and_eq_true,
    decide_eq_true_eq, Bool.and_eq_false_iff, decide_eq_false_iff_not] at *
  omega

/-- A canonical text has no lone surrogate: hashing it hashes all of it. -/
theorem stored_canonicalize (x : Json) : stored (canonicalize x) = canonicalize x := by
  induction x using Json.induct with
  | null => rfl
  | bool b => cases b <;> rfl
  | number literal =>
    rw [canonicalize]
    split
    · rename_i hliteral
      exact stored_of_plain fun u hu =>
        isSurrogate_of_isNumeral ((isFiniteLiteral_iff.mp hliteral).2 u hu)
    · rfl
  | string value => rw [canonicalize, stored_jsonString]
  | array items ih =>
    rw [canonicalize_array, stored_cons _ rfl, stored_append (stored_joined fun part hpart => ?_)]
    · rfl
    · obtain ⟨item, hitem, rfl⟩ := List.mem_map.mp hpart
      exact ih item hitem
  | object fields ih =>
    rw [canonicalize_object, stored_cons _ rfl, stored_append (stored_joined fun part hpart => ?_)]
    · rfl
    · obtain ⟨f, hf, rfl⟩ := List.mem_map.mp hpart
      rw [printField, stored_append (stored_jsonString _), stored_cons _ rfl,
        ih f ((List.perm_insertionSort _ _).mem_iff.mp hf)]

end Wagering
