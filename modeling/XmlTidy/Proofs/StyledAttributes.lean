import Mathlib.Data.Char
import Mathlib.Data.List.Lex
import Mathlib.Data.Prod.Lex
import XmlTidy.Proofs.SpelledLayout

/-!
Attributes in a style. The canonical order of names is a linear preorder, given by a key, so sorting
twice is sorting once. A requoted literal is a literal again, has the same inner value up to escaped
quotes, and is not changed by requoting it again.
-/

namespace XmlTidy

/-! ### The order of names -/

namespace Text

theorem compare_eq_lt_iff {s t : Text} : compare s t = .lt ↔ s < t := by
  induction s generalizing t with
  | nil => cases t <;> simp [compare]
  | cons c s ih =>
      cases t with
      | nil => simp [compare]
      | cons d t =>
          rw [compare, List.cons_lt_cons_iff]
          rcases lt_trichotomy c d with h | rfl | h
          · simp [h]
          · simp [ih]
          · simp [h, not_lt_of_gt h, ne_of_gt h]

theorem compare_eq_eq_iff {s t : Text} : compare s t = .eq ↔ s = t := by
  induction s generalizing t with
  | nil => cases t <;> simp [compare]
  | cons c s ih =>
      cases t with
      | nil => simp [compare]
      | cons d t =>
          rw [compare, List.cons.injEq]
          rcases lt_trichotomy c d with h | rfl | h
          · simp [h, ne_of_lt h]
          · simp [ih]
          · simp [h, not_lt_of_gt h, ne_of_gt h]

end Text

/-- An order given by a key. -/
structure KeyOrder {α κ : Type} [LinearOrder κ] (cmp : α → α → Ordering) (key : α → κ) : Prop where
  lt : ∀ {a b}, cmp a b = .lt ↔ key a < key b
  eq : ∀ {a b}, cmp a b = .eq ↔ key a = key b

theorem KeyOrder.isLE {α κ : Type} [LinearOrder κ] {cmp : α → α → Ordering} {key : α → κ}
    (h : KeyOrder cmp key) (a b : α) : (cmp a b).isLE = true ↔ key a ≤ key b := by
  rw [le_iff_lt_or_eq, ← h.lt, ← h.eq]
  cases cmp a b <;> simp

theorem KeyOrder.isLE_trans {α κ : Type} [LinearOrder κ] {cmp : α → α → Ordering} {key : α → κ}
    (h : KeyOrder cmp key) {a b c : α} (hab : (cmp a b).isLE = true) (hbc : (cmp b c).isLE = true) :
    (cmp a c).isLE = true := by
  rw [h.isLE] at *
  exact hab.trans hbc

/-- Prefixes in order: that of namespace declarations comes first. -/
def prefixKey (p : Text) : ℕ ×ₗ Text :=
  if p = namespaceName then toLex (0, []) else toLex (1, p)

theorem keyOrder_comparePrefixes : KeyOrder comparePrefixes prefixKey := by
  constructor <;> intro p q <;> unfold comparePrefixes prefixKey
  · by_cases hp : p = namespaceName <;> by_cases hq : q = namespaceName <;> by_cases hpq : p = q <;>
      simp_all [Prod.Lex.toLex_lt_toLex, Text.compare_eq_lt_iff]
  · by_cases hp : p = namespaceName <;> by_cases hq : q = namespaceName <;> by_cases hpq : p = q <;>
      simp_all [Text.compare_eq_eq_iff]

/-- Names in order: `xmlns`, names with a prefix, and names without. -/
def nameKey (name : Text) : ℕ ×ₗ (ℕ ×ₗ Text) ×ₗ Text :=
  if name = namespaceName then toLex (0, toLex (toLex (0, []), []))
  else
    match splitPrefix? name with
    | some (p, x) => toLex (1, toLex (prefixKey p, x))
    | none => toLex (2, toLex (toLex (0, []), name))

theorem keyOrder_compareNames : KeyOrder compareNames nameKey := by
  have hthen : ∀ {o o' : Ordering}, (o.then o' = .lt ↔ o = .lt ∨ (o = .eq ∧ o' = .lt)) ∧
      (o.then o' = .eq ↔ o = .eq ∧ o' = .eq) := by
    intro o o'
    cases o <;> simp
  constructor <;> intro a b <;> unfold compareNames nameKey
  · by_cases hab : a = b
    · simp [hab]
    by_cases ha : a = namespaceName <;> by_cases hb : b = namespaceName
    · simp_all
    · cases hb' : splitPrefix? b <;> simp_all [Prod.Lex.toLex_lt_toLex]
    · cases ha' : splitPrefix? a <;> simp_all [Prod.Lex.toLex_lt_toLex]
    · cases ha' : splitPrefix? a <;> cases hb' : splitPrefix? b <;>
        simp [hab, ha, hb, Prod.Lex.toLex_lt_toLex, hthen, keyOrder_comparePrefixes.lt,
          keyOrder_comparePrefixes.eq, Text.compare_eq_lt_iff]
  · by_cases hab : a = b
    · simp [hab]
    by_cases ha : a = namespaceName <;> by_cases hb : b = namespaceName
    · simp_all
    · cases hb' : splitPrefix? b <;> simp_all
    · cases ha' : splitPrefix? a <;> simp_all
    · cases ha' : splitPrefix? a <;> cases hb' : splitPrefix? b <;>
        simp [hab, ha, hb, hthen, keyOrder_comparePrefixes.eq, Text.compare_eq_eq_iff]

/-! ### Sorting -/

section Sorting

variable {α : Type} (name : α → Text)

theorem isLE_trans_names (a b c : α) (hab : (compareNames (name a) (name b)).isLE = true)
    (hbc : (compareNames (name b) (name c)).isLE = true) : (compareNames (name a) (name c)).isLE = true :=
  keyOrder_compareNames.isLE_trans hab hbc

theorem isLE_total_names (a b : α) :
    ((compareNames (name a) (name b)).isLE || (compareNames (name b) (name a)).isLE) = true := by
  rw [Bool.or_eq_true, keyOrder_compareNames.isLE, keyOrder_compareNames.isLE]
  exact le_total _ _

theorem pairwise_mergeSort_names (l : List α) :
    (l.mergeSort fun a b => (compareNames (name a) (name b)).isLE).Pairwise fun a b =>
      (compareNames (name a) (name b)).isLE :=
  List.pairwise_mergeSort (isLE_trans_names name) (isLE_total_names name) l

end Sorting

namespace Spelled

theorem pairwise_sortPairs (pairs : List (Text × Text)) :
    (sortPairs pairs).Pairwise fun a b => (compareNames a.1 b.1).isLE :=
  pairwise_mergeSort_names Prod.fst pairs

/-- Sorted attributes stay sorted when their values change. -/
theorem sortPairs_map_sortPairs (f : Text → Text) (pairs : List (Text × Text)) :
    sortPairs ((sortPairs pairs).map fun (name, value) => (name, f value)) =
      (sortPairs pairs).map fun (name, value) => (name, f value) := by
  refine List.mergeSort_of_pairwise ?_
  rw [List.pairwise_map]
  exact pairwise_sortPairs pairs

end Spelled

/-! ### Requoting -/

theorem innerOf_doubleQuoted (t : Text) :
    Attribute.innerOf (doubleQuoted t) = t.replaceChar '"' ['&', 'q', 'u', 'o', 't', ';'] := by
  simp [Attribute.innerOf, doubleQuoted]

theorem innerOf_singleQuoted (t : Text) :
    Attribute.innerOf (singleQuoted t) = t.replaceChar '\'' ['&', 'a', 'p', 'o', 's', ';'] := by
  simp [Attribute.innerOf, singleQuoted]

theorem replaceChar_of_not_mem {t : Text} {c : Char} (h : c ∉ t) (new : Text) : t.replaceChar c new = t := by
  induction t with
  | nil => rfl
  | cons d t ih =>
      rw [List.mem_cons, not_or] at h
      rw [Text.replaceChar, List.flatMap_cons, if_neg (Ne.symm h.1)]
      exact congrArg (d :: ·) (ih h.2)

theorem mem_replaceChar {t new : Text} {c d : Char} (h : d ∈ t.replaceChar c new) :
    (d ∈ t ∧ d ≠ c) ∨ d ∈ new := by
  rw [Text.replaceChar, List.mem_flatMap] at h
  obtain ⟨e, he, hd⟩ := h
  split at hd
  · exact .inr hd
  · obtain rfl : d = e := by simpa using hd
    exact .inl ⟨he, by assumption⟩

theorem not_mem_replaceChar {t new : Text} {c : Char} (h : c ∉ new) : c ∉ t.replaceChar c new := by
  intro hmem
  rcases mem_replaceChar hmem with ⟨-, hne⟩ | hnew
  · exact hne rfl
  · exact h hnew

/-- Requoting a second time changes nothing. -/
theorem requote_requote (style : QuoteStyle) (literal : Text) :
    requote style (requote style literal) = requote style literal := by
  cases style with
  | preserve => rfl
  | double =>
      simp only [requote, innerOf_doubleQuoted]
      rw [doubleQuoted, replaceChar_of_not_mem (not_mem_replaceChar (by decide))]
      rfl
  | single =>
      simp only [requote, innerOf_singleQuoted]
      rw [singleQuoted, replaceChar_of_not_mem (not_mem_replaceChar (by decide))]
      rfl

theorem isLiteral_requote (style : QuoteStyle) {literal : Text}
    (h : Literal.IsLiteral (· != '<') literal) : Literal.IsLiteral (· != '<') (requote style literal) := by
  have hliteral := h
  obtain ⟨q, body, rfl, hq, hbody⟩ := h
  have hinner : Attribute.innerOf (q :: (body ++ [q])) = body := by simp [Attribute.innerOf]
  have hescaped : ∀ (c : Char) (new : Text), c ∉ new → '<' ∉ new →
      ∀ d ∈ Text.replaceChar body c new, d ≠ c ∧ (d != '<') = true := by
    intro c new hc hnew d hd
    rcases mem_replaceChar hd with ⟨hmem, hne⟩ | hmem
    · exact ⟨hne, (hbody d hmem).2⟩
    · refine ⟨?_, ?_⟩
      · rintro rfl
        exact hc hmem
      · rw [bne_iff_ne]
        rintro rfl
        exact hnew hmem
  cases style with
  | preserve => exact hliteral
  | double =>
      rw [requote, hinner]
      exact ⟨'"', _, rfl, rfl, hescaped _ _ (by decide) (by decide)⟩
  | single =>
      rw [requote, hinner]
      exact ⟨'\'', _, rfl, rfl, hescaped _ _ (by decide) (by decide)⟩

/-! ### Escaped quotes -/

/-- A text with its escaped quotes expanded. -/
def Text.expandQuotes : Text → Text
  | '&' :: 'q' :: 'u' :: 'o' :: 't' :: ';' :: t => '"' :: expandQuotes t
  | '&' :: 'a' :: 'p' :: 'o' :: 's' :: ';' :: t => '\'' :: expandQuotes t
  | c :: t => c :: expandQuotes t
  | [] => []

/-- Characters that no escape begins with were there before escaping. -/
theorem exists_of_replaceChar_eq_append {t lead rest new : Text} {c x : Char} (hlead : x ∉ lead)
    (h : t.replaceChar c (x :: new) = lead ++ rest) :
    ∃ t', t = lead ++ t' ∧ Text.replaceChar t' c (x :: new) = rest := by
  induction lead generalizing t with
  | nil => exact ⟨t, rfl, h⟩
  | cons d lead ih =>
      rw [List.mem_cons, not_or] at hlead
      cases t with
      | nil => simp [Text.replaceChar] at h
      | cons e t =>
          rw [Text.replaceChar, List.flatMap_cons] at h
          split at h
          · rw [List.cons_append, List.cons_append, List.cons.injEq] at h
            exact absurd h.1 hlead.1
          · rw [List.singleton_append, List.cons_append, List.cons.injEq] at h
            obtain ⟨t', rfl, hrest⟩ := ih hlead.2 h.2
            exact ⟨t', by rw [h.1, List.cons_append], hrest⟩

/-- Expanding an escaped text is expanding the text. -/
theorem expandQuotes_replaceChar {c : Char} {new : Text} (hc : c ≠ '&')
    (hnew : ∀ t, Text.expandQuotes ('&' :: new ++ t) = c :: t.expandQuotes)
    (hletters : ∀ d ∈ ['q', 'u', 'o', 't', 'a', 'p', 's', ';'], d ≠ c) (t : Text) :
    (t.replaceChar c ('&' :: new)).expandQuotes = t.expandQuotes := by
  have hkeep : ∀ {d : Char} {s : Text}, d ≠ c →
      Text.replaceChar (d :: s) c ('&' :: new) = d :: Text.replaceChar s c ('&' :: new) := by
    intro d s hd
    rw [Text.replaceChar, List.flatMap_cons, if_neg hd]
    rfl
  have h₁ := hletters 'q' (by simp)
  have h₂ := hletters 'u' (by simp)
  have h₃ := hletters 'o' (by simp)
  have h₄ := hletters 't' (by simp)
  have h₅ := hletters ';' (by simp)
  have h₆ := hletters 'a' (by simp)
  have h₇ := hletters 'p' (by simp)
  have h₈ := hletters 's' (by simp)
  fun_induction Text.expandQuotes t with
  | case1 t ih =>
      rw [hkeep hc.symm, hkeep h₁, hkeep h₂, hkeep h₃, hkeep h₄, hkeep h₅, Text.expandQuotes, ih]
  | case2 t ih =>
      rw [hkeep hc.symm, hkeep h₆, hkeep h₇, hkeep h₃, hkeep h₈, hkeep h₅, Text.expandQuotes, ih]
  | case3 d t hquot hapos ih =>
      by_cases hd : d = c
      · subst hd
        rw [Text.replaceChar, List.flatMap_cons, if_pos rfl]
        exact (hnew _).trans (congrArg (d :: ·) ih)
      · rw [hkeep hd, Text.expandQuotes, ih]
        · rintro rest rfl heq
          obtain ⟨t', rfl, -⟩ := @exists_of_replaceChar_eq_append t ['q', 'u', 'o', 't', ';'] _ _ _ _
            (by decide) heq
          exact hquot t' rfl rfl
        · rintro rest rfl heq
          obtain ⟨t', rfl, -⟩ := @exists_of_replaceChar_eq_append t ['a', 'p', 'o', 's', ';'] _ _ _ _
            (by decide) heq
          exact hapos t' rfl rfl
  | case4 => rfl

/-- Requoting keeps the inner value, up to escaped quotes. -/
theorem expandQuotes_requote (style : QuoteStyle) (literal : Text) :
    (Attribute.innerOf (requote style literal)).expandQuotes =
      (Attribute.innerOf literal).expandQuotes := by
  cases style with
  | preserve => rfl
  | double =>
      rw [requote, innerOf_doubleQuoted]
      exact expandQuotes_replaceChar (by decide) (fun t => by simp [Text.expandQuotes]) (by simp) _
  | single =>
      rw [requote, innerOf_singleQuoted]
      exact expandQuotes_replaceChar (by decide) (fun t => by simp [Text.expandQuotes]) (by simp) _

namespace Spelled

/-! ### Attributes in a style -/

theorem map_requote (style : Style) (pairs : List (Text × Text)) :
    (pairs.map fun (name, value) => (name, requote style.quotes value)).map
        (fun (name, value) => (name, requote style.quotes value)) =
      pairs.map fun (name, value) => (name, requote style.quotes value) := by
  simp [requote_requote]

/-- Styling a second time changes nothing. -/
theorem stylePairs_stylePairs (style : Style) (pairs : List (Text × Text)) :
    stylePairs style (stylePairs style pairs) = stylePairs style pairs := by
  rw [stylePairs, stylePairs]
  cases style.sortAttributes with
  | false => exact map_requote style pairs
  | true =>
      simp only [if_true]
      rw [sortPairs_map_sortPairs, map_requote]

/-- Styled attributes are the same, apart from their order and their quoting. -/
theorem stylePairs_perm (style : Style) (pairs : List (Text × Text)) :
    (stylePairs style pairs).Perm (pairs.map fun (name, value) => (name, requote style.quotes value)) := by
  rw [stylePairs]
  refine List.Perm.map _ ?_
  split
  · exact List.mergeSort_perm ..
  · exact .refl _

theorem replaceChar_eq_iff {t lead new : Text} {c : Char} (hlead : '&' ∉ lead) (hc : c ∉ lead) :
    t.replaceChar c ('&' :: new) = lead ↔ t = lead := by
  constructor
  · intro h
    obtain ⟨t', rfl, hrest⟩ := exists_of_replaceChar_eq_append hlead (h.trans (List.append_nil lead).symm)
    cases t' with
    | nil => rw [List.append_nil]
    | cons d t' =>
        rw [Text.replaceChar, List.flatMap_cons, List.append_eq_nil_iff] at hrest
        split at hrest <;> simp at hrest
  · rintro rfl
    exact replaceChar_of_not_mem hc _

theorem innerOf_requote_default (style : QuoteStyle) (literal : Text) :
    Attribute.innerOf (requote style literal) = "default".toList ↔
      Attribute.innerOf literal = "default".toList := by
  cases style with
  | preserve => rfl
  | double => rw [requote, innerOf_doubleQuoted, replaceChar_eq_iff (by decide) (by decide)]
  | single => rw [requote, innerOf_singleQuoted, replaceChar_eq_iff (by decide) (by decide)]

/-- An attribute that makes whitespace count is one in every style. -/
theorem any_stylePairs (style : Style) (pairs : List (Text × Text)) :
    ((stylePairs style pairs).any fun pair =>
        pair.1 = "xml:space".toList && Attribute.innerOf pair.2 ≠ "default".toList) =
      pairs.any fun pair =>
        pair.1 = "xml:space".toList && Attribute.innerOf pair.2 ≠ "default".toList := by
  rw [(stylePairs_perm style pairs).any_eq, List.any_map]
  simp only [Function.comp_def, ne_eq, innerOf_requote_default]

end Spelled

end XmlTidy
