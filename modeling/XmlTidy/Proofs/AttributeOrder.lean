import Mathlib.Data.List.Nodup
import XmlTidy.Proofs.Places
import XmlTidy.Proofs.StyledAttributes

/-!
The canonical order of attributes. Names are compared by a total order, which is also said here rule by
rule: `xmlns` comes first, then the names with that prefix, then the other names with a prefix, by prefix
and local part, and last the names without. Sorting by it is canonical: of attributes with distinct names
there is only one sorted list, and attributes of one name stay in the order that they came in.
-/

namespace XmlTidy

/-! ### Prefixes -/

/-- The prefix of a name is what stands before its first colon. -/
theorem splitPrefix?_eq_some_iff {name p x : Text} :
    splitPrefix? name = some (p, x) ↔ name = p ++ ':' :: x ∧ ':' ∉ p := by
  induction name generalizing p with
  | nil => simp [splitPrefix?]
  | cons c name ih =>
      rw [splitPrefix?]
      by_cases hc : c = ':'
      · rw [if_pos hc]
        cases p with
        | nil => simp [hc, eq_comm]
        | cons d p =>
            simp only [hc, List.cons_append, List.cons.injEq, List.mem_cons, not_or, Option.some.injEq,
              Prod.mk.injEq, reduceCtorEq, false_and, false_iff, not_and]
            rintro ⟨rfl, -⟩ hne
            exact absurd rfl hne
      · rw [if_neg hc, Option.map_eq_some_iff]
        constructor
        · rintro ⟨⟨before, after⟩, hsplit, hpair⟩
          obtain ⟨rfl, rfl⟩ := Prod.mk.inj hpair
          obtain ⟨rfl, hbefore⟩ := ih.1 hsplit
          exact ⟨rfl, by simp [Ne.symm hc, hbefore]⟩
        · rintro ⟨heq, hp⟩
          cases p with
          | nil => exact absurd (List.cons.inj heq).1 hc
          | cons d p =>
              obtain ⟨rfl, rfl⟩ := List.cons.inj heq
              rw [List.mem_cons, not_or] at hp
              exact ⟨(p, x), ih.2 ⟨rfl, hp.2⟩, rfl⟩

theorem splitPrefix?_eq_none_iff {name : Text} : splitPrefix? name = none ↔ ':' ∉ name := by
  induction name with
  | nil => simp [splitPrefix?]
  | cons c name ih =>
      rw [splitPrefix?, List.mem_cons, not_or]
      by_cases hc : c = ':'
      · simp [hc]
      · rw [if_neg hc, Option.map_eq_none_iff, ih]
        exact ⟨fun h => ⟨Ne.symm hc, h⟩, fun h => h.2⟩

/-! ### A total order -/

theorem prefixKey_injective : Function.Injective prefixKey := by
  intro p q h
  unfold prefixKey at h
  by_cases hp : p = namespaceName <;> by_cases hq : q = namespaceName <;> simp_all

/-- Names that come at the same place in the order are the same. -/
theorem nameKey_injective : Function.Injective nameKey := by
  intro a b h
  unfold nameKey at h
  by_cases ha : a = namespaceName <;> by_cases hb : b = namespaceName
  · exact ha.trans hb.symm
  · cases hsplit : splitPrefix? b <;> simp [ha, hb, hsplit] at h
  · cases hsplit : splitPrefix? a <;> simp [ha, hb, hsplit] at h
  · cases ha' : splitPrefix? a <;> cases hb' : splitPrefix? b <;> simp [ha, hb, ha', hb'] at h
    · exact h
    · rw [(splitPrefix?_eq_some_iff.1 ha').1, (splitPrefix?_eq_some_iff.1 hb').1, prefixKey_injective h.1, h.2]

theorem compareNames_eq_eq_iff {a b : Text} : compareNames a b = .eq ↔ a = b :=
  keyOrder_compareNames.eq.trans nameKey_injective.eq_iff

namespace KeyOrder

variable {α κ : Type} [LinearOrder κ] {cmp : α → α → Ordering} {key : α → κ} (h : KeyOrder cmp key)
include h

theorem gt {a b : α} : cmp a b = .gt ↔ key b < key a := by
  rw [← not_le, ← h.isLE]
  cases cmp a b <;> simp

theorem swap (a b : α) : cmp b a = (cmp a b).swap := by
  rcases lt_trichotomy (key a) (key b) with hab | hab | hab
  · rw [h.gt.2 hab, h.lt.2 hab]
    rfl
  · rw [h.eq.2 hab, h.eq.2 hab.symm]
    rfl
  · rw [h.lt.2 hab, h.gt.2 hab]
    rfl

end KeyOrder

/-! ### The rules of the order -/

/-- Names in the order that attributes are printed in. What stands before the first colon of a name is its
prefix, and what stands behind it the local part. -/
inductive NameBefore : Text → Text → Prop where
  | first {b : Text} (hb : b ≠ namespaceName) : NameBefore namespaceName b
  | declaration {x q y : Text} (hq : ':' ∉ q) (hne : q ≠ namespaceName) :
      NameBefore (namespaceName ++ ':' :: x) (q ++ ':' :: y)
  | prefixes {p x q y : Text} (hp : ':' ∉ p) (hq : ':' ∉ q) (hpne : p ≠ namespaceName) (hqne : q ≠ namespaceName)
      (h : p < q) : NameBefore (p ++ ':' :: x) (q ++ ':' :: y)
  | locals {p x y : Text} (hp : ':' ∉ p) (h : x < y) : NameBefore (p ++ ':' :: x) (p ++ ':' :: y)
  | prefixed {p x b : Text} (hp : ':' ∉ p) (hb : ':' ∉ b) (hne : b ≠ namespaceName) : NameBefore (p ++ ':' :: x) b
  | unprefixed {a b : Text} (ha : ':' ∉ a) (hb : ':' ∉ b) (hane : a ≠ namespaceName) (hbne : b ≠ namespaceName)
      (h : a < b) : NameBefore a b

theorem append_colon_ne_namespaceName (p x : Text) : p ++ ':' :: x ≠ namespaceName := by
  intro h
  have hmem : ':' ∈ namespaceName := h ▸ by simp
  exact absurd hmem (by decide)

theorem comparePrefixes_eq_lt {p q : Text} (h : comparePrefixes p q = .lt) :
    (p = namespaceName ∧ q ≠ namespaceName) ∨ (p ≠ namespaceName ∧ q ≠ namespaceName ∧ p < q) := by
  unfold comparePrefixes at h
  by_cases hp : p = namespaceName <;> by_cases hq : q = namespaceName <;> by_cases hpq : p = q <;>
    simp_all [Text.compare_eq_lt_iff]

theorem NameBefore.nameKey_lt {a b : Text} (h : NameBefore a b) : nameKey a < nameKey b := by
  have hsplit : ∀ {p x : Text}, ':' ∉ p → splitPrefix? (p ++ ':' :: x) = some (p, x) :=
    fun hp => splitPrefix?_eq_some_iff.2 ⟨rfl, hp⟩
  have hnone : ∀ {b : Text}, ':' ∉ b → splitPrefix? b = none := splitPrefix?_eq_none_iff.2
  have hbare := append_colon_ne_namespaceName
  unfold nameKey
  cases h with
  | first hb => cases splitPrefix? b <;> simp [hb, Prod.Lex.toLex_lt_toLex]
  | declaration hq hne =>
      have hcolon : ':' ∉ namespaceName := by decide
      simp [hbare, hsplit hcolon, hsplit hq, prefixKey, hne, Prod.Lex.toLex_lt_toLex]
  | prefixes hp hq hpne hqne h => simp [hbare, hsplit hp, hsplit hq, prefixKey, hpne, hqne, h, Prod.Lex.toLex_lt_toLex]
  | locals hp h => simp [hbare, hsplit hp, h, Prod.Lex.toLex_lt_toLex]
  | prefixed hp hb hne => simp [hbare, hsplit hp, hnone hb, hne, Prod.Lex.toLex_lt_toLex]
  | unprefixed ha hb hane hbne h => simp [hnone ha, hnone hb, hane, hbne, h, Prod.Lex.toLex_lt_toLex]

theorem nameBefore_of_compareNames {a b : Text} (h : compareNames a b = .lt) : NameBefore a b := by
  have hab : a ≠ b := by
    intro hab
    rw [compareNames_eq_eq_iff.2 hab] at h
    cases h
  by_cases ha : a = namespaceName
  · subst ha
    exact .first hab.symm
  by_cases hb : b = namespaceName
  · rw [compareNames, if_neg hab, if_neg ha, if_pos hb] at h
    cases h
  rw [compareNames, if_neg hab, if_neg ha, if_neg hb] at h
  split at h
  · -- both names have a prefix
    next p x q y hsplit hsplit' =>
      obtain ⟨rfl, hp⟩ := splitPrefix?_eq_some_iff.1 hsplit
      obtain ⟨rfl, hq⟩ := splitPrefix?_eq_some_iff.1 hsplit'
      cases hprefixes : comparePrefixes p q with
      | lt =>
          rcases comparePrefixes_eq_lt hprefixes with ⟨rfl, hne⟩ | ⟨hpne, hqne, hlt⟩
          · exact .declaration hq hne
          · exact .prefixes hp hq hpne hqne hlt
      | eq =>
          obtain rfl := prefixKey_injective (keyOrder_comparePrefixes.eq.1 hprefixes)
          rw [hprefixes] at h
          exact .locals hp (Text.compare_eq_lt_iff.1 h)
      | gt =>
          rw [hprefixes] at h
          cases h
  · next p x hsplit hsplit' =>
      obtain ⟨rfl, hp⟩ := splitPrefix?_eq_some_iff.1 hsplit
      exact .prefixed hp (splitPrefix?_eq_none_iff.1 hsplit') hb
  · cases h
  · next hsplit hsplit' =>
      exact .unprefixed (splitPrefix?_eq_none_iff.1 hsplit) (splitPrefix?_eq_none_iff.1 hsplit') ha hb
        (Text.compare_eq_lt_iff.1 h)

/-- Comparing two names follows the rules. -/
theorem compareNames_eq_lt_iff {a b : Text} : compareNames a b = .lt ↔ NameBefore a b :=
  ⟨nameBefore_of_compareNames, fun h => keyOrder_compareNames.lt.2 h.nameKey_lt⟩

/-! ### Sorting -/

section Sorting

variable {α : Type} (name : α → Text) {l l' : List α}

/-- Sorting keeps what has one name in its order. -/
theorem filter_mergeSort_names (l : List α) (n : Text) :
    (l.mergeSort fun a b => (compareNames (name a) (name b)).isLE).filter (fun a => name a = n) =
      l.filter fun a => name a = n := by
  refine filter_mergeSort (isLE_trans_names name) (isLE_total_names name) (fun a b ha hb => ?_) l
  rw [of_decide_eq_true ha, of_decide_eq_true hb, compareNames_eq_eq_iff.2 rfl]
  rfl

variable {name}

/-- Sorting forgets the order that distinct names came in. -/
theorem mergeSort_names_eq_of_perm (hnames : (l.map name).Nodup) (h : l.Perm l') :
    (l.mergeSort fun a b => (compareNames (name a) (name b)).isLE) =
      l'.mergeSort fun a b => (compareNames (name a) (name b)).isLE := by
  have hl := List.mergeSort_perm l fun a b => (compareNames (name a) (name b)).isLE
  have hl' := List.mergeSort_perm l' fun a b => (compareNames (name a) (name b)).isLE
  refine List.Perm.eq_of_pairwise ?_ (pairwise_mergeSort_names name l) (pairwise_mergeSort_names name l')
    (hl.trans (h.trans hl'.symm))
  intro a b ha hb hab hba
  rw [keyOrder_compareNames.isLE] at hab hba
  have hname : name a = name b := nameKey_injective (le_antisymm hab hba)
  exact List.inj_on_of_nodup_map hnames (hl.mem_iff.1 ha) ((hl'.trans h.symm).mem_iff.1 hb) hname

end Sorting

/-- The order of names is total and follows its rules, and sorting by it is canonical: it permutes the attributes,
sorts them, keeps those of one name in their order, and does not depend on the order of distinct names. -/
theorem sortAttributes_canonical :
    (∀ a b, compareNames a b = .eq ↔ a = b) ∧ (∀ a b, compareNames b a = (compareNames a b).swap) ∧
      (∀ a b c, (compareNames a b).isLE = true → (compareNames b c).isLE = true →
        (compareNames a c).isLE = true) ∧
      (∀ a b, compareNames a b = .lt ↔ NameBefore a b) ∧
      ∀ attributes,
        (sortAttributes attributes).Perm attributes ∧
        (sortAttributes attributes).Pairwise (fun a b => (compareNames a.name b.name).isLE = true) ∧
        (∀ name, (sortAttributes attributes).filter (fun a => a.name = name) =
          attributes.filter fun a => a.name = name) ∧
        ∀ attributes', attributes'.Perm attributes → (attributes.map Attribute.name).Nodup →
          sortAttributes attributes' = sortAttributes attributes := by
  refine ⟨fun a b => compareNames_eq_eq_iff, keyOrder_compareNames.swap, fun a b c => keyOrder_compareNames.isLE_trans,
    fun a b => compareNames_eq_lt_iff, fun attributes => ⟨List.mergeSort_perm .., pairwise_mergeSort_names _ _,
      filter_mergeSort_names _ _, fun attributes' hperm hnames => ?_⟩⟩
  exact (mergeSort_names_eq_of_perm hnames hperm.symm).symm

end XmlTidy
