import Mathlib.Data.List.InsertIdx
import Mathlib.Data.List.Sort
import XmlTidy.Printing.IgnoreRange

/-!
Places in a text. Two places of one text are as many lines apart as there are newlines between them, and
on one line as many columns as there are characters; so a span touches another one exactly if it
follows directly and the line goes on. Things that are listed in the order of distinct places are already
in the order that sorting by place gives, and splicing ranges into fragments merges the ranges and the
fragments outside of them.
-/

namespace XmlTidy

/-- What stands in a span of a text. -/
theorem Text.slice_append (pre s post : Text) :
    (pre ++ (s ++ post)).slice pre.length (((pre.length + s.length : Nat) : Int) - 1 + 1) = s := by
  have hplace : ((pre.length + s.length : Nat) : Int) - 1 + 1 = ((pre ++ s).length : Nat) := by
    rw [List.length_append]
    omega
  rw [hplace, Text.slice, ← List.append_assoc]
  show ((pre ++ s ++ post).take (pre ++ s).length).drop pre.length = s
  rw [List.take_left, List.drop_left]

/-! ### Lines and columns -/

namespace Position

theorem of_append (s t : Text) : of (s ++ t) s.length = s.foldl next origin := by
  rw [of, List.take_left]

/-- The position behind some more text. -/
theorem of_append_append (s u t : Text) :
    of (s ++ (u ++ t)) (s.length + u.length) = u.foldl next (of (s ++ (u ++ t)) s.length) := by
  rw [of_append, ← List.append_assoc, ← List.length_append, of_append, List.foldl_append]

theorem line_foldl_next (t : Text) (p : Position) :
    (t.foldl next p).line = p.line + t.count '\n' := by
  induction t generalizing p with
  | nil => simp
  | cons c t ih =>
      rw [List.foldl_cons, ih]
      by_cases hc : c = '\n'
      · subst hc
        simp only [next, if_true, List.count_cons_self]
        omega
      · simp [next, hc]

theorem column_foldl_next {t : Text} (h : '\n' ∉ t) (p : Position) :
    (t.foldl next p).column = p.column + t.length := by
  induction t generalizing p with
  | nil => simp
  | cons c t ih =>
      rw [List.mem_cons, not_or] at h
      rw [List.foldl_cons, ih h.2]
      simp only [next, Ne.symm h.1, if_false, List.length_cons]
      omega

end Position

namespace Source

/-- The last character of a span and what follows the span up to another place. -/
theorem position_behind {pre s gap post : Text} (hs : s ≠ []) :
    (ofText (pre ++ (s ++ (gap ++ post)))).position (pre.length + s.length + gap.length) =
      ((s.getLast?).toList ++ gap).foldl Position.next
        ((ofText (pre ++ (s ++ (gap ++ post)))).position (pre.length + s.length - 1)) := by
  obtain ⟨init, c, rfl⟩ : ∃ init c, s = init ++ [c] :=
    ⟨s.dropLast, s.getLast hs, (List.dropLast_append_getLast hs).symm⟩
  have htext : pre ++ (init ++ [c] ++ (gap ++ post)) = (pre ++ init) ++ ((c :: gap) ++ post) := by simp
  have hfirst : pre.length + (init ++ [c]).length - 1 = (pre ++ init).length := by simp
  have hsecond : pre.length + (init ++ [c]).length + gap.length =
      (pre ++ init).length + (c :: gap).length := by
    simp only [List.length_append, List.length_cons, List.length_nil]
    omega
  have hle : pre.length + (init ++ [c]).length + gap.length ≤ (pre ++ (init ++ [c] ++ (gap ++ post))).length := by
    simp only [List.length_append]
    omega
  rw [position_ofText hle, position_ofText (by omega), htext, hfirst, hsecond, Position.of_append_append]
  simp

variable {pre s gap u post : Text}

/-- A span of characters has its own places at its ends. -/
theorem span_stop (src : Source) {first : Nat} {s : Text} (hs : s ≠ []) :
    (src.span first (first + s.length)).stop = src.position (first + s.length - 1) := by
  have := List.length_pos_iff.2 hs
  show src.position (max (first + s.length - 1) first) = _
  rw [Nat.max_eq_left (by omega)]

/-- Lines between two spans. -/
theorem line_start_eq (hs : s ≠ []) (src : Source) (hsrc : src = ofText (pre ++ (s ++ (gap ++ post))))
    (stop : Nat) :
    (src.span (pre.length + s.length + gap.length) stop).start.line =
      (src.span pre.length (pre.length + s.length)).stop.line +
        ((s.getLast?).toList ++ gap).count '\n' := by
  subst hsrc
  rw [span_stop _ hs]
  show (position _ _).line = _
  rw [position_behind hs, Position.line_foldl_next]

/-- A span touches another one exactly if it follows directly and the line goes on. -/
theorem touches_iff (hs : s ≠ []) (src : Source) (hsrc : src = ofText (pre ++ (s ++ (gap ++ post))))
    (stop : Nat) :
    (src.span pre.length (pre.length + s.length)).touches
        (src.span (pre.length + s.length + gap.length) stop) = true ↔
      gap = [] ∧ s.getLast? ≠ some '\n' := by
  subst hsrc
  obtain ⟨c, hc⟩ : ∃ c, s.getLast? = some c := by
    rw [← Option.ne_none_iff_exists', ne_eq, List.getLast?_eq_none_iff]
    exact hs
  have hstart : ((ofText (pre ++ (s ++ (gap ++ post)))).span (pre.length + s.length + gap.length)
      stop).start = (c :: gap).foldl Position.next
        ((ofText (pre ++ (s ++ (gap ++ post)))).position (pre.length + s.length - 1)) := by
    refine (position_behind hs).trans ?_
    rw [hc]
    rfl
  simp only [Span.touches, span_stop _ hs, hstart, Position.line_foldl_next, hc, Bool.and_eq_true,
    decide_eq_true_eq, ne_eq, Option.some.injEq]
  constructor
  · rintro ⟨hline, hcolumn⟩
    have hmem : '\n' ∉ c :: gap := List.count_eq_zero.1 (by omega)
    rw [Position.column_foldl_next hmem, List.length_cons] at hcolumn
    refine ⟨List.length_eq_zero_iff.1 (by omega), ?_⟩
    rintro rfl
    simp at hmem
  · rintro ⟨rfl, hne⟩
    have hmem : '\n' ∉ [c] := by simpa using Ne.symm hne
    rw [Position.column_foldl_next hmem, List.count_eq_zero.2 hmem]
    simp

end Source

/-! ### Order -/

/-- In the order of distinct keys a key tells what it belongs to. -/
theorem eq_of_key_eq {α κ : Type} [LinearOrder κ] {key : α → κ} {l : List α}
    (h : l.Pairwise fun a b => key a < key b) {a b : α} (ha : a ∈ l) (hb : b ∈ l)
    (hkey : key a = key b) : a = b := by
  induction l with
  | nil => simp at ha
  | cons c l ih =>
      rw [List.pairwise_cons] at h
      rcases List.mem_cons.1 ha with rfl | ha' <;> rcases List.mem_cons.1 hb with rfl | hb'
      · rfl
      · exact absurd hkey (ne_of_lt (h.1 b hb'))
      · exact absurd hkey.symm (ne_of_lt (h.1 a ha'))
      · exact ih h.2 ha' hb'

/-- Of the things that have distinct keys there is only one list in order. -/
theorem eq_of_perm_of_pairwise {α κ : Type} [LinearOrder κ] {key : α → κ} {l sorted : List α}
    (hperm : sorted.Perm l) (hl : l.Pairwise fun a b => key a ≤ key b)
    (h : sorted.Pairwise fun a b => key a < key b) : l = sorted := by
  refine List.Perm.eq_of_pairwise (fun a b ha hb hab hba => ?_) hl (h.imp le_of_lt) hperm.symm
  exact eq_of_key_eq h (hperm.mem_iff.2 ha) hb (le_antisymm hab hba)

theorem pairwise_sortedBy {α κ : Type} [LinearOrder κ] (key : α → κ) (l : List α) :
    (sortedBy key l).Pairwise fun a b => key a ≤ key b := by
  have := @List.pairwise_mergeSort α (fun a b => decide (key a ≤ key b))
    (fun a b c => by simpa using le_trans) (fun a b => by simpa using le_total (key a) (key b)) l
  simpa [sortedBy] using this

/-- Things listed in the order of distinct keys are what sorting by the key gives. -/
theorem sortedBy_eq_of_perm {α κ : Type} [LinearOrder κ] {key : α → κ} {l sorted : List α}
    (hperm : sorted.Perm l) (h : sorted.Pairwise fun a b => key a < key b) :
    sortedBy key l = sorted :=
  eq_of_perm_of_pairwise (hperm.trans (List.mergeSort_perm ..).symm) (pairwise_sortedBy key l) h

/-- Sorting keeps things that may stand in any order in the order that they came in. -/
theorem filter_mergeSort {α : Type} {le : α → α → Bool} (htrans : ∀ a b c, le a b → le b c → le a c)
    (htotal : ∀ a b, le a b || le b a) {p : α → Bool} (hp : ∀ a b, p a → p b → le a b) (l : List α) :
    (l.mergeSort le).filter p = l.filter p := by
  have hsorted : (l.filter p).Pairwise fun a b => le a b :=
    List.pairwise_of_forall_mem_list fun a ha b hb => hp a b (List.mem_filter.1 ha).2 (List.mem_filter.1 hb).2
  have hsublist := (List.sublist_mergeSort htrans htotal hsorted List.filter_sublist).filter p
  rw [List.filter_filter] at hsublist
  simp only [Bool.and_self] at hsublist
  exact (hsublist.eq_of_length ((List.mergeSort_perm l _).filter _).length_eq.symm).symm

theorem filter_key_sortedBy {α κ : Type} [LinearOrder κ] (key : α → κ) (k : κ) (l : List α) :
    (sortedBy key l).filter (fun a => key a = k) = l.filter fun a => key a = k := by
  refine filter_mergeSort (fun a b c => by simpa using le_trans)
    (fun a b => by simpa using le_total (key a) (key b)) (fun a b ha hb => ?_) l
  rw [decide_eq_true_eq] at ha hb ⊢
  exact le_of_eq (ha.trans hb.symm)

theorem mem_iff_of_filter_key_eq {α κ : Type} [DecidableEq κ] {key : α → κ} {l l' : List α}
    (h : ∀ k, l.filter (fun a => key a = k) = l'.filter fun a => key a = k) (a : α) : a ∈ l ↔ a ∈ l' := by
  have ha := congrArg (a ∈ ·) (h (key a))
  simpa using ha

/-- There is only one list in order with given things at each key. -/
theorem eq_of_filter_key_eq {α κ : Type} [LinearOrder κ] {key : α → κ} {l l' : List α}
    (hl : l.Pairwise fun a b => key a ≤ key b) (hl' : l'.Pairwise fun a b => key a ≤ key b)
    (h : ∀ k, l.filter (fun a => key a = k) = l'.filter fun a => key a = k) : l = l' := by
  have hmem := mem_iff_of_filter_key_eq h
  induction l generalizing l' with
  | nil => exact (List.eq_nil_iff_forall_not_mem.2 fun a ha => by simpa using (hmem a).2 ha).symm
  | cons a l ih =>
      cases l' with
      | nil => simpa using (hmem a).1 (by simp)
      | cons b l' =>
          obtain ⟨ha, htail⟩ := List.pairwise_cons.1 hl
          obtain ⟨hb, htail'⟩ := List.pairwise_cons.1 hl'
          -- both heads have the least key, so they head the same class
          have hkey : key b = key a := by
            refine le_antisymm ?_ ?_
            · rcases List.mem_cons.1 ((hmem a).1 (by simp)) with rfl | ha'
              · exact le_refl _
              · exact hb a ha'
            · rcases List.mem_cons.1 ((hmem b).2 (by simp)) with rfl | hb'
              · exact le_refl _
              · exact ha b hb'
          have hclass := h (key a)
          simp only [List.filter_cons, decide_true, if_true, hkey, List.cons.injEq] at hclass
          obtain ⟨rfl, hclass⟩ := hclass
          have hrest : ∀ k, l.filter (fun c => key c = k) = l'.filter fun c => key c = k := by
            intro k
            by_cases hk : key a = k
            · rw [← hk]
              exact hclass
            · simpa [List.filter_cons, hk] using h k
          exact congrArg (a :: ·) (ih htail htail' hrest (mem_iff_of_filter_key_eq hrest))

/-- Leaving things out before sorting or after it is the same. -/
theorem filter_sortedBy {α κ : Type} [LinearOrder κ] (key : α → κ) (p : α → Bool) (l : List α) :
    (sortedBy key l).filter p = sortedBy key (l.filter p) := by
  have hsorted := (pairwise_sortedBy key l).sublist (List.filter_sublist (p := p))
  refine eq_of_filter_key_eq hsorted (pairwise_sortedBy key _) fun k => ?_
  rw [List.filter_comm, filter_key_sortedBy, filter_key_sortedBy, List.filter_comm]

/-! ### Inserting in order -/

section Inserting

variable {α : Type} {r : α → α → Prop} [DecidableRel r]

/-- What is put at the place where it belongs is inserted in order. -/
theorem insertIdx_eq_orderedInsert {a : α} {l : List α} {i : Nat} (hi : i ≤ l.length)
    (hbelow : ∀ b ∈ l.take i, ¬ r a b) (habove : ∀ b ∈ l.drop i, r a b) :
    l.insertIdx i a = l.orderedInsert r a := by
  induction l generalizing i with
  | nil =>
      obtain rfl : i = 0 := by simpa using hi
      rfl
  | cons b l ih =>
      cases i with
      | zero =>
          rw [List.orderedInsert_cons, if_pos (habove b (by simp))]
          rfl
      | succ i =>
          rw [List.insertIdx_succ_cons, List.orderedInsert_cons, if_neg (hbelow b (by simp)),
            ih (Nat.le_of_succ_le_succ hi) (fun c hc => hbelow c (by simp [hc])) habove]

theorem foldl_orderedInsert_cons {a : α} {l inserted : List α} (h : ∀ b ∈ inserted, ¬ r b a) :
    inserted.foldl (fun l b => l.orderedInsert r b) (a :: l) =
      a :: inserted.foldl (fun l b => l.orderedInsert r b) l := by
  induction inserted generalizing l with
  | nil => rfl
  | cons b inserted ih =>
      rw [List.foldl_cons, List.orderedInsert_cons, if_neg (h b (by simp)), ih fun c hc => h c (by simp [hc])]
      rfl

/-- Inserting things in their order, one by one, is merging them. -/
theorem foldl_orderedInsert_eq_merge [Std.Total r] [IsTrans α r] {l inserted : List α}
    (h : inserted.Pairwise fun a b => ¬ r b a) :
    inserted.foldl (fun l b => l.orderedInsert r b) l = inserted.merge l (r · ·) := by
  induction inserted generalizing l with
  | nil => simp
  | cons b inserted ih =>
      obtain ⟨hb, hinserted⟩ := List.pairwise_cons.1 h
      -- what comes in front of `b` comes in front of everything that is still to be inserted
      induction l with
      | nil =>
          rw [List.foldl_cons, List.orderedInsert_nil, foldl_orderedInsert_cons hb, ih hinserted]
          simp
      | cons a l ihl =>
          by_cases hba : r b a
          · rw [List.foldl_cons, List.orderedInsert_cons, if_pos hba, foldl_orderedInsert_cons hb, ih hinserted,
              List.cons_merge_cons_pos _ _ _ (by simpa using hba)]
          · have hfront : ∀ c ∈ b :: inserted, ¬ r c a := by
              intro c hc hca
              rcases List.mem_cons.1 hc with rfl | hc
              · exact hba hca
              · exact hb c hc (trans_of r hca ((total_of r a b).resolve_right hba))
            rw [foldl_orderedInsert_cons hfront, ihl, List.cons_merge_cons_neg _ _ _ (by simpa using hba)]

end Inserting

/-! ### Splicing -/

/-- Fragments in the order of their offsets. -/
abbrev Fragment.Precedes (f g : Fragment) : Prop := f.offset ≤ g.offset

instance : Std.Total Fragment.Precedes := ⟨fun f g => le_total f.offset g.offset⟩

instance : IsTrans Fragment Fragment.Precedes := ⟨fun _ _ _ => le_trans⟩

/-- Fragments in the order of their offsets, no two at one offset. -/
abbrev InOrder (fragments : List Fragment) : Prop :=
  fragments.Pairwise fun f g => f.offset < g.offset

namespace IgnoreRange

namespace Spliced

variable {s : Spliced}

/-- The offsets are those of the fragments. -/
def InStep (s : Spliced) : Prop := s.offsets = (s.fragments.map Fragment.offset).toArray

theorem inStep_ofFragments (fragments : List Fragment) : (ofFragments fragments).InStep := rfl

/-- A fragment and its offset are inserted at one place. -/
theorem InStep.insert (h : s.InStep) (f : Fragment) : (s.insert f).InStep := by
  rw [InStep] at h
  rw [InStep, Spliced.insert, h, List.insertIdxIfInBounds_toArray, List.map_insertIdx]

/-- Bisection splits the fragments where a fragment belongs. -/
theorem InStep.splitsAt (h : s.InStep) (hsorted : s.fragments.Pairwise Fragment.Precedes) (offset : Int) :
    SplitsAt (fun k => decide (k < offset)) (s.fragments.map Fragment.offset) (bisectLeft s.offsets offset) := by
  rw [InStep] at h
  rw [h]
  refine splitsAt_bisect (List.pairwise_map.2 (hsorted.imp ?_))
  intro f g hfg hg
  rw [decide_eq_true_eq] at hg ⊢
  exact lt_of_le_of_lt hfg hg

/-- A fragment is inserted where it belongs, in front of those at its own offset. -/
theorem InStep.fragments_insert (h : s.InStep) (hsorted : s.fragments.Pairwise Fragment.Precedes) (f : Fragment) :
    (s.insert f).fragments = s.fragments.orderedInsert Fragment.Precedes f := by
  have hsplit := h.splitsAt hsorted f.offset
  have hle := hsplit.le
  rw [List.length_map] at hle
  refine insertIdx_eq_orderedInsert hle (fun g hg => ?_) fun g hg => ?_
  · have hbelow := hsplit.front g.offset (by rw [← List.map_take]; exact List.mem_map_of_mem hg)
    rw [decide_eq_true_eq] at hbelow
    exact not_le.2 hbelow
  · have habove := hsplit.back g.offset (by rw [← List.map_drop]; exact List.mem_map_of_mem hg)
    rw [decide_eq_false_iff_not] at habove
    exact not_lt.1 habove

/-- Every insertion leaves the fragments in order, and their offsets in step, for the next one. -/
theorem InStep.foldl_insert (h : s.InStep) (hsorted : s.fragments.Pairwise Fragment.Precedes)
    (inserted : List Fragment) :
    (inserted.foldl Spliced.insert s).InStep ∧
      (inserted.foldl Spliced.insert s).fragments =
        inserted.foldl (fun l f => l.orderedInsert Fragment.Precedes f) s.fragments := by
  induction inserted generalizing s with
  | nil => exact ⟨h, rfl⟩
  | cons f inserted ih =>
      have hinsert := h.fragments_insert hsorted f
      have hrest := ih (h.insert f) (by rw [hinsert]; exact hsorted.orderedInsert f)
      rwa [hinsert] at hrest

end Spliced

variable {source : Text} {ranges : List IgnoreRange} {fragments : List Fragment}

/-- Splicing merges the ranges and the fragments outside of them. -/
theorem splice_eq_merge (hranges : ranges ≠ []) (hbase : fragments.Pairwise Fragment.Precedes)
    (horder : ranges.Pairwise fun r s => r.first < s.first) :
    splice source ranges fragments =
      (ranges.map (fragment source)).merge (kept ranges fragments) (Fragment.Precedes · ·) := by
  have hempty : ranges.isEmpty = false := by simpa using hranges
  have hinserted : (ranges.map (fragment source)).Pairwise fun f g => ¬ g.Precedes f := by
    rw [List.pairwise_map]
    exact horder.imp not_le.2
  rw [splice, hempty, ← foldl_orderedInsert_eq_merge hinserted]
  exact ((Spliced.inStep_ofFragments _).foldl_insert (hbase.sublist List.filter_sublist) _).2

theorem pairwise_splice (hranges : ranges ≠ []) (hbase : fragments.Pairwise Fragment.Precedes)
    (horder : ranges.Pairwise fun r s => r.first < s.first) :
    (splice source ranges fragments).Pairwise Fragment.Precedes := by
  have hinserted : (ranges.map (fragment source)).Pairwise Fragment.Precedes := by
    rw [List.pairwise_map]
    exact horder.imp le_of_lt
  rw [splice_eq_merge hranges hbase horder]
  exact hinserted.merge (hbase.sublist List.filter_sublist)

/-- Splicing gives the one list in order that holds the ranges and the fragments outside of them. -/
theorem splice_eq {expected : List Fragment} (hranges : ranges ≠ []) (hbase : InOrder fragments)
    (horder : ranges.Pairwise fun r s => r.first < s.first) (hexpected : InOrder expected)
    (hperm : expected.Perm (kept ranges fragments ++ ranges.map (fragment source))) :
    splice source ranges fragments = expected := by
  have hsorted : fragments.Pairwise Fragment.Precedes := hbase.imp le_of_lt
  refine eq_of_perm_of_pairwise (hperm.trans ?_) (pairwise_splice hranges hsorted horder) hexpected
  rw [splice_eq_merge hranges hsorted horder]
  exact List.perm_append_comm.trans (List.merge_perm_append _).symm

end IgnoreRange

end XmlTidy
