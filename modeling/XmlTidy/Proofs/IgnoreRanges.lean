import XmlTidy.Proofs.Places

/-!
Ignore ranges among any comments and fragments, in whatever order these come. Of the markers in order each
start marker with an end marker right behind it makes a range, and no other two do; the scan that only
asks whether there is a range agrees with the one that lists them. Splicing ranges into fragments merges them
with the fragments that start outside of them.
-/

namespace XmlTidy

/-- Whether a comment is a marker. -/
def Markers.marks (markers : Markers) (comment : Token) : Bool :=
  comment.image = markers.start || comment.image = markers.stop

/-- The markers among comments, in the order of their offsets. -/
def Markers.among (markers : Markers) (comments : List Token) : List Token :=
  IgnoreRange.sortTokens (comments.filter markers.marks)

namespace IgnoreRange

/-- Ranges in the order of their offsets, none of them empty and none reaching into another. -/
structure Ordered (ranges : List IgnoreRange) : Prop where
  first_le_last : ∀ r ∈ ranges, r.first ≤ r.last
  increasing : ranges.Pairwise fun r s => r.first < s.first
  disjoint : ranges.Pairwise fun r s => r.last < s.first ∨ s.last < r.first

variable {markers : Markers}

/-! ### Neighbouring markers -/

/-- The ranges that markers make with their neighbours. -/
def ofNeighbours (markers : Markers) (m : List Token) : List IgnoreRange :=
  ((m.zip m.tail).filter fun x => x.1.image = markers.start && x.2.image = markers.stop).map fun x =>
    between x.1 x.2

/-- The last marker, if it starts a range that has no end. -/
def openAtEnd (markers : Markers) (m : List Token) : Option Token :=
  m.getLast?.filter fun c => c.image = markers.start

section Neighbours

variable {a b : Token} (m : List Token)

theorem ofNeighbours_cons_cons : ofNeighbours markers (a :: b :: m) =
    if a.image = markers.start ∧ b.image = markers.stop then between a b :: ofNeighbours markers (b :: m)
    else ofNeighbours markers (b :: m) := by
  by_cases h : a.image = markers.start ∧ b.image = markers.stop
  · simp [ofNeighbours, h]
  · simp [ofNeighbours, h]

/-- What is no start marker makes no range with what follows. -/
theorem ofNeighbours_cons (ha : a.image ≠ markers.start) :
    ofNeighbours markers (a :: m) = ofNeighbours markers m := by
  cases m with
  | nil => rfl
  | cons b m => rw [ofNeighbours_cons_cons, if_neg fun h => ha h.1]

theorem exists_of_mem_ofNeighbours {m : List Token} {r : IgnoreRange} (hr : r ∈ ofNeighbours markers m) :
    ∃ a b, [a, b].Sublist m ∧ a.image = markers.start ∧ r = between a b := by
  induction m with
  | nil => cases hr
  | cons a m ih =>
      cases m with
      | nil => cases hr
      | cons b m =>
          rw [ofNeighbours_cons_cons] at hr
          have hbehind : r ∈ ofNeighbours markers (b :: m) →
              ∃ c d, [c, d].Sublist (a :: b :: m) ∧ c.image = markers.start ∧ r = between c d := by
            intro hr
            obtain ⟨c, d, hsublist, hc⟩ := ih hr
            exact ⟨c, d, hsublist.cons a, hc⟩
          split at hr
          · next hpair =>
              rcases List.mem_cons.1 hr with rfl | hr
              · exact ⟨a, b, by simp, hpair.1, rfl⟩
              · exact hbehind hr
          · exact hbehind hr

theorem openAtEnd_cons_cons : openAtEnd markers (a :: b :: m) = openAtEnd markers (b :: m) := by
  rw [openAtEnd, openAtEnd, List.getLast?_cons_cons]

theorem openAtEnd_cons (ha : a.image ≠ markers.start) : openAtEnd markers (a :: m) = openAtEnd markers m := by
  cases m with
  | nil => simp [openAtEnd, Option.filter, ha]
  | cons b m => exact openAtEnd_cons_cons m

end Neighbours

/-! ### Pairing -/

/-- A comment that is no marker changes nothing. -/
theorem pair_cons_of_not_marks (pending : Option Token) {comment : Token} (h : markers.marks comment = false)
    (rest : List Token) : pair markers pending (comment :: rest) = pair markers pending rest := by
  simp only [Markers.marks, Bool.or_eq_false_iff, decide_eq_false_iff_not] at h
  cases pending <;> rw [pair, if_neg h.1, if_neg h.2]

theorem pair_filter (pending : Option Token) (comments : List Token) :
    pair markers pending (comments.filter markers.marks) = pair markers pending comments := by
  induction comments generalizing pending with
  | nil => rfl
  | cons comment rest ih =>
      cases hmarks : markers.marks comment with
      | true =>
          rw [List.filter_cons_of_pos hmarks]
          cases pending <;> simp only [pair, ih]
      | false =>
          rw [List.filter_cons_of_neg (by simp [hmarks]), ih, pair_cons_of_not_marks pending hmarks]

/-- Of markers in order, the pending one is the start marker right in front of the others. -/
theorem pair_eq (hmarkers : markers.start ≠ markers.stop) {m : List Token} (hm : ∀ c ∈ m, markers.marks c = true) :
    pair markers none m = (ofNeighbours markers m, openAtEnd markers m) ∧
      ∀ a : Token, a.image = markers.start →
        pair markers (some a) m = (ofNeighbours markers (a :: m), openAtEnd markers (a :: m)) := by
  induction m with
  | nil =>
      refine ⟨rfl, fun a ha => ?_⟩
      simp [pair, ofNeighbours, openAtEnd, Option.filter, ha]
  | cons b m ih =>
      obtain ⟨hnone, hsome⟩ := ih fun c hc => hm c (by simp [hc])
      by_cases hstart : b.image = markers.start
      · refine ⟨?_, fun a ha => ?_⟩
        · rw [pair, if_pos hstart, hsome b hstart]
        · rw [pair, if_pos hstart, hsome b hstart, ofNeighbours_cons_cons, if_neg, openAtEnd_cons_cons]
          rintro ⟨-, hstop⟩
          exact hmarkers (hstart.symm.trans hstop)
      · have hstop : b.image = markers.stop := by
          simpa [Markers.marks, hstart] using hm b (by simp)
        refine ⟨?_, fun a ha => ?_⟩
        · rw [pair, if_neg hstart, if_pos hstop, hnone, ofNeighbours_cons m hstart, openAtEnd_cons m hstart]
        · rw [pair, if_neg hstart, if_pos hstop, hnone, ofNeighbours_cons_cons, if_pos ⟨ha, hstop⟩,
            openAtEnd_cons_cons, ofNeighbours_cons m hstart, openAtEnd_cons m hstart]

/-- The ranges among comments are those that their markers make with their neighbours. -/
theorem scan_eq (hmarkers : markers.start ≠ markers.stop) (comments : List Token) :
    scan markers comments =
      (ofNeighbours markers (markers.among comments), openAtEnd markers (markers.among comments)) := by
  have hmarks : ∀ c ∈ markers.among comments, markers.marks c = true := by
    intro c hc
    rw [Markers.among, sortTokens, ← filter_sortedBy] at hc
    exact (List.mem_filter.1 hc).2
  rw [scan, ← pair_filter, sortTokens, filter_sortedBy]
  exact (pair_eq hmarkers hmarks).1

/-- Both scans wait for an end marker in the same places. -/
theorem existsIn_eq (pending : Option Token) (comments : List Token) :
    existsIn markers pending.isSome comments = !(pair markers pending comments).1.isEmpty := by
  induction comments generalizing pending with
  | nil => rfl
  | cons comment rest ih =>
      rw [existsIn]
      by_cases hstart : comment.image = markers.start
      · rw [if_pos hstart]
        cases pending <;> rw [pair, if_pos hstart] <;> exact ih (some comment)
      · rw [if_neg hstart]
        by_cases hstop : comment.image = markers.stop
        · cases pending with
          | none =>
              rw [pair, if_neg hstart, if_pos hstop, ← ih]
              simp
          | some start =>
              rw [pair, if_neg hstart, if_pos hstop]
              simp [hstop]
        · rw [pair_cons_of_not_marks pending (by simp [Markers.marks, hstart, hstop]), ← ih]
          simp [hstop]

/-! ### Disjoint comments -/

/-- Markers one behind the other make ranges one behind the other. -/
theorem pairwise_ofNeighbours (hmarkers : markers.start ≠ markers.stop) {m : List Token}
    (hm : m.Pairwise fun a b => a.span.last < b.span.first) :
    (ofNeighbours markers m).Pairwise fun r s => r.last < s.first := by
  induction m with
  | nil => exact .nil
  | cons a m ih =>
      have htail := ih (List.pairwise_cons.1 hm).2
      cases m with
      | nil => exact .nil
      | cons b m =>
          rw [ofNeighbours_cons_cons]
          split
          · next hpair =>
              refine List.pairwise_cons.2 ⟨fun r hr => ?_, htail⟩
              -- the end marker is no start marker, so the next range starts behind it
              obtain ⟨c, d, hsublist, hc, rfl⟩ := exists_of_mem_ofNeighbours hr
              have hmem : c ∈ b :: m := hsublist.subset (by simp)
              rcases List.mem_cons.1 hmem with rfl | hmem
              · exact absurd (hc.symm.trans hpair.2) hmarkers
              · exact (List.pairwise_cons.1 (List.pairwise_cons.1 hm).2).1 c hmem
          · exact htail

theorem first_le_last_of_mem_ofNeighbours {m : List Token}
    (hspan : ∀ c ∈ m, (c.span.first : Int) ≤ c.span.last)
    (hm : m.Pairwise fun a b => a.span.last < b.span.first) {r : IgnoreRange} (hr : r ∈ ofNeighbours markers m) :
    r.first ≤ r.last := by
  obtain ⟨a, b, hsublist, -, rfl⟩ := exists_of_mem_ofNeighbours hr
  have hab : a.span.last < b.span.first := by simpa using hm.sublist hsublist
  have ha := hspan a (hsublist.subset (by simp))
  have hb := hspan b (hsublist.subset (by simp))
  simp only [between]
  omega

/-- Ranges one behind the other are in order. -/
theorem Ordered.of_pairwise {ranges : List IgnoreRange} (hfirst : ∀ r ∈ ranges, r.first ≤ r.last)
    (h : ranges.Pairwise fun r s => r.last < s.first) : Ordered ranges where
  first_le_last := hfirst
  increasing := h.imp_of_mem fun hr _ hlt => lt_of_le_of_lt (hfirst _ hr) hlt
  disjoint := h.imp .inl

/-- Of comments that take up characters of their own the markers stand one behind the other. -/
theorem pairwise_among {comments : List Token} (hspan : ∀ c ∈ comments, (c.span.first : Int) ≤ c.span.last)
    (h : comments.Pairwise fun a b => a.span.last < b.span.first ∨ b.span.last < a.span.first) :
    (markers.among comments).Pairwise fun a b => a.span.last < b.span.first := by
  have hperm : (markers.among comments).Perm (comments.filter markers.marks) := List.mergeSort_perm ..
  have hapart : (markers.among comments).Pairwise fun a b => a.span.last < b.span.first ∨ b.span.last < a.span.first :=
    (hperm.pairwise_iff Or.symm).2 (h.sublist List.filter_sublist)
  have hsorted : (markers.among comments).Pairwise fun a b => a.span.first ≤ b.span.first := pairwise_sortedBy ..
  refine (hapart.and hsorted).imp_of_mem fun {a b} ha hb hab => ?_
  have ha' := hspan a (List.mem_of_mem_filter (hperm.mem_iff.1 ha))
  have hb' := hspan b (List.mem_of_mem_filter (hperm.mem_iff.1 hb))
  omega

/-- Pairing is exact, and both scans agree. The markers in order are sorted, those at one offset as they came; each
start marker with an end marker right behind it makes the range from the one to the other, and nothing else does;
the start marker without an end is the last marker, if that is a start marker. The ranges among comments that
take up characters of their own are in order and disjoint. -/
theorem scan_among (hmarkers : markers.start ≠ markers.stop) (comments : List Token) :
    (markers.among comments).Pairwise (fun a b => a.span.first ≤ b.span.first) ∧
      (∀ n, (markers.among comments).filter (fun c => c.span.first = n) =
        comments.filter fun c => markers.marks c && c.span.first = n) ∧
      (scan markers comments).1 =
        (((markers.among comments).zip (markers.among comments).tail).filter fun x =>
          x.1.image = markers.start && x.2.image = markers.stop).map (fun x =>
            ⟨x.1.span.first, x.2.span.last, x.1.span.start.line, x.2.span.stop.line⟩) ∧
      (∀ c, (scan markers comments).2 = some c ↔
        (markers.among comments).getLast? = some c ∧ c.image = markers.start) ∧
      (existsAmong markers comments = true ↔ (scan markers comments).1 ≠ []) ∧
      ((∀ c ∈ comments, (c.span.first : Int) ≤ c.span.last) →
        comments.Pairwise (fun a b => a.span.last < b.span.first ∨ b.span.last < a.span.first) →
          Ordered (scan markers comments).1) := by
  rw [scan_eq hmarkers]
  refine ⟨pairwise_sortedBy .., fun n => ?_, rfl, fun c => ?_, ?_, fun hspan hdisjoint => ?_⟩
  · rw [Markers.among, sortTokens, filter_key_sortedBy, List.filter_filter]
    simp only [Bool.and_comm]
  · simp [openAtEnd, Option.filter_eq_some_iff]
  · have hexists := @existsIn_eq markers none (sortTokens comments)
    rw [existsAmong, ← Option.isSome_none, hexists, ← scan, scan_eq hmarkers]
    simp
  · have horder := @pairwise_among markers comments hspan hdisjoint
    have hmem : ∀ c ∈ markers.among comments, c ∈ comments := fun c hc =>
      List.mem_of_mem_filter ((List.mergeSort_perm ..).mem_iff.1 hc)
    exact .of_pairwise (fun r hr => first_le_last_of_mem_ofNeighbours (fun c hc => hspan c (hmem c hc)) horder hr)
      (pairwise_ofNeighbours hmarkers horder)

/-- A comment of one character on the first line. -/
def sampleComment (image : Char) (offset : Nat) : Token :=
  ⟨[image], offset, offset, ⟨1, offset + 1⟩, ⟨1, offset + 1⟩⟩

/-- Brackets as markers, with a closing bracket in front, a second opening one before the next closing one, another
comment and an opening bracket behind. They do not come in order. -/
def sampleComments : List Token :=
  [sampleComment ')' 8, sampleComment '(' 2, sampleComment ')' 0, sampleComment '-' 5, sampleComment '(' 3,
    sampleComment '(' 9]

/-- The brackets make one range, from the second opening one to the closing one behind it. -/
theorem scan_among_sample : ['('] ≠ [')'] ∧
    scan ⟨['('], [')']⟩ sampleComments = ([⟨3, 8, 1, 1⟩], some (sampleComment '(' 9)) ∧
    existsAmong ⟨['('], [')']⟩ sampleComments = true ∧ Ordered (scan ⟨['('], [')']⟩ sampleComments).1 := by
  obtain ⟨-, -, -, -, hexists, hordered⟩ := @scan_among ⟨['('], [')']⟩ (by decide) sampleComments
  have hsorted : sortTokens sampleComments = [sampleComment ')' 0, sampleComment '(' 2, sampleComment '(' 3,
      sampleComment '-' 5, sampleComment ')' 8, sampleComment '(' 9] :=
    sortedBy_eq_of_perm (by decide) (by decide)
  have hscan : scan ⟨['('], [')']⟩ sampleComments = ([⟨3, 8, 1, 1⟩], some (sampleComment '(' 9)) := by
    rw [scan, hsorted]
    rfl
  exact ⟨by decide, hscan, hexists.2 (by simp [hscan]), hordered (by decide) (by decide)⟩

/-! ### Splicing -/

/-- Splicing ranges that come in order merges them, each as a fragment that is printed as it was written, with the
fragments that are more than a hint and start in no range; those stay as they are and in their order. Without
ranges nothing changes. -/
theorem splice_merges {fragments : List Fragment} (hfragments : fragments.Pairwise fun f g => f.offset ≤ g.offset)
    {ranges : List IgnoreRange} (hranges : ranges.Pairwise fun r s => r.first < s.first) (source : Text) :
    (ranges ≠ [] →
      (splice source ranges fragments).Pairwise (fun f g => f.offset ≤ g.offset) ∧
      splice source ranges fragments =
        (ranges.map fun r =>
          { kind := .verbatim, offset := r.first, printed := .verbatim (source.slice r.first (r.last + 1)),
            startLine := r.startLine, endLine := r.endLine : Fragment }).merge
          (fragments.filter fun f => !f.isBlank && !ranges.any (·.contains f.offset))
          (fun f g => f.offset ≤ g.offset)) ∧
    splice source [] fragments = fragments :=
  ⟨fun hne => ⟨pairwise_splice hne hfragments hranges, splice_eq_merge hne hfragments hranges⟩, rfl⟩

/-- Two elements on either side of markers with an element between them, and blanks behind the first element. -/
def sampleFragments : List Fragment :=
  [{ kind := .element, offset := 0, printed := .lit "<a/>", startLine := 1, endLine := 1 },
    { kind := .charData, offset := 4, printed := .lit " ", startLine := 1, endLine := 1, isBlank := true },
    { kind := .comment, offset := 5, printed := .lit "(", startLine := 1, endLine := 1 },
    { kind := .element, offset := 6, printed := .lit "<b/>", startLine := 1, endLine := 1 },
    { kind := .comment, offset := 11, printed := .lit ")", startLine := 1, endLine := 1 },
    { kind := .element, offset := 12, printed := .lit "<c/>", startLine := 1, endLine := 1 }]

/-- One range from the one marker to the other takes the place of all that starts in it, and the blanks are left
out. -/
theorem splice_merges_sample :
    sampleFragments.Pairwise (fun f g => f.offset ≤ g.offset) ∧
    ([⟨5, 11, 1, 1⟩] : List IgnoreRange).Pairwise (fun r s => r.first < s.first) ∧
    (splice "<a/> (<b />)<c/>".toList [⟨5, 11, 1, 1⟩] sampleFragments).map (fun f => (f.kind, f.offset)) =
      [(.element, 0), (.verbatim, 5), (.element, 12)] := by
  have hfragments : sampleFragments.Pairwise fun f g => f.offset ≤ g.offset := by decide
  have hranges : ([⟨5, 11, 1, 1⟩] : List IgnoreRange).Pairwise fun r s => r.first < s.first := by decide
  have hsplice := ((splice_merges hfragments hranges "<a/> (<b />)<c/>".toList).1 (by simp)).2
  refine ⟨hfragments, hranges, ?_⟩
  rw [hsplice]
  simp [sampleFragments, contains]

end IgnoreRange

end XmlTidy
