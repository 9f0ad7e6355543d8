import XmlTidy.Printing.Segment

/-!
Cutting a line in one pass. A line is cut by looking for one breakable space after the other, each the longest run of
blanks that has a boundary at either end. Since no blank is a word character, such a run is taken whole or not at all:
it stands between two word characters. So a pass over the line that holds the blanks behind a word character back,
until it sees what follows them, cuts out the same segments.
-/

namespace XmlTidy

/-- Cuts a line into its segments in one pass. `word` is the word so far and `gap` the blanks behind it
that may turn out to be a space, both in reverse. -/
def cutLine (word gap : Text) : Text → List Segment
  | [] => [⟨.word, (gap ++ word).reverse⟩]
  | c :: t =>
      if gap.isEmpty then
        if isGap c && word.head?.any isWordChar then cutLine word [c] t
        else cutLine (c :: word) [] t
      else if isGap c then cutLine word (c :: gap) t
      else if isWordChar c then
        ⟨.word, word.reverse⟩ :: ⟨.space, gap.reverse⟩ :: cutLine [c] [] t
      else cutLine (c :: (gap ++ word)) [] t

/-! ### Breakable spaces -/

theorem isWordChar_of_isGap {c : Char} (h : isGap c = true) : isWordChar c = false := by
  simp only [isGap, Bool.or_eq_true, beq_iff_eq] at h
  rcases h with (rfl | rfl) | rfl <;> simp [isWordChar]

theorem isGap_of_isWordChar {c : Char} (h : isWordChar c = true) : isGap c = false := by
  cases hgap : isGap c with
  | false => rfl
  | true =>
      rw [isWordChar_of_isGap hgap] at h
      exact absurd h Bool.false_ne_true

/-- The blanks behind a blank lead to a boundary all together or not at all. -/
theorem furtherBlanks?_eq {last : Char} (hlast : isGap last = true) (t : Text) :
    furtherBlanks? last t =
      if (t.dropWhile isGap).head?.any isWordChar then some (t.takeWhile isGap, t.dropWhile isGap) else none := by
  induction t generalizing last with
  | nil => simp [furtherBlanks?, isBoundary, isWordChar_of_isGap hlast]
  | cons c t ih =>
      have hboundary : isBoundary (some last) (some c) = isWordChar c := by
        simp [isBoundary, isWordChar_of_isGap hlast]
      rw [furtherBlanks?, hboundary]
      by_cases hc : isGap c = true
      · rw [if_pos hc, ih hc, List.dropWhile_cons_of_pos hc, List.takeWhile_cons_of_pos hc, isWordChar_of_isGap hc]
        cases (t.dropWhile isGap).head?.any isWordChar <;> rfl
      · rw [if_neg hc, List.dropWhile_cons_of_neg hc, List.takeWhile_cons_of_neg hc]
        rfl

/-- A breakable space is all the blanks between two word characters. -/
theorem spaceAt?_cons (before : Option Char) (c : Char) (t : Text) :
    spaceAt? before (c :: t) =
      if isGap c && before.any isWordChar && (t.dropWhile isGap).head?.any isWordChar then
        some (c :: t.takeWhile isGap, t.dropWhile isGap)
      else none := by
  by_cases hc : isGap c = true
  · have hboundary : isBoundary before (some c) = before.any isWordChar := by
      simp [isBoundary, isWordChar_of_isGap hc]
    rw [spaceAt?, hboundary, hc, Bool.and_true, Bool.true_and, furtherBlanks?_eq hc]
    cases before.any isWordChar <;> cases (t.dropWhile isGap).head?.any isWordChar <;> rfl
  · simp [spaceAt?, hc]

/-! ### One pass -/

theorem cutLine_cons (c : Char) (t : Text) : cutLine [] [] (c :: t) = cutLine [c] [] t := by
  rw [cutLine]
  simp

/-- Blanks behind blanks are held back with them. -/
theorem cutLine_blanks {word gap : Text} (hblank : ∀ c ∈ gap, isGap c = true) {taken : Text} (htaken : taken ≠ [])
    (t : Text) : cutLine word taken (gap ++ t) = cutLine word (gap.reverse ++ taken) t := by
  induction gap generalizing taken with
  | nil => rfl
  | cons c gap ih =>
      obtain ⟨hc, hgap⟩ := List.forall_mem_cons.1 hblank
      have hempty : ¬ taken.isEmpty = true := by simpa using htaken
      rw [List.cons_append, cutLine, if_neg hempty, if_pos hc, ih hgap (by simp)]
      simp

/-- Blanks behind anything else belong to the word. -/
theorem cutLine_blanks_word {word gap : Text} (hblank : ∀ c ∈ gap, isGap c = true)
    (hword : word.head?.any isWordChar = false) (t : Text) :
    cutLine word [] (gap ++ t) = cutLine (gap.reverse ++ word) [] t := by
  induction gap generalizing word with
  | nil => rfl
  | cons c gap ih =>
      obtain ⟨hc, hgap⟩ := List.forall_mem_cons.1 hblank
      have hhead : (c :: word).head?.any isWordChar = false := isWordChar_of_isGap hc
      rw [List.cons_append, cutLine, if_pos List.isEmpty_nil, hword, Bool.and_false, if_neg Bool.false_ne_true,
        ih hgap hhead]
      simp

/-- What is held back is a space if a word character follows. -/
theorem cutLine_space {word gap t : Text} (hne : gap ≠ []) (ht : t.head?.any isWordChar = true) :
    cutLine word gap t = ⟨.word, word.reverse⟩ :: ⟨.space, gap.reverse⟩ :: cutLine [] [] t := by
  have hempty : ¬ gap.isEmpty = true := by simpa using hne
  cases t with
  | nil => simp at ht
  | cons c t =>
      have hc : isWordChar c = true := by simpa using ht
      have hgap : ¬ isGap c = true := by simp [isGap_of_isWordChar hc]
      rw [cutLine, if_neg hempty, if_neg hgap, if_pos hc, cutLine_cons]

/-- What is held back belongs to the word if anything else follows. -/
theorem cutLine_no_space {word gap t : Text} (hne : gap ≠ []) (hgap : t.head?.any isGap = false)
    (ht : t.head?.any isWordChar = false) : cutLine word gap t = cutLine (gap ++ word) [] t := by
  have hempty : ¬ gap.isEmpty = true := by simpa using hne
  cases t with
  | nil => rfl
  | cons c t =>
      have hc : ¬ isGap c = true := by simpa using hgap
      have hword : ¬ isWordChar c = true := by simpa using ht
      rw [cutLine, if_neg hempty, if_neg hc, if_neg hword, cutLine, if_pos List.isEmpty_nil, if_neg (by simp [hc])]

theorem head?_dropWhile_isGap (t : Text) : (t.dropWhile isGap).head?.any isGap = false := by
  induction t with
  | nil => rfl
  | cons c t ih =>
      rw [List.dropWhile_cons]
      split
      · exact ih
      · next hc => simpa using hc

theorem isGap_of_mem_takeWhile {t : Text} {c : Char} (h : c ∈ t.takeWhile isGap) : isGap c = true :=
  (List.all_eq_true.1 List.all_takeWhile) c h

/-- A blank is held back with all the blanks behind it. -/
theorem cutLine_held (word : Text) (c : Char) (t : Text) :
    cutLine word [c] t = cutLine word ((t.takeWhile isGap).reverse ++ [c]) (t.dropWhile isGap) := by
  rw [← cutLine_blanks (fun _ => isGap_of_mem_takeWhile) (List.cons_ne_nil c []), List.takeWhile_append_dropWhile]

theorem mapIdx_ofPiece (word gap : Text) (pieces : List Text) :
    (word :: gap :: pieces).mapIdx Segment.ofPiece =
      ⟨.word, word⟩ :: ⟨.space, gap⟩ :: pieces.mapIdx Segment.ofPiece := by
  have hshift : (fun i => Segment.ofPiece (i + 1 + 1)) = Segment.ofPiece := by
    funext i piece
    rw [Segment.ofPiece, Segment.ofPiece, show (i + 1 + 1) % 2 = i % 2 by omega]
  rw [List.mapIdx_cons, List.mapIdx_cons, hshift]
  rfl

/-- Looking for one space after the other gives what the pass gives. The character before the rest of the line counts
only as far as it is a word character, and then it ends the word so far. -/
theorem mapIdx_splitSpaces {before : Option Char} {front : Text}
    (h : before.any isWordChar = front.head?.any isWordChar) (t : Text) :
    (splitSpaces before front t).mapIdx Segment.ofPiece = cutLine front [] t := by
  fun_induction splitSpaces before front t with
  | case1 before front => rfl
  | case2 before front c t gap rest hspace ih =>
      rw [spaceAt?_cons] at hspace
      split at hspace
      · next hcut =>
          simp only [Bool.and_eq_true] at hcut
          obtain ⟨⟨hc, hbefore⟩, hrest⟩ := hcut
          cases hspace
          have hlast : (c :: t.takeWhile isGap).getLast?.any isWordChar = false := by
            rw [List.getLast?_eq_some_getLast (by simp), Option.any_some]
            apply isWordChar_of_isGap
            rcases List.mem_cons.1 (List.getLast_mem (List.cons_ne_nil c (t.takeWhile isGap))) with heq | hmem
            · rwa [heq]
            · exact isGap_of_mem_takeWhile hmem
          have hfront : (isGap c && front.head?.any isWordChar) = true := by rw [hc, ← h, hbefore, Bool.and_true]
          have hheld : (t.takeWhile isGap).reverse ++ [c] ≠ [] := by simp
          rw [mapIdx_ofPiece, ih hlast, cutLine, if_pos List.isEmpty_nil, if_pos hfront, cutLine_held,
            cutLine_space hheld hrest]
          simp
      · cases hspace
  | case3 before front c t hspace ih =>
      rw [ih rfl, cutLine, if_pos List.isEmpty_nil]
      split
      · next hcut =>
          obtain ⟨hc, hfront⟩ := Bool.and_eq_true_iff.1 hcut
          have hrest : (t.dropWhile isGap).head?.any isWordChar = false := by
            rw [spaceAt?_cons, hc, h, hfront] at hspace
            simpa using hspace
          have hheld : (t.takeWhile isGap).reverse ++ [c] ≠ [] := by simp
          have hword : (c :: front).head?.any isWordChar = false := isWordChar_of_isGap hc
          -- the blanks do not lead to a word: both take them into the word, one by one or all together
          calc cutLine (c :: front) [] t
              = cutLine (c :: front) [] (t.takeWhile isGap ++ t.dropWhile isGap) := by
                rw [List.takeWhile_append_dropWhile]
            _ = cutLine ((t.takeWhile isGap).reverse ++ c :: front) [] (t.dropWhile isGap) :=
                cutLine_blanks_word (fun _ => isGap_of_mem_takeWhile) hword _
            _ = cutLine front ((t.takeWhile isGap).reverse ++ [c]) (t.dropWhile isGap) := by
                rw [cutLine_no_space hheld (head?_dropWhile_isGap t) hrest, List.append_assoc]
                rfl
            _ = cutLine front [c] t := (cutLine_held front c t).symm
      · rfl

theorem lineSegments_eq (l : Text) : lineSegments l = cutLine [] [] l := by
  have hstart : (none : Option Char).any isWordChar = ([] : Text).head?.any isWordChar := rfl
  rw [lineSegments, mapIdx_splitSpaces hstart]

theorem segments_eq (t : Text) :
    segments t = [(⟨.newline, ['\n']⟩ : Segment)].intercalate (t.lines.map (cutLine [] [])) := by
  rw [segments, List.map_congr_left fun l _ => lineSegments_eq l]

end XmlTidy
