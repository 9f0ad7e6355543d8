import XmlTidy.Proofs.TextPrinting

/-!
Wrapping running text. Printed text is the text wrapped by `wrapText`: words share a line as long as they
fit, and the next line starts behind the indentation. On a page where indentation takes up as many columns
as it has characters, wrapping what was wrapped changes nothing. The indentation of a wrapped line is then
part of its first word, and each line is as wide as it was measured.
-/

namespace XmlTidy

open Printed

/-! ### Even pages -/

/-- Pages on which a level of indentation takes up as many columns as it has characters. -/
def Page.Even (page : Page) : Prop := page.useTabs = false ∨ page.tabWidth = 1

theorem Text.width_replicate {c : Char} (hc : Width.ofChar c = 1) (n : Nat) :
    Text.width (List.replicate n c) = n := by
  induction n with
  | zero => rfl
  | succ n ih =>
      have hone : Text.width [c] = 1 := by simp [Text.width, hc]
      rw [List.replicate_succ', Text.width_append, ih, hone]

section Even

variable {page : Page} (heven : page.Even)
include heven

theorem Page.Even.width_indentation (depth : Nat) :
    ((page.indentation depth).width : Int) = page.ruler.start depth := by
  rw [Page.indentation, blanks, Page.ruler]
  split
  · next htabs =>
      have htabWidth : page.tabWidth = 1 := by
        rcases heven with h | h
        · rw [htabs] at h
          cases h
        · exact h
      rw [Text.width_replicate rfl, htabWidth]
      simp
  · rw [Text.width_replicate rfl]
    simp

/-- A line break writes a newline and the indentation. -/
theorem Page.Even.newLine_eq (depth : Nat) (p : Printed Text Int) :
    p.newLine page depth = p.write (newLineText page depth) := by
  rw [write_text, hasNewline_newLineText, lastLine_newLineText, Printed.newLine, ← heven.width_indentation]
  simp [newLineText]

end Even

/-! ### The words of a line -/

/-- The words among segments. -/
def wordsOf (segments : List Segment) : List Text :=
  segments.filterMap fun s => if s.kind = .word then some s.value else none

theorem wordsOf_word (value : Text) (rest : List Segment) :
    wordsOf (⟨.word, value⟩ :: rest) = value :: wordsOf rest := rfl

theorem wordsOf_space (value : Text) (rest : List Segment) :
    wordsOf (⟨.space, value⟩ :: rest) = wordsOf rest := rfl

/-- The words of a line, as a fill has them. -/
def Text.lineWords (l : Text) : List Text := wordsOf (cutLine [] [] l)

/-- Words in a fill. -/
def wordDocs (ws : List Text) : List Doc := Doc.join .spaceLine (ws.map .text)

theorem wordDocs_cons_cons (w n : Text) (ws : List Text) :
    wordDocs (w :: n :: ws) = .text w :: .spaceLine :: wordDocs (n :: ws) := rfl

/-- The first word starts with the word so far. -/
theorem wordsOf_cutLine (word gap t : Text) :
    ∃ s rest, wordsOf (cutLine word gap t) = (word.reverse ++ s) :: rest := by
  fun_induction cutLine word gap t with
  | case1 word gap => exact ⟨gap.reverse, [], by simp [wordsOf]⟩
  | case2 word gap c t _ _ ih => exact ih
  | case3 word gap c t _ _ ih =>
      obtain ⟨s, rest, h⟩ := ih
      exact ⟨c :: s, rest, by simp [h]⟩
  | case4 word gap c t _ _ ih => exact ih
  | case5 word gap c t _ _ _ ih => exact ⟨[], _, by rw [wordsOf_word, List.append_nil]⟩
  | case6 word gap c t _ _ _ ih =>
      obtain ⟨s, rest, h⟩ := ih
      exact ⟨gap.reverse ++ c :: s, rest, by simp [h]⟩

theorem map_segmentDoc (word gap t : Text) :
    (cutLine word gap t).map segmentDoc = wordDocs (wordsOf (cutLine word gap t)) := by
  fun_induction cutLine word gap t with
  | case1 => rfl
  | case5 word gap c t _ _ _ ih =>
      obtain ⟨s, rest, h⟩ := wordsOf_cutLine [c] [] t
      rw [wordsOf_word, wordsOf_space, List.map_cons, List.map_cons, ih, h, wordDocs_cons_cons]
      rfl
  | case2 => assumption
  | case3 => assumption
  | case4 => assumption
  | case6 => assumption

theorem lineFill_eq (l : Text) : lineFill l = .fill (wordDocs l.lineWords) := by
  rw [lineFill, map_segmentDoc]
  rfl

/-! ### Cutting again -/

/-- Words that are read as the start of any line that they start. -/
def Reads (w : Text) : Prop := ∀ t, cutLine [] [] (w ++ t) = cutLine w.reverse [] t

/-- Words as they are cut from a line: between each two stands a space between word characters. -/
inductive Wordy : List Text → Prop where
  | last {w : Text} (h : w.lineWords = [w]) : Wordy [w]
  | cons {w : Text} {c d : Char} {n : Text} {ws : List Text} (hreads : Reads w)
      (hend : w.getLast? = some c) (hc : isWordChar c = true) (hd : isWordChar d = true)
      (hrest : Wordy ((d :: n) :: ws)) : Wordy (w :: (d :: n) :: ws)

theorem Reads.lineWords {w : Text} (h : Reads w) : w.lineWords = [w] := by
  have hread := h []
  rw [List.append_nil] at hread
  rw [Text.lineWords, hread]
  simp [cutLine, wordsOf]

/-- A word before a space and the words of the line behind it. -/
theorem Reads.lineWords_append {w : Text} (h : Reads w) {c d : Char} (hend : w.getLast? = some c)
    (hc : isWordChar c = true) (hd : isWordChar d = true) (t : Text) :
    Text.lineWords (w ++ ' ' :: d :: t) = w :: Text.lineWords (d :: t) := by
  have hhead : w.reverse.head? = some c := by rw [List.head?_reverse, hend]
  have hspace : isGap ' ' = true := rfl
  rw [Text.lineWords, Text.lineWords, h, cutLine_cons, cutLine]
  simp only [List.isEmpty_nil, if_true, hspace, hhead, Option.any_some, hc, Bool.true_and]
  rw [cutLine]
  simp only [List.isEmpty_cons, Bool.false_eq_true, if_false, isGap_of_isWordChar hd, hd, if_true]
  rw [wordsOf_word, wordsOf_space, List.reverse_reverse]

/-- What is cut from a line are words. The word so far, alone and with the blanks behind it, has been read
from the start of the line. -/
theorem wordy_cutLine {word gap : Text} (t : Text) (hword : Reads word.reverse)
    (hgap : ∀ t, cutLine [] [] ((gap ++ word).reverse ++ t) = cutLine word gap t)
    (hend : gap ≠ [] → ∃ c ∈ word.head?, isWordChar c = true) : Wordy (wordsOf (cutLine word gap t)) := by
  fun_induction cutLine word gap t with
  | case1 word gap =>
      refine .last ?_
      have hread := hgap []
      rw [List.append_nil] at hread
      rw [Text.lineWords, hread]
      rfl
  | case2 word gap c t hempty hc ih =>
      obtain rfl := List.isEmpty_iff.1 hempty
      refine ih hword (fun t => ?_) fun _ => ?_
      · have hread := hword (c :: t)
        rw [List.reverse_reverse, cutLine, if_pos hempty, if_pos hc] at hread
        simpa using hread
      · cases word with
        | nil => simp at hc
        | cons d word => exact ⟨d, rfl, (Bool.and_eq_true_iff.1 hc).2⟩
  | case3 word gap c t hempty hc ih =>
      obtain rfl := List.isEmpty_iff.1 hempty
      have hread : Reads (c :: word).reverse := by
        intro t
        have hread := hword (c :: t)
        rw [List.reverse_reverse, cutLine, if_pos hempty, if_neg hc] at hread
        simpa using hread
      refine ih hread (fun t => ?_) (by simp)
      simpa using hread t
  | case4 word gap c t hempty hc ih =>
      have hne : gap ≠ [] := by simpa using hempty
      refine ih hword (fun t => ?_) fun _ => hend hne
      have hread := hgap (c :: t)
      rw [cutLine, if_neg hempty, if_pos hc] at hread
      simpa using hread
  | case5 word gap c t hempty hc hwordChar ih =>
      have hne : gap ≠ [] := by simpa using hempty
      obtain ⟨d, hd, hdword⟩ := hend hne
      have hread : Reads [c].reverse := fun t => cutLine_cons c t
      have hrest := ih hread (fun t => cutLine_cons c t) (by simp)
      obtain ⟨s, rest, h⟩ := wordsOf_cutLine [c] [] t
      rw [wordsOf_word, wordsOf_space]
      rw [h] at hrest ⊢
      exact .cons hword (by rw [List.getLast?_reverse]; exact hd) hdword hwordChar hrest
  | case6 word gap c t hempty hc hwordChar ih =>
      have hread : Reads (c :: (gap ++ word)).reverse := by
        intro t
        have hread := hgap (c :: t)
        rw [cutLine, if_neg hempty, if_neg hc, if_neg hwordChar] at hread
        simpa using hread
      refine ih hread (fun t => ?_) (by simp)
      simpa using hread t

theorem wordy_lineWords (l : Text) : Wordy l.lineWords :=
  wordy_cutLine l (fun _ => rfl) (fun _ => rfl) (by simp)

/-! ### Lines behind an indentation -/

theorem wordsOf_cutLine_append {lead : Text} (hlead : ∀ c ∈ lead.head?, isWordChar c = false)
    (word gap t : Text) :
    wordsOf (cutLine (word ++ lead) gap t) =
      (wordsOf (cutLine word gap t)).modifyHead (lead.reverse ++ ·) := by
  have hhead : ∀ word : Text, (word ++ lead).head?.any isWordChar = word.head?.any isWordChar := by
    intro word
    cases word with
    | cons c word => rfl
    | nil =>
        cases lead with
        | nil => rfl
        | cons c lead => simpa using hlead c rfl
  fun_induction cutLine word gap t with
  | case1 word gap => simp [cutLine, wordsOf]
  | case2 word gap c t hempty hc ih =>
      rw [cutLine, if_pos hempty, hhead, if_pos hc]
      exact ih
  | case3 word gap c t hempty hc ih =>
      rw [cutLine, if_pos hempty, hhead, if_neg hc]
      exact ih
  | case4 word gap c t hempty hc ih =>
      rw [cutLine, if_neg hempty, if_pos hc]
      exact ih
  | case5 word gap c t hempty hc hwordChar ih =>
      rw [cutLine, if_neg hempty, if_neg hc, if_pos hwordChar, wordsOf_word, wordsOf_word, wordsOf_space]
      simp
  | case6 word gap c t hempty hc hwordChar ih =>
      rw [cutLine, if_neg hempty, if_neg hc, if_neg hwordChar, ← List.append_assoc]
      exact ih

/-- The indentation of a line belongs to its first word. -/
theorem lineWords_indentation (page : Page) (depth : Nat) (l : Text) :
    Text.lineWords (page.indentation depth ++ l) =
      l.lineWords.modifyHead (page.indentation depth ++ ·) := by
  have hblank : ∀ c ∈ page.indentation depth, isGap c = true := by
    intro c hc
    have hpadding : isPadding c = true := isPadding_indentation page depth hc
    rw [isGap, ← isPadding, hpadding, Bool.true_or]
  have hindentation := @cutLine_blanks_word [] _ hblank rfl l
  have happend := @wordsOf_cutLine_append (page.indentation depth).reverse
    (fun c hc => isWordChar_of_isGap (hblank c (List.mem_reverse.1 (List.mem_of_head? hc)))) [] [] l
  rw [List.append_nil] at hindentation
  rw [List.nil_append, List.reverse_reverse] at happend
  rw [Text.lineWords, hindentation, happend]
  rfl

/-! ### Wrapping words -/

/-- The lines that words take up. The first line starts at a column, the others behind the indentation. -/
def wrapWords (page : Page) (depth : Nat) (column : Int) : List Text → List Text
  | [] => []
  | [w] => [w]
  | w :: n :: ws =>
      if w.width + 1 + n.width ≤ page.width - column then
        (wrapWords page depth (column + w.width + 1) (n :: ws)).modifyHead (w ++ ' ' :: ·)
      else
        w :: (wrapWords page depth (page.ruler.start depth) (n :: ws)).modifyHead
          (page.indentation depth ++ ·)

/-- How wide words are on one line. -/
def wordsWidth : List Text → Nat
  | [] => 0
  | [w] => w.width
  | w :: n :: ws => w.width + 1 + wordsWidth (n :: ws)

theorem wordsWidth_cons (w : Text) (ws : List Text) : w.width ≤ wordsWidth (w :: ws) := by
  cases ws with
  | nil => exact Nat.le_refl _
  | cons n ws =>
      rw [wordsWidth]
      omega

section Wrapping

variable {page : Page} {depth : Nat}

theorem exists_wrapWords (column : Int) (w : Text) (ws : List Text) :
    ∃ s ls, wrapWords page depth column (w :: ws) = (w ++ s) :: ls := by
  induction ws generalizing column w with
  | nil => exact ⟨[], [], by simp [wrapWords]⟩
  | cons n ws ih =>
      rw [wrapWords]
      split
      · obtain ⟨s, ls, h⟩ := ih (column + w.width + 1) n
        exact ⟨' ' :: (n ++ s), ls, by rw [h]; rfl⟩
      · exact ⟨[], _, by rw [List.append_nil]⟩

theorem hasNewline_wrapWords {column : Int} {ws : List Text} (h : ∀ w ∈ ws, w.hasNewline = false) :
    ∀ l ∈ wrapWords page depth column ws, l.hasNewline = false := by
  have hhead : ∀ {ls : List Text} {s : Text}, s.hasNewline = false → (∀ l ∈ ls, l.hasNewline = false) →
      ∀ l ∈ ls.modifyHead (s ++ ·), l.hasNewline = false := by
    intro ls s hs hls
    cases ls with
    | nil => exact hls
    | cons l ls =>
        obtain ⟨hl, hls⟩ := List.forall_mem_cons.1 hls
        exact List.forall_mem_cons.2 ⟨by rw [Text.hasNewline_append, hs, hl]; rfl, hls⟩
  fun_induction wrapWords page depth column ws with
  | case1 => exact h
  | case2 => exact h
  | case3 column w n ws _ ih =>
      obtain ⟨hw, hrest⟩ := List.forall_mem_cons.1 h
      have hspace : Text.hasNewline (w ++ [' ']) = false := by rw [Text.hasNewline_append, hw]; rfl
      simpa using hhead hspace (ih hrest)
  | case4 column w n ws _ ih =>
      obtain ⟨hw, hrest⟩ := List.forall_mem_cons.1 h
      exact List.forall_mem_cons.2 ⟨hw, hhead (hasNewline_indentation page depth) (ih hrest)⟩

/-- Lines that start further right have as much room as lines with that much more in front. -/
theorem wrapWords_modifyHead (s : Text) (column : Int) (ws : List Text) :
    wrapWords page depth column (ws.modifyHead (s ++ ·)) =
      (wrapWords page depth (column + s.width) ws).modifyHead (s ++ ·) := by
  cases ws with
  | nil => rfl
  | cons w ws =>
      cases ws with
      | nil => rfl
      | cons n ws =>
          have hwidth : (Text.width (s ++ w) : Int) = s.width + w.width := by
            rw [Text.width_append, Int.natCast_add]
          rw [List.modifyHead_cons, wrapWords, wrapWords]
          have hiff : ((Text.width (s ++ w) : Int) + 1 + n.width ≤ page.width - column) =
              ((w.width : Int) + 1 + n.width ≤ page.width - (column + s.width)) := by
            rw [hwidth]
            exact propext ⟨fun h => by omega, fun h => by omega⟩
          have hcolumn : column + (Text.width (s ++ w) : Int) + 1 = column + s.width + w.width + 1 := by
            omega
          simp only [hiff, hcolumn]
          split
          · rw [List.modifyHead_modifyHead]
            congr 1
            funext l
            simp
          · rfl

/-- Words that fit on one line. -/
theorem wrapWords_of_fits {column : Int} {w : Text} {ws : List Text}
    (h : wordsWidth (w :: ws) ≤ page.width - column) :
    ∃ l, wrapWords page depth column (w :: ws) = [l] ∧ l.width = wordsWidth (w :: ws) := by
  induction ws generalizing column w with
  | nil => exact ⟨w, rfl, rfl⟩
  | cons n ws ih =>
      have hwidth := wordsWidth_cons n ws
      rw [wordsWidth] at h
      obtain ⟨l, hwrap, hl⟩ := @ih (column + w.width + 1) n (by omega)
      refine ⟨w ++ ' ' :: l, ?_, ?_⟩
      · rw [wrapWords, if_pos (by omega), hwrap]
        rfl
      · have hspace : Text.width [' '] = 1 := rfl
        rw [← List.singleton_append, Text.width_append, Text.width_append, hl, hspace, wordsWidth]
        omega

/-- What is wrapped to one line has the same words again. -/
theorem Wordy.lineWords_of_single {ws : List Text} (h : Wordy ws) {column : Int} {l : Text}
    (hwrap : wrapWords page depth column ws = [l]) : l.lineWords = ws := by
  induction h generalizing column l with
  | last h =>
      obtain rfl : _ = l := by simpa [wrapWords] using hwrap
      exact h
  | @cons w c d n ws hreads hend hc hd hrest ih =>
      rw [wrapWords] at hwrap
      obtain ⟨s, ls, hls⟩ := @exists_wrapWords page depth (column + w.width + 1) (d :: n) ws
      obtain ⟨s', ls', hls'⟩ := @exists_wrapWords page depth (page.ruler.start depth) (d :: n) ws
      split at hwrap
      · rw [hls] at hwrap
        obtain ⟨rfl, rfl⟩ : w ++ ' ' :: (d :: n ++ s) = l ∧ ls = [] := by simpa using hwrap
        rw [List.cons_append, hreads.lineWords_append hend hc hd, ← List.cons_append, ih hls]
      · rw [hls'] at hwrap
        simp at hwrap

/-- Wrapped lines stay as they are: the first where it starts, the others at the start of a line. -/
theorem Wordy.wrapWords_again (heven : page.Even) {w : Text} {ws : List Text} (h : Wordy (w :: ws))
    (column : Int) :
    ∃ s ls, wrapWords page depth column (w :: ws) = (w ++ s) :: ls ∧
      (Text.lineWords (w ++ s)).head? = some w ∧
      wrapWords page depth column (Text.lineWords (w ++ s)) = [w ++ s] ∧
      ∀ l ∈ ls, wrapWords page depth 0 l.lineWords = [l] := by
  generalize hws : w :: ws = words at h
  induction h generalizing column w ws with
  | @last w' h =>
      obtain ⟨rfl, rfl⟩ : w = w' ∧ ws = [] := by simpa using hws
      refine ⟨[], [], ?_, ?_, ?_, by simp⟩
      · rw [wrapWords, List.append_nil]
      · rw [List.append_nil, h]
        rfl
      · rw [List.append_nil, h, wrapWords]
  | @cons w' c d n ws' hreads hend hc hd hrest ih =>
      obtain ⟨rfl, rfl⟩ : w = w' ∧ ws = (d :: n) :: ws' := by simpa using hws
      rw [wrapWords]
      split
      · -- the next word shares the line
        next hfits =>
          obtain ⟨s, ls, hwrap, hhead, hagain, hrest'⟩ := ih (column + w.width + 1) rfl
          have hwords : Text.lineWords (w ++ ' ' :: (d :: n ++ s)) = w :: Text.lineWords (d :: n ++ s) :=
            hreads.lineWords_append hend hc hd _
          obtain ⟨rest, hrest''⟩ := List.head?_eq_some_iff.1 hhead
          refine ⟨' ' :: (d :: n ++ s), ls, by rw [hwrap]; rfl, by rw [hwords]; rfl, ?_, hrest'⟩
          rw [hrest''] at hagain
          rw [hwords, hrest'', wrapWords, if_pos hfits, hagain]
          rfl
      · -- the next word starts a line
        next hfits =>
          obtain ⟨s, ls, hwrap, -, hagain, hrest'⟩ := ih (page.ruler.start depth) rfl
          refine ⟨[], (page.indentation depth ++ (d :: n ++ s)) :: ls, ?_, ?_, ?_, ?_⟩
          · rw [hwrap, List.append_nil]
            rfl
          · rw [List.append_nil, hreads.lineWords]
            rfl
          · rw [List.append_nil, hreads.lineWords, wrapWords]
          · refine List.forall_mem_cons.2 ⟨?_, hrest'⟩
            rw [lineWords_indentation, wrapWords_modifyHead, heven.width_indentation, Int.zero_add, hagain]
            rfl

/-! ### Fills of words -/

/-- Whether two words share a line. -/
theorem reach_pair (w n : Text) (width : Int) :
    Doc.reachAll true .flat [.text w, .spaceLine, .text n] .clear width =
      decide ((w.width : Int) + 1 + n.width ≤ width) := by
  simp only [Doc.reachAll, Doc.reach, Doc.spaceLine, reduceCtorEq, decide_false, Bool.or_false,
    Bool.false_eq_true, if_false, Ahead.clear, decide_eq_decide]
  omega

theorem intercalate_cons (l : Text) (ls : List Text) :
    ['\n'].intercalate (l :: ls) = l ++ ls.flatMap ('\n' :: ·) := by
  induction ls generalizing l with
  | nil => simp
  | cons next ls ih => simp [List.intercalate_cons_cons, ih]

theorem intercalate_modifyHead (s : Text) (l : Text) (ls : List Text) :
    ['\n'].intercalate ((l :: ls).modifyHead (s ++ ·)) = s ++ ['\n'].intercalate (l :: ls) := by
  rw [List.modifyHead_cons, intercalate_cons, intercalate_cons, List.append_assoc]

theorem intercalate_append (l l' : Text) (ls ls' : List Text) :
    ['\n'].intercalate (l :: ls ++ l' :: ls') =
      ['\n'].intercalate (l :: ls) ++ '\n' :: ['\n'].intercalate (l' :: ls') := by
  simp [intercalate_cons]

theorem column_write_space {w : Text} (hw : w.hasNewline = false) (p : Printed Text Int) :
    ((p.write w).write [' ']).column = p.column + w.width + 1 := by
  rw [write_write, write_text, Text.hasNewline_append, hw, Text.width_append]
  simp [Text.hasNewline, Text.width, Width.ofChar, Int.add_assoc]

/-- The next word shares the line if both words fit, and else it starts a line. -/
theorem runFill_words {w : Text} (hsolid : w.Solid) (n : Text) (parts : List Doc) (mode : Mode) (k : Ahead)
    (p : Printed Text Int) :
    Doc.runFill page depth mode (.text w :: .spaceLine :: .text n :: parts) k p =
      Doc.runFill page depth mode (.text n :: parts) k
        (if (w.width : Int) + 1 + n.width ≤ page.width - p.column then (p.write w).write [' ']
          else (p.write w).newLine page depth) := by
  rw [Doc.runFill, reach_pair, Doc.run_text, Doc.spaceLine, run_line (solid_write p hsolid)]
  by_cases hfits : (w.width : Int) + 1 + n.width ≤ page.width - p.column
  · rw [if_pos hfits, decide_eq_true hfits]
    rfl
  · rw [if_neg hfits, decide_eq_false hfits]
    rfl

theorem exists_wordDocs (w : Text) (ws : List Text) : ∃ parts, wordDocs (w :: ws) = .text w :: parts := by
  cases ws with
  | nil => exact ⟨[], rfl⟩
  | cons n ws => exact ⟨_, wordDocs_cons_cons ..⟩

/-- On an even page a fill of words writes the lines that they are wrapped to. -/
theorem Wordy.runFill (heven : page.Even) {ws : List Text} (h : Wordy ws)
    (hline : ∀ w ∈ ws, w.hasNewline = false) (mode : Mode) (k : Ahead) (p : Printed Text Int) :
    Doc.runFill page depth mode (wordDocs ws) k p =
      p.write (['\n'].intercalate (wrapWords page depth p.column ws)) := by
  induction h generalizing p with
  | @last w h =>
      rw [wrapWords, List.intercalate_singleton]
      exact Doc.run_text w
  | @cons w c d n ws hreads hend hc hd hrest ih =>
      obtain ⟨hw, hlineRest⟩ := List.forall_mem_cons.1 hline
      obtain ⟨parts, hparts⟩ := exists_wordDocs (d :: n) ws
      rw [hparts] at ih
      rw [wordDocs_cons_cons, hparts, runFill_words ⟨c, hend, isPadding_of_isWordChar hc⟩, ih hlineRest, wrapWords]
      split
      · obtain ⟨s, ls, hwrap⟩ := @exists_wrapWords page depth (p.column + w.width + 1) (d :: n) ws
        have hintercalate := intercalate_modifyHead (w ++ [' ']) (d :: n ++ s) ls
        simp only [List.append_assoc, List.singleton_append] at hintercalate
        rw [column_write_space hw, hwrap, hintercalate, write_write, write_write]
        simp
      · have hcolumn : ((p.write w).newLine page depth).column = page.ruler.start depth := rfl
        obtain ⟨s, ls, hwrap⟩ := @exists_wrapWords page depth (page.ruler.start depth) (d :: n) ws
        have hintercalate := intercalate_modifyHead (page.indentation depth) (d :: n ++ s) ls
        rw [List.modifyHead_cons] at hintercalate
        rw [hcolumn, hwrap, List.modifyHead_cons, List.intercalate_cons_cons, hintercalate, heven.newLine_eq,
          write_write, write_write]
        simp [newLineText]

/-- On any page, words that fit are written on one line. -/
theorem runFill_of_fits {ws : List Text} (hline : ∀ w ∈ ws, w.hasNewline = false) {p : Printed Text Int}
    (hfits : wordsWidth ws ≤ page.width - p.column) (mode : Mode) (k : Ahead) :
    ∃ l, Doc.runFill page depth mode (wordDocs ws) k p = p.write l ∧ l.hasNewline = false ∧
      l.width = wordsWidth ws := by
  induction ws generalizing p with
  | nil => exact ⟨[], (write_nil p).symm, rfl, rfl⟩
  | cons w ws ih =>
      obtain ⟨hw, hrest⟩ := List.forall_mem_cons.1 hline
      cases ws with
      | nil => exact ⟨w, Doc.run_text w, hw, rfl⟩
      | cons n ws =>
          have hcolumn := column_write_space hw p
          have hnext := wordsWidth_cons n ws
          obtain ⟨parts, hparts⟩ := exists_wordDocs n ws
          rw [wordsWidth] at hfits
          obtain ⟨l, hrun, hnewline, hwidth⟩ := @ih hrest ((p.write w).write [' ']) (by rw [hcolumn]; omega)
          refine ⟨w ++ ([' '] ++ l), ?_, ?_, ?_⟩
          · rw [hparts] at hrun
            rw [wordDocs_cons_cons, hparts, Doc.runFill, reach_pair, decide_eq_true (by omega), Doc.run_text]
            simp only [Doc.fillMode, if_true, Doc.spaceLine, Doc.run, writeFlatLine_eq]
            exact hrun.trans (by rw [write_write, write_write])
          · rw [Text.hasNewline_append, Text.hasNewline_append, hw, hnewline]
            rfl
          · have hspace : Text.width [' '] = 1 := rfl
            rw [Text.width_append, Text.width_append, hspace, hwidth, wordsWidth]
            omega

/-! ### Lines of text -/

/-- The lines that lines of text take up. The first one starts at a column. -/
def wrapLines (page : Page) (depth : Nat) (column : Int) : List Text → List Text
  | [] => []
  | l :: ls => wrapWords page depth column l.lineWords ++ wrapLines page depth 0 ls

/-- Running text as it is printed from a column on. -/
def wrapText (page : Page) (depth : Nat) (column : Int) (t : Text) : Text :=
  ['\n'].intercalate (wrapLines page depth column t.lines)

theorem exists_lineWords (l : Text) : ∃ w ws, l.lineWords = w :: ws := by
  obtain ⟨s, rest, h⟩ := wordsOf_cutLine [] [] l
  exact ⟨_, rest, h⟩

/-- Lines that are as they would be wrapped. -/
theorem wrapLines_append {ls : List Text} (h : ∀ l ∈ ls, wrapWords page depth 0 l.lineWords = [l])
    (rest : List Text) : wrapLines page depth 0 (ls ++ rest) = ls ++ wrapLines page depth 0 rest := by
  induction ls with
  | nil => rfl
  | cons l ls ih =>
      rw [List.cons_append, wrapLines, h l (by simp), ih fun l' hl' => h l' (by simp [hl'])]
      rfl

theorem wrapLines_wrapLines (heven : page.Even) (column : Int) (ls : List Text) :
    wrapLines page depth column (wrapLines page depth column ls) = wrapLines page depth column ls := by
  induction ls generalizing column with
  | nil => rfl
  | cons l ls ih =>
      obtain ⟨w, ws, hwords⟩ := exists_lineWords l
      obtain ⟨s, ls', hwrap, -, hfirst, hrest⟩ := (hwords ▸ wordy_lineWords l).wrapWords_again heven column
      rw [wrapLines, hwords, hwrap, List.cons_append, wrapLines, hfirst, wrapLines_append hrest, ih 0]
      rfl

theorem hasNewline_lineWords {l : Text} (h : l.hasNewline = false) :
    ∀ w ∈ l.lineWords, w.hasNewline = false := by
  intro w hw
  obtain ⟨s, hs, hword⟩ := List.mem_filterMap.1 hw
  split at hword
  · obtain rfl : s.value = w := Option.some.inj hword
    have hmem := Text.not_mem_of_hasNewline h
    rw [Text.hasNewline, ← Bool.not_eq_true, List.contains_iff_mem]
    exact fun hnewline => hmem (by simpa using mem_of_mem_cutLine hs hnewline)
  · cases hword

theorem hasNewline_wrapLines {ls : List Text} (h : ∀ l ∈ ls, l.hasNewline = false) (column : Int) :
    ∀ l ∈ wrapLines page depth column ls, l.hasNewline = false := by
  induction ls generalizing column with
  | nil => exact h
  | cons l ls ih =>
      obtain ⟨hl, hls⟩ := List.forall_mem_cons.1 h
      exact List.forall_mem_append.2 ⟨hasNewline_wrapWords (hasNewline_lineWords hl), ih hls 0⟩

theorem exists_wrapLines (column : Int) (l : Text) (ls : List Text) :
    ∃ l' ls', wrapLines page depth column (l :: ls) = l' :: ls' ∧
      (ls' = [] → ls = [] ∧ wrapWords page depth column l.lineWords = [l']) := by
  obtain ⟨w, ws, hwords⟩ := exists_lineWords l
  obtain ⟨s, rest, hwrap⟩ := @exists_wrapWords page depth column w ws
  refine ⟨w ++ s, rest ++ wrapLines page depth 0 ls, by rw [wrapLines, hwords, hwrap]; rfl, fun h => ?_⟩
  obtain ⟨hrest, hls⟩ := List.append_eq_nil_iff.1 h
  refine ⟨?_, by rw [hwords, hwrap, hrest]⟩
  cases ls with
  | nil => rfl
  | cons l' ls =>
      obtain ⟨w', ws', hwords'⟩ := exists_lineWords l'
      obtain ⟨s', rest', hwrap'⟩ := @exists_wrapWords page depth 0 w' ws'
      rw [wrapLines, hwords', hwrap'] at hls
      simp at hls

theorem lines_wrapText (column : Int) (t : Text) :
    (wrapText page depth column t).lines = wrapLines page depth column t.lines := by
  refine Text.lines_intercalate ?_ (hasNewline_wrapLines (fun l hl => Text.hasNewline_of_mem_lines hl) column)
  obtain ⟨l, ls, hlines⟩ := Text.exists_lines t
  obtain ⟨l', ls', hwrap, -⟩ := @exists_wrapLines page depth column l ls
  rw [hlines, hwrap]
  exact List.cons_ne_nil _ _

/-- On an even page, wrapping a wrapped text changes nothing. -/
theorem wrapText_wrapText (heven : page.Even) (column : Int) (t : Text) :
    wrapText page depth column (wrapText page depth column t) = wrapText page depth column t := by
  rw [wrapText, lines_wrapText, wrapLines_wrapLines heven, ← wrapText]

/-! ### Printing text -/

theorem runAll_wrapLines (heven : page.Even) {ls : List Text} (hls : ∀ l ∈ ls, l.hasNewline = false) (mode : Mode)
    (k : Ahead) (p : Printed Text Int) :
    Doc.runAll page depth mode (Doc.join .literalLine (ls.map lineFill)) k p =
      p.write (['\n'].intercalate (wrapLines page depth p.column ls)) := by
  induction ls generalizing p with
  | nil => exact (write_nil p).symm
  | cons l ls ih =>
      obtain ⟨hl, hls⟩ := List.forall_mem_cons.1 hls
      have hline : ∀ k, (lineFill l).run page depth mode k p =
          p.write (['\n'].intercalate (wrapWords page depth p.column l.lineWords)) := by
        intro k
        rw [lineFill_eq, Doc.run, (wordy_lineWords l).runFill heven (hasNewline_lineWords hl)]
      cases ls with
      | nil =>
          simp only [Doc.join, List.map_cons, List.map_nil, List.intersperse, Doc.runAll, hline, wrapLines,
            List.append_nil]
      | cons l' ls =>
          obtain ⟨w, ws, hwords⟩ := exists_lineWords l
          obtain ⟨s, rest, hwrap⟩ := @exists_wrapWords page depth p.column w ws
          obtain ⟨l'', ls'', hwrapLines, -⟩ := @exists_wrapLines page depth 0 l' ls
          have hcolumn : ∀ q : Printed Text Int, (q.write ['\n']).column = 0 := fun _ => rfl
          obtain ⟨k', hrun⟩ := @runAll_lineFills page depth l l' ls mode k p
          rw [hrun, hline, ih hls, hcolumn, wrapLines.eq_2 page depth p.column, hwrapLines, hwords, hwrap,
            intercalate_append, write_write, write_write, List.singleton_append]

/-- On an even page running text is printed as it is wrapped, in any mode and whatever follows. -/
theorem run_textDoc_eq (heven : page.Even) (image : Text) (mode : Mode) (k : Ahead) (p : Printed Text Int) :
    (Spelled.textDoc image).run page depth mode k p = p.write (wrapText page depth p.column image.trim) := by
  rw [Spelled.textDoc, segmentsLayout_eq, Doc.grouped, Doc.run, Doc.run,
    runAll_wrapLines heven fun l hl => Text.hasNewline_of_mem_lines hl]
  rfl

/-! ### The room of text -/

/-- How wide running text is on one line, unless it has several. -/
def textRoom (image : Text) : Option Nat :=
  match image.trim.lines with
  | [l] => some (wordsWidth l.lineWords)
  | _ => none

theorem textDoc_eq (image : Text) :
    Spelled.textDoc image =
      .grouped (.concat (Doc.join .literalLine ((image.trim.lines.map Text.lineWords).map fun ws =>
        .fill (wordDocs ws)))) := by
  rw [Spelled.textDoc, segmentsLayout_eq, List.map_map]
  congr 4
  funext l
  exact lineFill_eq l

theorem forces_wordDocs (ws : List Text) : (wordDocs ws).any Doc.forces = false := by
  induction ws with
  | nil => rfl
  | cons w ws ih =>
      cases ws with
      | nil => rfl
      | cons n ws =>
          rw [wordDocs_cons_cons, List.any_cons, List.any_cons, ih]
          rfl

theorem reachAll_wordDocs (must : Bool) (ws : List Text) (k : Ahead) :
    Doc.reachAll must .flat (wordDocs ws) k = fun width => k (width - wordsWidth ws) := by
  induction ws with
  | nil => funext width; simp [wordDocs, Doc.join, Doc.reachAll, wordsWidth]
  | cons w ws ih =>
      cases ws with
      | nil => rfl
      | cons n ws =>
          rw [wordDocs_cons_cons, Doc.reachAll, Doc.reachAll, ih, wordsWidth]
          funext width
          simp only [Doc.reach, Doc.spaceLine, reduceCtorEq, decide_false, Bool.or_false, Bool.false_eq_true,
            if_false]
          congr 1
          omega

section Room

variable {image : Text}

theorem exists_of_textRoom {n : Nat} (h : textRoom image = some n) :
    ∃ l, image.trim.lines = [l] ∧ wordsWidth l.lineWords = n ∧
      Spelled.textDoc image = .grouped (.concat [.fill (wordDocs l.lineWords)]) := by
  rw [textRoom] at h
  split at h
  · next l hlines => exact ⟨l, hlines, Option.some.inj h, by rw [textDoc_eq, hlines]; rfl⟩
  · cases h

theorem reach_textDoc {n : Nat} (h : textRoom image = some n) (must : Bool) (k : Ahead) :
    (Spelled.textDoc image).reach must .flat k = fun width => k (width - n) := by
  obtain ⟨l, -, hwidth, hdoc⟩ := exists_of_textRoom h
  have hforces : (Doc.concat [.fill (wordDocs l.lineWords)]).forces = false := by
    rw [Doc.forces_concat, List.any_cons, Doc.forces_fill, forces_wordDocs]
    rfl
  rw [hdoc, Doc.grouped, Doc.reach, hforces, ← hwidth, ← reachAll_wordDocs must]
  rfl

/-- On any page, running text that fits is written on one line. -/
theorem run_textDoc_of_fits {n : Nat} (h : textRoom image = some n) {p : Printed Text Int}
    (hfits : n ≤ page.width - p.column) (mode : Mode) (k : Ahead) :
    ∃ l, (Spelled.textDoc image).run page depth mode k p = p.write l ∧ l.hasNewline = false ∧ l.width = n := by
  obtain ⟨l, hlines, hwidth, hdoc⟩ := exists_of_textRoom h
  have hline : l.hasNewline = false := Text.hasNewline_of_mem_lines (by rw [hlines]; simp)
  subst hwidth
  rw [hdoc, Doc.grouped, Doc.run, Doc.run, Doc.runAll, Doc.runAll, Doc.run]
  exact runFill_of_fits (hasNewline_lineWords hline) hfits _ _

theorem forces_textDoc (image : Text) : (Spelled.textDoc image).forces = (textRoom image).isNone := by
  cases hroom : textRoom image with
  | some n =>
      obtain ⟨l, -, -, hdoc⟩ := exists_of_textRoom hroom
      rw [hdoc, Doc.grouped, Doc.forces_group, Doc.forces_concat, List.any_cons, Doc.forces_fill, forces_wordDocs]
      rfl
  | none =>
      obtain ⟨l, ls, hlines⟩ := Text.exists_lines image.trim
      cases ls with
      | nil => simp [textRoom, hlines] at hroom
      | cons l' ls =>
          rw [textDoc_eq, hlines]
          simp [Doc.grouped, Doc.join, Doc.literalLine]

theorem reach_textDoc_none (h : textRoom image = none) (k : Ahead) :
    (Spelled.textDoc image).reach true .flat k = fun _ => false := by
  have hforces := forces_textDoc image
  rw [h, textDoc_eq, Doc.grouped, Doc.forces_group] at hforces
  rw [textDoc_eq, Doc.grouped, Doc.reach, hforces]
  rfl

end Room

/-! ### Printing text again -/

section Again

variable {image image' : Text} {mode : Mode} {k : Ahead} {p : Printed Text Int}

theorem eq_wrapText (heven : page.Even)
    (hwrote : Wrote p image' ((Spelled.textDoc image).run page depth mode k p)) :
    image' = wrapText page depth p.column image.trim := by
  rw [run_textDoc_eq heven] at hwrote
  have hreversed := List.append_cancel_right (hwrote.symm.trans (wrote_write p _))
  exact List.reverse_injective hreversed

/-- Text that was wrapped to one line has the layout that it had; other text is forced to break. -/
theorem textDoc_again (htrim : image'.trim = image') {column : Int}
    (h : image' = wrapText page depth column image.trim) :
    textRoom image' = none ∨
      (textRoom image' = textRoom image ∧ Spelled.textDoc image' = Spelled.textDoc image) := by
  obtain ⟨l, ls, hlines⟩ := Text.exists_lines image.trim
  obtain ⟨l', ls', hwrap, hsingle⟩ := @exists_wrapLines page depth column l ls
  have hlines' : image'.trim.lines = l' :: ls' := by
    rw [htrim, h, lines_wrapText, hlines, hwrap]
  cases ls' with
  | cons next ls' => exact .inl (by rw [textRoom, hlines'])
  | nil =>
      obtain ⟨rfl, hwords⟩ := hsingle rfl
      have hsame : l'.lineWords = l.lineWords := (wordy_lineWords l).lineWords_of_single hwords
      refine .inr ⟨?_, ?_⟩
      · rw [textRoom, textRoom, hlines, hlines']
        exact congrArg (fun ws => some (wordsWidth ws)) hsame
      · rw [textDoc_eq, textDoc_eq, hlines, hlines']
        exact congrArg (fun ws => Doc.grouped (.concat [.fill (wordDocs ws)])) hsame

/-- Text that fits stays on its line. -/
theorem textDoc_fits (htrim : image'.trim = image') {n : Nat} (hroom : textRoom image = some n)
    (hfits : n ≤ page.width - p.column) (h : image' = wrapText page depth p.column image.trim) :
    (textRoom image' = some n ∧ Spelled.textDoc image' = Spelled.textDoc image) ∧
      (p.write image').column = p.column + n := by
  obtain ⟨l, hlines, hwidth, -⟩ := exists_of_textRoom hroom
  obtain ⟨w, ws, hwords⟩ := exists_lineWords l
  rw [hwords] at hwidth
  obtain ⟨l', hwrap, hl'⟩ := @wrapWords_of_fits page depth p.column w ws (by omega)
  have himage : image' = l' := by
    rw [h, wrapText, hlines, wrapLines, hwords, hwrap]
    simp [wrapLines]
  have hlines' : image'.trim.lines = [l'] := by
    rw [htrim, h, lines_wrapText, hlines, wrapLines, hwords, hwrap]
    rfl
  have hnewline : l'.hasNewline = false :=
    Text.hasNewline_of_mem_lines (by rw [hlines']; simp)
  refine ⟨?_, ?_⟩
  · rcases textDoc_again htrim h with hnone | hsame
    · rw [textRoom, hlines'] at hnone
      cases hnone
    · rwa [hroom] at hsame
  · rw [himage, write_text, hnewline, hl', hwidth]
    rfl

end Again

end Wrapping

end XmlTidy
