import XmlTidy.Proofs.TextWrapping

/-!
Where running text is cut. The segments of a text put together again are the text. Newlines are segments of their
own, and between them each line is words with spaces in between. A place between two word characters that only blanks
keep apart is where a space is cut out, all of the blanks and nothing else, and no space is cut out anywhere else. Both
kinds of cut rest on one equation: a text that is divided at such a place is cut into the segments of what stands
before it, the divider, and the segments of what stands behind it.
-/

namespace XmlTidy

/-- Blanks between what ends with a word character and what starts with one. A word character is no blank, so there are
no further blanks on either side. -/
structure Breakable (before gap behind : Text) : Prop where
  gap_ne_nil : gap ≠ []
  blank : ∀ c ∈ gap, isGap c = true
  before_word : ∃ c ∈ before.getLast?, isWordChar c = true
  behind_word : ∃ c ∈ behind.head?, isWordChar c = true

namespace Breakable

variable {before gap behind : Text}

theorem append_left (h : Breakable before gap behind) (t : Text) : Breakable (t ++ before) gap behind := by
  obtain ⟨c, hc, hword⟩ := h.before_word
  exact ⟨h.gap_ne_nil, h.blank, ⟨c, List.mem_getLast?_append_of_mem_getLast? hc, hword⟩, h.behind_word⟩

theorem append_right (h : Breakable before gap behind) (t : Text) : Breakable before gap (behind ++ t) := by
  obtain ⟨c, hc, hword⟩ := h.behind_word
  exact ⟨h.gap_ne_nil, h.blank, h.before_word, c, List.mem_head?_append_of_mem_head? hc, hword⟩

end Breakable

/-! ### Places of segments -/

namespace Segment

/-- The text that segments make up. -/
def text (segments : List Segment) : Text := segments.flatMap Segment.value

theorem text_append (front rest : List Segment) : text (front ++ rest) = text front ++ text rest :=
  List.flatMap_append

theorem text_cons (s : Segment) (rest : List Segment) : text (s :: rest) = s.value ++ text rest := rfl

/-- A segment among others, with the texts that those before it and those behind it make up. -/
def Stands (segments : List Segment) (before : Text) (s : Segment) (behind : Text) : Prop :=
  ∃ front rest, segments = front ++ s :: rest ∧ text front = before ∧ text rest = behind

variable {segments : List Segment} {before behind : Text} {s : Segment}

theorem Stands.text_eq (h : Stands segments before s behind) : text segments = before ++ s.value ++ behind := by
  obtain ⟨front, rest, rfl, rfl, rfl⟩ := h
  rw [text_append, text_cons, List.append_assoc]

theorem Stands.mem (h : Stands segments before s behind) : s ∈ segments := by
  obtain ⟨front, rest, rfl, -, -⟩ := h
  simp

theorem stands_nil : ¬ Stands [] before s behind := by
  rintro ⟨front, rest, h, -⟩
  simp at h

theorem stands_cons_iff (x : Segment) : Stands (x :: segments) before s behind ↔
    (x = s ∧ before = [] ∧ behind = text segments) ∨
      ∃ before', before = x.value ++ before' ∧ Stands segments before' s behind := by
  constructor
  · rintro ⟨front, rest, h, rfl, rfl⟩
    cases front with
    | nil =>
        obtain ⟨rfl, rfl⟩ := List.cons.inj h
        exact .inl ⟨rfl, rfl, rfl⟩
    | cons y front =>
        obtain ⟨rfl, rfl⟩ := List.cons.inj h
        exact .inr ⟨text front, rfl, front, rest, rfl, rfl, rfl⟩
  · rintro (⟨rfl, rfl, rfl⟩ | ⟨before', rfl, front, rest, rfl, rfl, rfl⟩)
    · exact ⟨[], segments, rfl, rfl, rfl⟩
    · exact ⟨x :: front, rest, rfl, rfl, rfl⟩

theorem stands_append_iff (front : List Segment) : Stands (front ++ segments) before s behind ↔
    (∃ behind', behind = behind' ++ text segments ∧ Stands front before s behind') ∨
      ∃ before', before = text front ++ before' ∧ Stands segments before' s behind := by
  induction front generalizing before with
  | nil => simp [stands_nil, text]
  | cons x front ih =>
      simp only [List.cons_append, stands_cons_iff, ih, text_append, text_cons, List.append_assoc]
      constructor
      · rintro (⟨rfl, rfl, rfl⟩ | ⟨b, rfl, ⟨b', rfl, h⟩ | ⟨b', rfl, h⟩⟩)
        · exact .inl ⟨_, rfl, .inl ⟨rfl, rfl, rfl⟩⟩
        · exact .inl ⟨_, rfl, .inr ⟨_, rfl, h⟩⟩
        · exact .inr ⟨_, rfl, h⟩
      · rintro (⟨b, rfl, ⟨rfl, rfl, rfl⟩ | ⟨b', rfl, h⟩⟩ | ⟨b, rfl, h⟩)
        · exact .inl ⟨rfl, rfl, rfl⟩
        · exact .inr ⟨_, rfl, .inl ⟨_, rfl, h⟩⟩
        · exact .inr ⟨_, rfl, .inr ⟨_, rfl, h⟩⟩

end Segment

open Segment

/-! ### One line -/

/-- Words with spaces between them. -/
inductive Alternates : List Segment → Prop where
  | last (word : Text) : Alternates [⟨.word, word⟩]
  | cons (word gap : Text) {rest : List Segment} (h : Alternates rest) :
      Alternates (⟨.word, word⟩ :: ⟨.space, gap⟩ :: rest)

theorem alternates_cutLine (word gap t : Text) : Alternates (cutLine word gap t) := by
  fun_induction cutLine word gap t with
  | case1 word gap => exact .last _
  | case5 word gap c t _ _ _ ih => exact .cons _ _ ih
  | case2 => assumption
  | case3 => assumption
  | case4 => assumption
  | case6 => assumption

theorem text_cutLine (word gap t : Text) : text (cutLine word gap t) = word.reverse ++ gap.reverse ++ t := by
  fun_induction cutLine word gap t with
  | case1 word gap => simp [text]
  | case2 word gap c t hempty _ ih => simp [ih, List.isEmpty_iff.1 hempty]
  | case3 word gap c t hempty _ ih => simp [ih, List.isEmpty_iff.1 hempty]
  | case4 word gap c t _ _ ih => simp [ih]
  | case5 word gap c t _ _ _ ih => simp [text_cons, ih]
  | case6 word gap c t _ _ _ ih => simp [ih]

/-- A space is cut out between word characters only. The blanks in `gap` follow one. -/
theorem breakable_of_stands_cutLine {word gap t : Text} (hblank : ∀ c ∈ gap, isGap c = true)
    (hword : gap ≠ [] → ∃ c ∈ word.head?, isWordChar c = true) {before value behind : Text}
    (h : Stands (cutLine word gap t) before ⟨.space, value⟩ behind) : Breakable before value behind := by
  fun_induction cutLine word gap t generalizing before with
  | case1 word gap => simp [stands_cons_iff, stands_nil] at h
  | case2 word gap c t hempty hc ih =>
      rw [Bool.and_eq_true] at hc
      refine ih (by simpa using hc.1) (fun _ => ?_) h
      cases word with
      | nil => simp at hc
      | cons d word => exact ⟨d, rfl, by simpa using hc.2⟩
  | case3 word gap c t _ _ ih => exact ih (by simp) (by simp) h
  | case4 word gap c t hempty hc ih =>
      exact ih (List.forall_mem_cons.2 ⟨hc, hblank⟩) (fun _ => hword (by simpa using hempty)) h
  | case5 word gap c t hempty _ hwordChar ih =>
      have hne : gap ≠ [] := by simpa using hempty
      rcases (stands_cons_iff _).1 h with ⟨heq, -⟩ | ⟨before', rfl, hspace⟩
      · cases heq
      · rcases (stands_cons_iff _).1 hspace with ⟨heq, rfl, rfl⟩ | ⟨before'', rfl, hrest⟩
        · cases heq
          obtain ⟨d, hd, hdword⟩ := hword hne
          refine ⟨by simpa using hne, by simpa using hblank, ⟨d, ?_, hdword⟩, c, ?_, hwordChar⟩
          · simpa [List.getLast?_reverse] using hd
          · simp [text_cutLine]
        · rw [← List.append_assoc]
          exact (ih (by simp) (by simp) hrest).append_left _
  | case6 word gap c t _ _ _ ih => exact ih (by simp) (by simp) h

/-- A word that ends with a word character, blanks, and another word character. -/
theorem cutLine_gap {c : Char} (hc : isWordChar c = true) (word : Text) {gap : Text} (hne : gap ≠ [])
    (hblank : ∀ c ∈ gap, isGap c = true) {t : Text} (ht : ∃ d ∈ t.head?, isWordChar d = true) :
    cutLine (c :: word) [] (gap ++ t) =
      ⟨.word, (c :: word).reverse⟩ :: ⟨.space, gap⟩ :: cutLine [] [] t := by
  obtain ⟨first, gap, rfl⟩ := List.exists_cons_of_ne_nil hne
  obtain ⟨hfirst, hgap⟩ := List.forall_mem_cons.1 hblank
  have hhead : t.head?.any isWordChar = true := (Option.any_eq_true ..).2 ht
  have hheld : (isGap first && (c :: word).head?.any isWordChar) = true := by
    rw [hfirst, Bool.true_and]
    exact hc
  have hne' : gap.reverse ++ [first] ≠ [] := by simp
  rw [List.cons_append, cutLine, if_pos List.isEmpty_nil, if_pos hheld, cutLine_blanks hgap (List.cons_ne_nil first []),
    cutLine_space hne' hhead]
  simp

/-- A line with blanks between word characters is cut there. -/
theorem cutLine_breakable {before gap behind : Text} (h : Breakable before gap behind) (word taken : Text) :
    cutLine word taken (before ++ (gap ++ behind)) =
      cutLine word taken before ++ ⟨.space, gap⟩ :: cutLine [] [] behind := by
  induction before generalizing word taken with
  | nil => simpa using h.before_word
  | cons c before ih =>
      cases before with
      | nil =>
          -- the last character before the blanks is a word character, whatever was read before it
          have hc : isWordChar c = true := by simpa using h.before_word
          have hgap := fun word => cutLine_gap hc word h.gap_ne_nil h.blank h.behind_word
          rw [List.singleton_append, cutLine, cutLine]
          simp only [isGap_of_isWordChar hc, hc, Bool.false_and, Bool.false_eq_true, if_false, if_true]
          split
          · rw [hgap]
            simp [cutLine]
          · rw [hgap]
            simp [cutLine]
      | cons d before =>
          have hrest : Breakable (d :: before) gap behind := by
            obtain ⟨e, he, hword⟩ := h.before_word
            rw [List.getLast?_cons_cons] at he
            exact ⟨h.gap_ne_nil, h.blank, ⟨e, he, hword⟩, h.behind_word⟩
          rw [List.cons_append, cutLine, cutLine]
          split
          · split
            · exact ih hrest ..
            · exact ih hrest ..
          · split
            · exact ih hrest ..
            · split
              · rw [ih hrest]
                rfl
              · exact ih hrest ..

theorem Wordy.lineWords_of_mem {ws : List Text} (h : Wordy ws) {w : Text} (hw : w ∈ ws) : w.lineWords = [w] := by
  induction h with
  | last h =>
      obtain rfl := List.mem_singleton.1 hw
      exact h
  | cons hreads _ _ _ _ ih =>
      rcases List.mem_cons.1 hw with rfl | hw
      · exact hreads.lineWords
      · exact ih hw

/-- A word that was cut out of a line holds no place to cut. -/
theorem not_breakable_of_mem_cutLine {l w : Text} (hw : ⟨.word, w⟩ ∈ cutLine [] [] l) {before gap behind : Text}
    (heq : w = before ++ gap ++ behind) : ¬ Breakable before gap behind := by
  intro h
  have hmem : w ∈ l.lineWords := List.mem_filterMap.2 ⟨_, hw, rfl⟩
  have hself := (wordy_lineWords l).lineWords_of_mem hmem
  obtain ⟨s, ws, hbefore⟩ := wordsOf_cutLine [] [] before
  obtain ⟨s', ws', hbehind⟩ := wordsOf_cutLine [] [] behind
  rw [Text.lineWords, heq, List.append_assoc, cutLine_breakable h, wordsOf, List.filterMap_append, ← wordsOf,
    ← wordsOf, wordsOf_space, hbefore, hbehind] at hself
  simp at hself

/-! ### All lines -/

/-- The segment of a newline. -/
def Segment.newline : Segment := ⟨.newline, ['\n']⟩

theorem segments_line {l : Text} (h : l.hasNewline = false) : segments l = cutLine [] [] l := by
  rw [segments_eq, Text.lines_line h, List.map_singleton, List.intercalate_singleton]

theorem segments_line_append {l : Text} (h : l.hasNewline = false) (t : Text) :
    segments (l ++ '\n' :: t) = cutLine [] [] l ++ Segment.newline :: segments t := by
  obtain ⟨l', ls, hlines⟩ := Text.exists_lines t
  rw [segments_eq, Text.lines_append h, Text.lines_cons, if_pos rfl, List.modifyHead_cons, List.append_nil, segments_eq,
    hlines, List.map_cons, List.map_cons, List.intercalate_cons_cons, List.append_assoc]
  rfl

theorem text_segments (t : Text) : text (segments t) = t := by
  induction t using Text.line_induction with
  | last l hl =>
      rw [segments_line hl, text_cutLine]
      rfl
  | cons l t hl ih =>
      rw [segments_line_append hl, text_append, text_cons, text_cutLine, ih]
      rfl

/-- A text is cut at its newlines. -/
theorem segments_newline (before behind : Text) :
    segments (before ++ '\n' :: behind) = segments before ++ Segment.newline :: segments behind := by
  induction before using Text.line_induction with
  | last l hl => rw [segments_line_append hl, segments_line hl]
  | cons l t hl ih =>
      rw [List.append_assoc, List.cons_append, segments_line_append hl, ih, segments_line_append hl, List.append_assoc,
        List.cons_append]

namespace Breakable

variable {before gap behind : Text}

theorem hasNewline_gap (h : Breakable before gap behind) : gap.hasNewline = false := by
  rw [Text.hasNewline, ← Bool.not_eq_true, List.contains_iff_mem]
  exact fun hmem => absurd (h.blank _ hmem) (by decide)

/-- The word character before the blanks is on their line. -/
theorem of_line_before {l : Text} (h : Breakable (l ++ '\n' :: before) gap behind) : Breakable before gap behind := by
  obtain ⟨c, hc, hword⟩ := h.before_word
  cases before with
  | nil =>
      obtain rfl : '\n' = c := by simpa using hc
      exact absurd hword (by decide)
  | cons d before =>
      refine ⟨h.gap_ne_nil, h.blank, ⟨c, ?_, hword⟩, h.behind_word⟩
      simpa using hc

/-- The word character behind the blanks is on their line. -/
theorem of_line_behind {t : Text} (h : Breakable before gap (behind ++ '\n' :: t)) : Breakable before gap behind := by
  obtain ⟨c, hc, hword⟩ := h.behind_word
  cases behind with
  | nil =>
      obtain rfl : '\n' = c := by simpa using hc
      exact absurd hword (by decide)
  | cons d behind => exact ⟨h.gap_ne_nil, h.blank, h.before_word, c, hc, hword⟩

end Breakable

/-- A text is cut at blanks between word characters. -/
theorem segments_breakable {before gap behind : Text} (h : Breakable before gap behind) :
    segments (before ++ gap ++ behind) = segments before ++ ⟨.space, gap⟩ :: segments behind := by
  have hgap := h.hasNewline_gap
  induction before using Text.line_induction with
  | cons l t hl ih =>
      have hrest := ih h.of_line_before
      rw [segments_line_append hl, List.append_assoc, List.append_assoc, List.cons_append, segments_line_append hl,
        ← List.append_assoc, hrest, List.append_assoc, List.cons_append]
  | last l hl =>
      -- the blanks are on the last line before them, which goes on behind them
      have hline : ∀ m : Text, m.hasNewline = false → Text.hasNewline (l ++ gap ++ m) = false := by
        intro m hm
        rw [Text.hasNewline_append, Text.hasNewline_append, hl, hgap, hm]
        rfl
      induction behind using Text.line_induction with
      | last m hm =>
          rw [segments_line hl, segments_line hm, segments_line (hline m hm), List.append_assoc, cutLine_breakable h]
      | cons m t hm _ =>
          have hm' := hline m hm
          rw [segments_line hl, segments_line_append hm, ← List.append_assoc, segments_line_append hm',
            List.append_assoc l, cutLine_breakable h.of_line_behind, List.append_assoc, List.cons_append]

/-- A segment of a text is a newline or comes from a line. -/
theorem mem_segments {s : Segment} {t : Text} (h : s ∈ segments t) :
    s = Segment.newline ∨ ∃ l : Text, l.hasNewline = false ∧ s ∈ cutLine [] [] l := by
  induction t using Text.line_induction with
  | last l hl =>
      rw [segments_line hl] at h
      exact .inr ⟨l, hl, h⟩
  | cons l t hl ih =>
      rw [segments_line_append hl, List.mem_append, List.mem_cons] at h
      rcases h with h | rfl | h
      · exact .inr ⟨l, hl, h⟩
      · exact .inl rfl
      · exact ih h

/-- A space is cut out of a text between word characters only. -/
theorem breakable_of_stands {t before gap behind : Text} (h : Stands (segments t) before ⟨.space, gap⟩ behind) :
    Breakable before gap behind := by
  induction t using Text.line_induction generalizing before with
  | last l hl =>
      rw [segments_line hl] at h
      exact breakable_of_stands_cutLine (by simp) (by simp) h
  | cons l t hl ih =>
      simp only [segments_line_append hl, stands_append_iff, stands_cons_iff] at h
      rcases h with ⟨behind', rfl, h⟩ | ⟨before', rfl, ⟨heq, -⟩ | ⟨before'', rfl, h⟩⟩
      · exact (breakable_of_stands_cutLine (by simp) (by simp) h).append_right _
      · cases heq
      · exact ((ih h).append_left _).append_left _

/-- Cutting divides a text at its newlines and at the blanks between word characters. The segments make up the text.
The newlines among them are its newlines, and between those each line is words with spaces in between. The spaces are
the runs of blanks between two word characters, and no word holds such a run. -/
theorem segments_divide (t : Text) :
    text (segments t) = t ∧
      (∀ before value behind, Stands (segments t) before ⟨.newline, value⟩ behind ↔
        value = ['\n'] ∧ t = before ++ '\n' :: behind) ∧
      (∃ rows : List (List Segment), segments t = [Segment.newline].intercalate rows ∧ rows.map text = t.lines ∧
        ∀ row ∈ rows, Alternates row) ∧
      (∀ before gap behind, Stands (segments t) before ⟨.space, gap⟩ behind ↔
        t = before ++ gap ++ behind ∧ Breakable before gap behind) ∧
      ∀ word, ⟨.word, word⟩ ∈ segments t →
        '\n' ∉ word ∧ ∀ before gap behind, word = before ++ gap ++ behind → ¬ Breakable before gap behind := by
  have htext := text_segments t
  refine ⟨htext, fun before value behind => ⟨fun h => ?_, ?_⟩, ⟨t.lines.map (cutLine [] []), segments_eq t, ?_, ?_⟩,
    fun before gap behind => ⟨fun h => ⟨htext ▸ h.text_eq, breakable_of_stands h⟩, ?_⟩, fun word hword => ?_⟩
  · have hvalue : value = ['\n'] := by
      rcases mem_segments h.mem with heq | ⟨l, -, hl⟩
      · exact congrArg Segment.value heq
      · exact absurd rfl (kind_of_mem_cutLine hl)
    subst hvalue
    refine ⟨rfl, ?_⟩
    rw [← htext, h.text_eq, List.append_assoc]
    rfl
  · rintro ⟨rfl, rfl⟩
    exact ⟨segments before, segments behind, segments_newline before behind, text_segments before, text_segments behind⟩
  · rw [List.map_map]
    exact List.map_id'' (fun l => text_cutLine [] [] l) _
  · intro row hrow
    obtain ⟨l, -, rfl⟩ := List.mem_map.1 hrow
    exact alternates_cutLine [] [] l
  · rintro ⟨rfl, h⟩
    exact ⟨segments before, segments behind, segments_breakable h, text_segments before, text_segments behind⟩
  · rcases mem_segments hword with heq | ⟨l, hl, hmem⟩
    · cases heq
    · refine ⟨fun hnewline => ?_, fun _ _ _ heq => not_breakable_of_mem_cutLine hmem heq⟩
      exact Text.not_mem_of_hasNewline hl (mem_of_mem_cutLine hmem hnewline)

/-- Blanks beside a comma stay in the word, and one letter may stand between two spaces. -/
example : (segments "ab, c d  e".toList).map (fun s => (s.kind, String.ofList s.value)) =
    [(.word, "ab, c"), (.space, " "), (.word, "d"), (.space, "  "), (.word, "e")] := by decide +kernel

end XmlTidy
