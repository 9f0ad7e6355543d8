import Mathlib.Data.List.TakeWhile
import XmlTidy.Proofs.Rendering

/-!
What is written on a page. Writing two texts one after the other is writing them as one, and a text that
is kept verbatim is written as it stands. A line break drops the blanks at the end of the line; behind
text that does not end in such blanks it adds a newline and the indentation of the next line.
-/

namespace XmlTidy

namespace Text

/-! ### Width and lines -/

theorem foldl_width (t : Text) (n : Nat) :
    t.foldl (fun n c => n + Width.ofChar c) n = n + t.width := by
  induction t generalizing n with
  | nil => rfl
  | cons c t ih =>
      rw [width, List.foldl_cons, List.foldl_cons, ih, ih]
      omega

theorem width_append (s t : Text) : width (s ++ t) = s.width + t.width := by
  rw [width, List.foldl_append, foldl_width]
  rfl

theorem withLineEnds_newline (t : Text) : t.withLineEnds ['\n'] = t := by
  induction t with
  | nil => rfl
  | cons c t ih =>
      rw [withLineEnds, List.flatMap_cons, ← withLineEnds, ih]
      split
      · next hc => rw [hc, List.singleton_append]
      · rfl

theorem hasNewline_append (s t : Text) : hasNewline (s ++ t) = (s.hasNewline || t.hasNewline) := by
  simp [hasNewline]

theorem not_mem_of_hasNewline {t : Text} (h : t.hasNewline = false) : '\n' ∉ t := by
  simpa [hasNewline] using h

theorem withLineEnds_of_hasNewline {t : Text} (h : t.hasNewline = false) (image : Text) : t.withLineEnds image = t := by
  induction t with
  | nil => rfl
  | cons c t ih =>
      obtain ⟨hc, ht⟩ := List.forall_mem_cons.1 fun d hd => ne_of_mem_of_not_mem hd (not_mem_of_hasNewline h)
      rw [withLineEnds, List.flatMap_cons, ← withLineEnds, if_neg hc, ih, List.singleton_append]
      simpa [hasNewline] using fun hmem => ht _ hmem rfl

theorem lastLine_append (s t : Text) :
    lastLine (s ++ t) = if t.hasNewline then t.lastLine else s.lastLine ++ t := by
  rw [lastLine, List.reverse_append, List.takeWhile_append]
  cases h : t.hasNewline with
  | true =>
      rw [if_neg]
      · simp [lastLine]
      · intro hlength
        have hall := List.takeWhile_eq_self_iff.1 (List.IsPrefix.eq_of_length
          (List.takeWhile_prefix _) hlength)
        have hmem : '\n' ∈ t := by simpa [hasNewline] using h
        simpa using hall '\n' (by simpa using hmem)
  | false =>
      have hself : t.reverse.takeWhile (· != '\n') = t.reverse := by
        refine List.takeWhile_eq_self_iff.2 fun c hc => ?_
        have := not_mem_of_hasNewline h
        simp only [bne_iff_ne, ne_eq]
        rintro rfl
        exact this (List.mem_reverse.1 hc)
      simp [hself, lastLine]

theorem lines_cons (c : Char) (t : Text) :
    lines (c :: t) = if c = '\n' then [] :: lines t else (lines t).modifyHead (c :: ·) := rfl

theorem exists_lines (t : Text) : ∃ l ls, lines t = l :: ls := by
  cases t with
  | nil => exact ⟨[], [], rfl⟩
  | cons c t =>
      obtain ⟨l, ls, h⟩ := exists_lines t
      rw [lines_cons, h]
      split
      · exact ⟨_, _, rfl⟩
      · exact ⟨_, _, rfl⟩

/-- A text is its lines with newlines between them. -/
theorem intercalate_lines (t : Text) : ['\n'].intercalate t.lines = t := by
  induction t with
  | nil => rfl
  | cons c t ih =>
      obtain ⟨l, ls, h⟩ := exists_lines t
      rw [lines_cons, h]
      rw [h] at ih
      split
      · next hc =>
          rw [← ih, hc]
          rfl
      · rw [← ih]
        cases ls <;> rfl

theorem mem_of_mem_lines {t l : Text} (h : l ∈ t.lines) {c : Char} (hc : c ∈ l) : c ∈ t := by
  induction t generalizing l with
  | nil =>
      obtain rfl : l = [] := by simpa [lines] using h
      simp at hc
  | cons d t ih =>
      obtain ⟨l', ls, hlines⟩ := exists_lines t
      rw [lines_cons, hlines] at h
      rw [hlines] at ih
      split at h
      · rcases List.mem_cons.1 h with rfl | h
        · simp at hc
        · exact List.mem_cons_of_mem _ (ih h hc)
      · rcases List.mem_cons.1 h with rfl | h
        · rcases List.mem_cons.1 hc with rfl | hc
          · simp
          · exact List.mem_cons_of_mem _ (ih (by simp) hc)
        · exact List.mem_cons_of_mem _ (ih (by simp [h]) hc)

theorem hasNewline_of_mem_lines {t l : Text} (h : l ∈ t.lines) : l.hasNewline = false := by
  induction t generalizing l with
  | nil =>
      obtain rfl : l = [] := by simpa [lines] using h
      rfl
  | cons c t ih =>
      obtain ⟨l', ls, hlines⟩ := exists_lines t
      rw [lines_cons, hlines] at h
      rw [hlines] at ih
      split at h
      · rcases List.mem_cons.1 h with rfl | h
        · rfl
        · exact ih h
      · next hc =>
          rcases List.mem_cons.1 h with rfl | h
          · have hl' := not_mem_of_hasNewline (@ih l' (by simp))
            simpa [hasNewline] using ⟨fun h => hc h.symm, hl'⟩
          · exact ih (by simp [h])

theorem lines_append {l : Text} (h : l.hasNewline = false) (t : Text) :
    lines (l ++ t) = (lines t).modifyHead (l ++ ·) := by
  induction l with
  | nil =>
      obtain ⟨l', ls, hlines⟩ := exists_lines t
      rw [List.nil_append, hlines]
      rfl
  | cons c l ih =>
      have hmem := not_mem_of_hasNewline h
      simp only [List.mem_cons, not_or] at hmem
      have hl : hasNewline l = false := by simpa [hasNewline] using hmem.2
      rw [List.cons_append, lines_cons, if_neg (Ne.symm hmem.1), ih hl, List.modifyHead_modifyHead]
      rfl

theorem lines_line {l : Text} (h : l.hasNewline = false) : lines l = [l] := by
  have hlines := lines_append h []
  rw [List.append_nil] at hlines
  rw [hlines]
  simp [lines]

/-- Lines with newlines between them are the lines of a text. -/
theorem lines_intercalate {ls : List Text} (hne : ls ≠ []) (h : ∀ l ∈ ls, l.hasNewline = false) :
    lines (['\n'].intercalate ls) = ls := by
  induction ls with
  | nil => exact absurd rfl hne
  | cons l ls ih =>
      obtain ⟨hl, hls⟩ := List.forall_mem_cons.1 h
      cases ls with
      | nil => rw [List.intercalate_singleton, lines_line hl]
      | cons l' ls =>
          rw [List.intercalate_cons_cons, List.append_assoc, lines_append hl, List.singleton_append, lines_cons,
            if_pos rfl, ih (by simp) hls]
          simp

/-- A text is a line, or a line and a newline in front of a text. -/
theorem line_induction {motive : Text → Prop} (last : ∀ l : Text, l.hasNewline = false → motive l)
    (cons : ∀ l t : Text, l.hasNewline = false → motive t → motive (l ++ '\n' :: t)) (t : Text) : motive t := by
  have hlines : ∀ ls : List Text, (∀ l ∈ ls, l.hasNewline = false) → motive (['\n'].intercalate ls) := by
    intro ls hls
    induction ls with
    | nil => exact last [] rfl
    | cons l ls ih =>
        obtain ⟨hl, hls⟩ := List.forall_mem_cons.1 hls
        cases ls with
        | nil =>
            rw [List.intercalate_singleton]
            exact last l hl
        | cons l' ls =>
            rw [List.intercalate_cons_cons, List.append_assoc]
            exact cons l _ hl (ih hls)
  rw [← intercalate_lines t]
  exact hlines _ fun l hl => hasNewline_of_mem_lines hl

/-- Texts that a line break behind them leaves as they are. -/
def Solid (t : Text) : Prop :=
  ∃ c, t.getLast? = some c ∧ isPadding c = false

theorem Solid.append (s : Text) {t : Text} (h : Solid t) : Solid (s ++ t) := by
  obtain ⟨c, hc, hpadding⟩ := h
  exact ⟨c, by simp [List.getLast?_append, hc], hpadding⟩

theorem solid_concat {c : Char} (hc : isPadding c = false) (t : Text) : Solid (t ++ [c]) :=
  ⟨c, by simp, hc⟩

end Text

namespace Printed

variable {p q r : Printed Text Int} {s t : Text}

/-! ### Writing -/

theorem write_nil (p : Printed Text Int) : p.write [] = p := by
  simp [write_text, Text.hasNewline, Text.width]

theorem write_write (p : Printed Text Int) (s t : Text) : (p.write s).write t = p.write (s ++ t) := by
  simp only [write_text, Text.hasNewline_append, Text.lastLine_append, List.reverse_append,
    List.append_assoc]
  cases ht : t.hasNewline <;> cases hs : s.hasNewline <;>
    simp [Text.width_append, Int.add_assoc]

theorem text_write (p : Printed Text Int) (t : Text) : (p.write t).text = p.text ++ t := by
  simp [text, write_text]

/-- What a page shows after some text. -/
def Wrote (p : Printed Text Int) (t : Text) (q : Printed Text Int) : Prop :=
  q.reversed = t.reverse ++ p.reversed

theorem wrote_write (p : Printed Text Int) (t : Text) : Wrote p t (p.write t) := rfl

theorem wrote_nil (p : Printed Text Int) : Wrote p [] p := rfl

theorem Wrote.trans (h : Wrote p s q) (h' : Wrote q t r) : Wrote p (s ++ t) r := by
  rw [Wrote] at *
  rw [h', h, List.reverse_append, List.append_assoc]

/-- Whether the next line break leaves the line as it is. -/
def Solid (p : Printed Text Int) : Prop :=
  ∀ c ∈ p.reversed.head?, isPadding c = false

theorem Wrote.solid (h : Wrote p t q) (ht : t.Solid) : q.Solid := by
  obtain ⟨c, hc, hpadding⟩ := ht
  intro d hd
  rw [h, List.head?_append, List.head?_reverse, hc] at hd
  obtain rfl : c = d := by simpa using hd
  exact hpadding

theorem solid_empty : Solid empty := by
  intro c hc
  simp [empty_text] at hc

theorem solid_write (p : Printed Text Int) (ht : t.Solid) : (p.write t).Solid :=
  (wrote_write p t).solid ht

/-! ### Lines -/

/-- A line that is not broken. -/
def flatLine (l : Line) : Text := if l.soft then [] else [' ']

theorem writeFlatLine_eq (p : Printed Text Int) (l : Line) : p.writeFlatLine l = p.write (flatLine l) := by
  rw [writeFlatLine_text, flatLine]
  split
  · exact (write_nil p).symm
  · rfl

theorem breakLine_literal (p : Printed Text Int) (page : Page) (depth : Nat) (hard soft : Bool) :
    p.breakLine page.ruler depth .broken ⟨hard, soft, true⟩ = p.write ['\n'] := by
  simp [breakLine_text, write_text, Text.hasNewline, Text.lastLine, Text.width]

/-- The page at the start of the next line. -/
def newLine (page : Page) (depth : Nat) (p : Printed Text Int) : Printed Text Int :=
  ⟨(page.indentation depth).reverse ++ '\n' :: p.reversed, page.ruler.start depth, p.remeasure⟩

/-- A newline and the indentation behind it. -/
def newLineText (page : Page) (depth : Nat) : Text := '\n' :: page.indentation depth

theorem wrote_newLine (page : Page) (depth : Nat) (p : Printed Text Int) :
    Wrote p (newLineText page depth) (p.newLine page depth) := by
  simp [Wrote, newLine, newLineText]

theorem text_breakLine (page : Page) (depth : Nat) (mode : Mode) (l : Line) (p : Printed Text Int) :
    (p.breakLine page.ruler depth mode l).text =
      if l.literal then p.text ++ ['\n'] else p.text.dropEndWhile isPadding ++ newLineText page depth := by
  simp only [breakLine_text, text]
  split <;> simp [Text.dropEndWhile, Page.ruler, newLineText]

theorem dropWhile_solid (h : p.Solid) : p.reversed.dropWhile isPadding = p.reversed := by
  cases hp : p.reversed with
  | nil => rfl
  | cons c t => rw [List.dropWhile_cons_of_neg (by simp [h c (by simp [hp])])]

theorem breakLine_of_solid (h : p.Solid) (page : Page) (depth : Nat) (hard soft : Bool) :
    p.breakLine page.ruler depth .broken ⟨hard, soft, false⟩ = p.newLine page depth := by
  simp [breakLine_text, newLine, dropWhile_solid h, Page.ruler]

theorem isPadding_indentation (page : Page) (depth : Nat) {c : Char}
    (h : c ∈ page.indentation depth) : isPadding c = true := by
  rw [Page.indentation, blanks] at h
  split at h
  · rw [List.eq_of_mem_replicate h]
    rfl
  · rw [List.eq_of_mem_replicate h]
    rfl

theorem indentation_zero (page : Page) : page.indentation 0 = [] := by
  simp [Page.indentation, blanks]

theorem hasNewline_indentation (page : Page) (depth : Nat) : (page.indentation depth).hasNewline = false := by
  rw [Text.hasNewline, ← Bool.not_eq_true, List.contains_iff_mem]
  exact fun h => absurd (isPadding_indentation page depth h) (by decide)

theorem hasNewline_newLineText (page : Page) (depth : Nat) : (newLineText page depth).hasNewline = true := rfl

theorem lastLine_newLineText (page : Page) (depth : Nat) :
    (newLineText page depth).lastLine = page.indentation depth := by
  rw [newLineText, ← List.singleton_append, Text.lastLine_append, hasNewline_indentation]
  rfl

theorem isBlank_of_isPadding {c : Char} (h : isPadding c = true) : isBlank c = true := by
  simp only [isPadding, Bool.or_eq_true, beq_iff_eq] at h
  rcases h with rfl | rfl <;> rfl

/-- The indentation of a line that stays empty is dropped. -/
theorem breakLine_newLine (p : Printed Text Int) (page : Page) (depth : Nat) (hard soft : Bool) :
    (p.newLine page depth).breakLine page.ruler depth .broken ⟨hard, soft, false⟩ =
      (p.write ['\n']).newLine page depth := by
  have hdrop : ((page.indentation depth).reverse ++ '\n' :: p.reversed).dropWhile isPadding =
      '\n' :: p.reversed := by
    rw [List.dropWhile_append_of_pos fun c hc =>
      isPadding_indentation page depth (List.mem_reverse.1 hc)]
    rfl
  simp [breakLine_text, newLine, hdrop, Page.ruler, write_text]

end Printed

namespace Doc

open Printed

variable {page : Page} {depth : Nat} {mode : Mode} {k : Ahead} {p : Printed Text Int}

/-! ### Documents -/

theorem run_text (t : Text) : (text t).run page depth mode k p = p.write t := by
  rw [run]

theorem run_lit (s : String) : (lit s).run page depth mode k p = p.write s.toList := by
  rw [lit, run]

theorem run_literalLine : literalLine.run page depth mode k p = p.write ['\n'] := by
  simp [literalLine, run, runAll, breakLine_literal]

theorem run_hardLine (h : p.Solid) : hardLine.run page depth mode k p = p.newLine page depth := by
  simp [hardLine, run, runAll, breakLine_of_solid h]

theorem run_hardLine_newLine :
    hardLine.run page depth mode k (p.newLine page depth) = (p.write ['\n']).newLine page depth := by
  simp [hardLine, run, runAll, breakLine_newLine]

theorem runAll_join_texts (ls : List Text) :
    runAll page depth mode (join literalLine (ls.map text)) k p = p.write (['\n'].intercalate ls) := by
  induction ls generalizing p with
  | nil => exact (write_nil p).symm
  | cons l ls ih =>
      cases ls with
      | nil => simp [join, runAll, run]
      | cons l' ls =>
          have htail := @ih ((p.write l).write ['\n'])
          rw [List.map_cons, join] at htail
          rw [List.map_cons, List.map_cons, join, List.intersperse_cons_cons, runAll, runAll,
            run_literalLine, run_text, htail, write_write, write_write]
          rfl

/-- A verbatim text is written as it stands. -/
theorem run_verbatim (t : Text) : (verbatim t).run page depth mode k p = p.write t := by
  rw [verbatim, ofLines]
  split
  · rw [run, runAll_join_texts, Text.intercalate_lines]
  · exact run_text t

end Doc

end XmlTidy
