import XmlTidy.Proofs.LayoutShape
import XmlTidy.Proofs.TextWrapping

/-!
Text is wrapped greedily. The layout of a text is a group with a fill for each line, and a fill measures
its words one by one and pair by pair; what comes of that is one simple rule. From left to right, a space
stays if the word behind it still fits on the line, and otherwise it becomes a newline and the
indentation. Newlines stay where they are, without indentation. This holds on every page, also where
an indentation is wider than it is long.
-/

namespace XmlTidy

open Printed

/-- The width of the word at the front of segments. -/
def nextWidth : List Segment → Nat
  | ⟨.word, w⟩ :: _ => w.width
  | _ => 0

/-- Segments wrapped to a page, from a column on. -/
def wrapSegments (page : Page) (depth : Nat) (column : Int) : List Segment → Text
  | [] => []
  | ⟨.word, w⟩ :: rest => w ++ wrapSegments page depth (column + w.width) rest
  | ⟨.newline, _⟩ :: rest => '\n' :: wrapSegments page depth 0 rest
  | ⟨.space, _⟩ :: rest =>
      if column + 1 + nextWidth rest ≤ page.width then ' ' :: wrapSegments page depth (column + 1) rest
      else '\n' :: (page.indentation depth ++ wrapSegments page depth (depth * page.tabWidth) rest)

section Wrapping

variable {page : Page} {depth : Nat}

/-- A line in front of a newline is wrapped as if it stood alone, and the next line starts at the left. -/
theorem wrapSegments_cutLine_append (column : Int) (word gap t : Text) (rest : List Segment) :
    wrapSegments page depth column (cutLine word gap t ++ ⟨.newline, ['\n']⟩ :: rest) =
      wrapSegments page depth column (cutLine word gap t) ++ '\n' :: wrapSegments page depth 0 rest := by
  fun_induction cutLine word gap t generalizing column with
  | case1 word gap => simp [wrapSegments]
  | case5 word gap c t _ _ _ ih =>
      obtain ⟨value, segments, hcut⟩ := exists_cutLine [c] [] t
      rw [hcut] at ih ⊢
      simp only [List.cons_append, wrapSegments.eq_2, wrapSegments.eq_4, nextWidth] at ih ⊢
      split
      · simp [ih]
      · simp [ih]
  | case2 _ _ _ _ _ _ ih => exact ih column
  | case3 _ _ _ _ _ _ ih => exact ih column
  | case4 _ _ _ _ _ _ ih => exact ih column
  | case6 _ _ _ _ _ _ _ ih => exact ih column

/-- A fill of the segments of a line prints them wrapped. The blanks in `gap` follow a word character, so a line break
behind the word finds nothing to trim. -/
theorem wrote_runFill_cutLine {word gap t : Text}
    (hword : gap ≠ [] → ∃ c rest, word = c :: rest ∧ isWordChar c = true)
    (hline : ∀ s ∈ cutLine word gap t, s.value.hasNewline = false) (mode : Mode) (k : Ahead) (p : Printed Text Int) :
    Wrote p (wrapSegments page depth p.column (cutLine word gap t))
      (Doc.runFill page depth mode ((cutLine word gap t).map segmentDoc) k p) := by
  fun_induction cutLine word gap t generalizing p with
  | case1 word gap =>
      simp only [List.map_cons, List.map_nil, segmentDoc, Doc.runFill, Doc.run_text, wrapSegments, List.append_nil]
      exact wrote_write ..
  | case2 word gap c t hempty hc ih =>
      rw [Bool.and_eq_true] at hc
      refine ih (fun _ => ?_) hline p
      cases word with
      | nil => simp at hc
      | cons d word => exact ⟨d, word, rfl, by simpa using hc.2⟩
  | case3 word gap c t hempty hc ih => exact ih (by simp) hline p
  | case4 word gap c t hempty hc ih => exact ih (fun _ => hword (by simpa using hempty)) hline p
  | case5 word gap c t hempty hc hwordChar ih =>
      obtain ⟨d, word, rfl, hd⟩ := hword (by simpa using hempty)
      have hsolid : Text.Solid (d :: word).reverse := ⟨d, by simp, isPadding_of_isWordChar hd⟩
      obtain ⟨hfirst, hline⟩ := List.forall_mem_cons.1 hline
      have hrest := ih (by simp) (List.forall_mem_cons.1 hline).2
      obtain ⟨value, rest, hcut⟩ := exists_cutLine [c] [] t
      rw [hcut] at hrest ⊢
      simp only [List.map_cons, segmentDoc] at hrest ⊢
      rw [runFill_words hsolid, wrapSegments, wrapSegments]
      refine (wrote_write p _).trans ?_
      by_cases hfits : p.column + (Text.width (d :: word).reverse : Int) + 1 + value.width ≤ page.width
      · rw [if_pos (by rw [nextWidth]; exact hfits), if_pos (by omega)]
        have hwrote := hrest ((p.write (d :: word).reverse).write [' '])
        rw [column_write_space hfirst] at hwrote
        exact (wrote_write _ [' ']).trans hwrote
      · rw [if_neg (by rw [nextWidth]; exact hfits), if_neg (by omega)]
        exact (wrote_newLine page depth _).trans (hrest _)
  | case6 word gap c t hempty hc hwordChar ih => exact ih (by simp) hline p

/-- The layout of a text prints its segments wrapped, in any mode and whatever follows. -/
theorem wrote_run_segmentsLayout (t : Text) (mode : Mode) (k : Ahead) (p : Printed Text Int) :
    Wrote p (wrapSegments page depth p.column (segments t))
      ((segmentsLayout (segments t)).run page depth mode k p) := by
  have hlines : ∀ (ls : List Text) (mode : Mode) (p : Printed Text Int), (∀ l ∈ ls, l.hasNewline = false) →
      Wrote p (wrapSegments page depth p.column ([⟨.newline, ['\n']⟩].intercalate (ls.map (cutLine [] []))))
        (Doc.runAll page depth mode (Doc.join .literalLine (ls.map lineFill)) k p) := by
    intro ls mode
    induction ls with
    | nil => exact fun p _ => wrote_nil p
    | cons l ls ih =>
        intro p hls
        obtain ⟨hl, hls⟩ := List.forall_mem_cons.1 hls
        have hline : ∀ k, Wrote p (wrapSegments page depth p.column (cutLine [] [] l))
            ((lineFill l).run page depth mode k p) := by
          intro k
          rw [lineFill, Doc.run]
          refine wrote_runFill_cutLine (by simp) (fun s hs => ?_) mode k p
          rw [Text.hasNewline, ← Bool.not_eq_true, List.contains_iff_mem]
          intro hmem
          exact Text.not_mem_of_hasNewline hl (by simpa using mem_of_mem_cutLine hs hmem)
        cases ls with
        | nil =>
            simp only [Doc.join, List.map_cons, List.map_nil, List.intersperse, Doc.runAll, Doc.reachAll,
              List.intercalate_singleton]
            exact hline k
        | cons l' ls =>
            obtain ⟨k', hrun⟩ := @runAll_lineFills page depth l l' ls mode k p
            have hrest := ih (((lineFill l).run page depth mode k' p).write ['\n']) hls
            rw [show (Printed.write _ ['\n']).column = (0 : Int) from rfl] at hrest
            rw [hrun, List.map_cons, List.map_cons, List.intercalate_cons_cons, ← List.map_cons, List.append_assoc,
              List.singleton_append, wrapSegments_cutLine_append]
            exact (hline k').trans ((wrote_write _ ['\n']).trans hrest)
  rw [segmentsLayout_eq, segments_eq, Doc.grouped, Doc.run, Doc.run]
  exact hlines t.lines _ p fun l hl => Text.hasNewline_of_mem_lines hl

end Wrapping

theorem Doc.run_indents (doc : Doc) (page : Page) (n depth : Nat) (mode : Mode) (k : Ahead) (p : Printed Text Int) :
    (Doc.indent^[n] doc).run page depth mode k p = doc.run page (depth + n) mode k p := by
  induction n generalizing depth with
  | zero => rfl
  | succ n ih => rw [Function.iterate_succ_apply', Doc.run, ih, Nat.add_right_comm, Nat.add_assoc]

theorem Doc.Paired.indents {allowed : Text → Prop} {doc : Doc} (h : doc.Paired allowed) (n : Nat) :
    (Doc.indent^[n] doc).Paired allowed := by
  induction n with
  | zero => exact h
  | succ n ih =>
      rw [Function.iterate_succ_apply']
      exact .indent ih

/-- At any depth of indentation, a text is printed as its segments are wrapped. -/
theorem Page.render_segmentsLayout {page : Page} (hlineEnd : page.lineEnd = .lf) (depth : Nat) (t : Text) :
    page.render (Doc.indent^[depth] (segmentsLayout (segments t))) =
      .ok (wrapSegments page depth 0 (segments t)) := by
  have hpaired : (segmentsLayout (segments t)).Paired fun _ => True := paired_segmentsLayout fun _ _ _ _ => trivial
  have hwrote := @wrote_run_segmentsLayout page depth t .broken .clear .empty
  rw [Page.render, Doc.print_eq_run (hpaired.indents depth), Doc.run_indents, Nat.zero_add, hlineEnd]
  simp only [Except.map, LineEnd.image, Text.withLineEnds_newline, Except.ok.injEq]
  rw [Printed.text, hwrote]
  simp [Printed.empty_text]

/-- A page of nine columns on which a tab takes up four of them. -/
def Page.tabbed : Page := { width := 9, tabWidth := 4, useTabs := true }

/-- A wide character takes up two columns, a comma does not start a line, and the newline is kept without a tab
behind it. -/
theorem Page.render_segmentsLayout_tabbed :
    Page.tabbed.lineEnd = .lf ∧
      Page.tabbed.render (Doc.indent^[1] (segmentsLayout (segments "ab 漢 cd  , ef\ng h".toList))) =
        .ok "ab 漢\n\tcd  , ef\ng h".toList := by
  refine ⟨rfl, ?_⟩
  rw [Page.render_segmentsLayout rfl]
  exact congrArg Except.ok (by decide +kernel)

end XmlTidy
