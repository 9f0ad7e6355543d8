import XmlTidy.Proofs.Skeleton

/-!
The text of a declaration by itself. A declaration is told from a processing instruction by the blank behind its
target. What is printed for a declaration, with a line end behind it, is read as a declaration that says the
same, except where that blank is missing: a declaration without attributes has nothing between its target and its
end if the style puts no space there and the line has room for both.
-/

namespace XmlTidy

namespace Spelled

open Printed

variable {style : Style} {page : Page}

/-! ### Printing a declaration -/

/-- What the style puts in front of the end of a declaration that stays on its line. -/
def endBlank (style : Style) : Text := if style.selfClosingSpace then [' '] else []

/-- What is printed between the target and the end of a declaration without attributes. -/
def bareGap (style : Style) (page : Page) : Text :=
  if 7 + (endBlank style).length ≤ page.width then endBlank style else ['\n']

theorem blanks_bareGap (style : Style) (page : Page) : Blanks (bareGap style page) := by
  have hend : Blanks (endBlank style) := by
    unfold endBlank
    split
    · exact isGap_space.1
    · exact blanks_nil
  unfold bareGap
  split
  · exact hend
  · exact fun c hc => by rw [List.mem_singleton.1 hc]; rfl

theorem bareGap_eq_nil_iff : bareGap style page = [] ↔ style.selfClosingSpace = false ∧ 7 ≤ page.width := by
  unfold bareGap
  cases hspace : style.selfClosingSpace with
  | true =>
      have hend : endBlank style = [' '] := if_pos hspace
      rw [hend]
      split <;> simp
  | false =>
      have hend : endBlank style = [] := if_neg (by simp [hspace])
      rw [hend]
      split <;> simp_all

/-- The line in front of the end of a declaration. -/
def endLine (style : Style) : Line := ⟨false, !style.selfClosingSpace, false⟩

theorem flatLine_endLine (style : Style) : flatLine (endLine style) = endBlank style := by
  unfold flatLine endLine endBlank
  cases style.selfClosingSpace <;> rfl

theorem doc_bare {d : Declaration} (hd : d.attributes = []) :
    d.doc style = .group (.concat [.lit "<?xml", .line (endLine style), .lit "?>"]) false := by
  rw [Declaration.doc, hd, endLine]
  cases style.selfClosingSpace <;> rfl

theorem reach_endLine (style : Style) (k : Ahead) (width : Int) :
    Doc.reach false .flat (.line (endLine style)) k width = k (width - (endBlank style).length) := by
  rw [Doc.reach, if_neg (by simp [endLine])]
  unfold endLine endBlank
  cases style.selfClosingSpace <;> simp

/-- A declaration without attributes is measured by its target, its end and what is between them. -/
theorem groupMode_bare (style : Style) (page : Page) :
    Doc.groupMode page .broken (.concat [.lit "<?xml", .line (endLine style), .lit "?>"]) false .clear .empty =
      if 7 + (endBlank style).length ≤ page.width then .flat else .broken := by
  have htarget : Text.width "<?xml".toList = 5 := by decide
  have hend : Text.width "?>".toList = 2 := by decide
  have hreach : Doc.reach false .flat (.concat [.lit "<?xml", .line (endLine style), .lit "?>"]) .clear
      (page.width - (empty : Printed Text Int).column) = decide (7 + (endBlank style).length ≤ page.width) := by
    rw [Doc.reach, Doc.reachAll, Doc.reachAll, Doc.reachAll, Doc.reachAll, Doc.lit, Doc.reach]
    beta_reduce
    rw [reach_endLine, Doc.lit, Doc.reach, htarget, hend]
    change decide (0 ≤ (page.width : Int) - 0 - 5 - (endBlank style).length - 2) = _
    rw [decide_eq_decide]
    omega
  rw [Doc.groupMode, hreach]
  simp [Doc.lit]

theorem text_run_bare {d : Declaration} (hd : d.attributes = []) (page : Page) :
    ((d.doc style).run page 0 .broken .clear .empty).text = (Declaration.mk [] (bareGap style page)).text := by
  have hsolid : Solid (empty.write "<?xml".toList) := solid_write _ ⟨'l', rfl, rfl⟩
  rw [doc_bare hd, Doc.run, groupMode_bare, Doc.run, Doc.runAll, Doc.runAll, Doc.runAll, Doc.runAll, Doc.run_lit,
    Doc.run_lit, endLine, run_line hsolid, ← endLine, flatLine_endLine, bareGap]
  by_cases hroom : 7 + (endBlank style).length ≤ page.width
  · simp [hroom, Printed.text, write_text, empty_text, Declaration.text, Attr.textAll, Cursor.prologStart]
  · simp [hroom, Printed.text, newLine, write_text, empty_text, Declaration.text, Attr.textAll, Cursor.prologStart,
      Page.indentation, blanks]

/-- A declaration is printed as one that says the same, up to the blank behind its target. -/
theorem text_run_declaration {d : Declaration} (hd : d.WellFormed) (style : Style) (page : Page) :
    ∃ d' : Declaration, d.Reshaped style d' ∧
      ((d.doc style).run page 0 .broken .clear .empty).text = d'.text ∧
      (d.attributes = [] → d'.tail = bareGap style page) := by
  by_cases hbare : d.attributes = []
  · refine ⟨⟨[], bareGap style page⟩, ⟨?_, by simp, blanks_bareGap style page⟩, text_run_bare hbare page, fun _ => rfl⟩
    rw [Declaration.styled, hbare]
    rfl
  · obtain ⟨d', hreshaped, hwrote⟩ := @run_declaration style page 0 .broken .clear .empty d hd
    refine ⟨d', hreshaped, ?_, fun h => absurd h hbare⟩
    rw [Printed.text, hwrote]
    simp [empty_text]

theorem Declaration.Reshaped.attributes_eq_nil_iff {d d' : Declaration} (h : d.Reshaped style d') :
    d'.attributes = [] ↔ d.attributes = [] := by
  have hlength := congrArg List.length h.pairs
  rw [List.length_map, Declaration.styled, List.length_map] at hlength
  rw [← List.length_eq_zero_iff, ← List.length_eq_zero_iff, hlength]

/-! ### Reading it back -/

/-- A declaration alone on its line. -/
def Declaration.alone (d : Declaration) : Whole := ⟨some d, [], ['\n']⟩

theorem Declaration.text_alone (d : Declaration) : d.alone.text = d.text ++ ['\n'] := rfl

theorem Declaration.WellFormed.alone {d : Declaration} (h : d.WellFormed) : d.alone.WellFormed := by
  refine ⟨by simpa [Declaration.alone] using h, by simp [Declaration.alone], List.Pairwise.nil, ?_⟩
  intro c hc
  rw [List.mem_singleton.1 hc]
  rfl

/-- Reading undoes the line ends in a declaration and the one behind it. -/
theorem normalize_line {d : Declaration} (hclean : d.text.Clean) (lineEnd : LineEnd) :
    Text.normalize (d.text.withLineEnds lineEnd.image ++ lineEnd.image) = d.alone.text := by
  have hends : d.alone.text.withLineEnds lineEnd.image = d.text.withLineEnds lineEnd.image ++ lineEnd.image := by
    simp [Declaration.text_alone, Text.withLineEnds]
  have hline : d.alone.text.Clean := by
    rw [Declaration.text_alone]
    exact Text.clean_append.2 ⟨hclean, by simp [Text.Clean]⟩
  have hunmarked : d.alone.text.Unmarked := by
    simp [Text.Unmarked, Declaration.text_alone, Declaration.text, Cursor.prologStart, Text.byteOrderMark]
  rw [← hends]
  exact Formatter.normalize_marked hline hunmarked lineEnd []

/-- A declaration is read back as soon as a blank follows its target. -/
theorem Declaration.Reshaped.wellFormed {d d' : Declaration} (h : d.Reshaped style d')
    (htail : d.attributes = [] → d'.tail ≠ []) : d'.WellFormed :=
  ⟨h.attributes, h.tail_blanks, fun hnil => htail (h.attributes_eq_nil_iff.1 hnil)⟩

/-- The target of a declaration with its end right behind it cannot be read. -/
theorem Declaration.read_alone_ne {d : Declaration} (hattributes : d.attributes = []) (htail : d.tail = [])
    (doc : Document) : Document.read d.alone.text ≠ .ok doc := by
  intro hread
  obtain ⟨w, hw, htext, -⟩ := exists_spelling hread
  refine Cursor.text_ne_bare hw ['>', '\n'] (htext.symm.trans ?_)
  rw [Declaration.text_alone, Declaration.text, hattributes, htail]
  rfl

theorem attributes_locate_eq_nil_iff (src : Source) (n : Nat) (d : Declaration) :
    (d.locate src n).attributes = [] ↔ d.attributes = [] := by
  have hlength := congrArg List.length (map_meaning_locateAll src (n + Cursor.prologStart.length) d.attributes)
  simp only [List.length_map] at hlength
  rw [← List.length_eq_zero_iff, ← List.length_eq_zero_iff, ← hlength]
  rfl

end Spelled

open Spelled

/-- What is printed for a declaration, with a line end behind it, reads as a declaration with the same names and the
same values in the same order if and only if it has attributes, a space in front of its end, or no room on one
line. -/
theorem Page.read_render_prolog_iff {t : Text} {p : Prolog} {c : Cursor}
    (h : (Cursor.ofText t.normalize).prolog? (.ofText t.normalize) = .ok (some p, c)) (style : Style)
    (page : Page) :
    ∃ out, page.render (p.layout style) = .ok out ∧
      ((∃ d p', Formatter.read (out ++ page.lineEnd.image) = .ok d ∧ d.prolog = some p' ∧
          p'.attributes.map Attribute.meaning = p.attributes.map Attribute.meaning) ↔
        p.attributes ≠ [] ∨ style.selfClosingSpace = true ∨ page.width < 7) := by
  obtain ⟨hnone, -⟩ | ⟨decl, hdecl, hp, htook⟩ := Cursor.of_prolog? h
  · cases hnone
  cases hp
  have hclean : decl.text.Clean := by
    have hsource : t.normalize = decl.text ++ c.rest := htook.rest
    exact (Text.clean_append.1 (hsource ▸ Text.clean_normalize t)).1
  have hneat : (decl.doc style).Neat := neat_declaration hclean
  obtain ⟨decl', hreshaped, hrun, hbare⟩ := text_run_declaration hdecl style page
  have hclean' : decl'.text.Clean := hrun ▸ hneat.clean_run page
  refine ⟨decl'.text.withLineEnds page.lineEnd.image, ?_, ?_⟩
  · rw [declaration_layout, Page.render, Doc.print_eq_run hneat, hrun]
    rfl
  rw [Formatter.read, normalize_line hclean', ne_eq, attributes_locate_eq_nil_iff]
  constructor
  · rintro ⟨d, p', hread, -, -⟩
    by_contra hcontra
    simp only [not_or, not_not, Bool.not_eq_true, not_lt] at hcontra
    obtain ⟨hattributes, hroom⟩ := hcontra
    have htail : decl'.tail = [] := (hbare hattributes).trans (bareGap_eq_nil_iff.2 hroom)
    exact Declaration.read_alone_ne (hreshaped.attributes_eq_nil_iff.2 hattributes) htail d hread
  · intro hcond
    have hdecl' : decl'.WellFormed := by
      refine hreshaped.wellFormed fun hattributes htail => ?_
      rw [hbare hattributes, bareGap_eq_nil_iff] at htail
      rcases hcond with hne | hspace | hnarrow
      · exact hne hattributes
      · simp [htail.1] at hspace
      · omega
    refine ⟨decl'.alone.locate, _, read_text hdecl'.alone, prolog_locate _, ?_⟩
    have hsame := hreshaped.sameAttributes (.ofText t.normalize) (.ofText decl'.alone.text)
      (Cursor.ofText t.normalize).offset 0
    rw [SameAttributes, if_neg (by simp)] at hsame
    exact hsame.symm

/-- A declaration with two attributes in different quotes. -/
def declaredText : Text := "<?xml version='1.0' encoding=\"it's\"?><a/>".toList

/-- On a narrow page with other line ends, and in other quotes, it is read back. -/
theorem Page.read_render_prolog_declared :
    ∃ p c out d p', (Cursor.ofText declaredText.normalize).prolog? (.ofText declaredText.normalize) = .ok (some p, c) ∧
      Page.render { width := 20, lineEnd := .crlf } (p.layout { quotes := .single, selfClosingSpace := false }) =
        .ok out ∧
      Formatter.read (out ++ LineEnd.crlf.image) = .ok d ∧ d.prolog = some p' ∧
      p'.attributes.map Attribute.meaning = p.attributes.map Attribute.meaning := by
  obtain ⟨result, hresult, hsome⟩ := @exists_ok_of_any _ _
    ((Cursor.ofText declaredText.normalize).prolog? (.ofText declaredText.normalize))
    (fun result => result.1.any fun p => !p.attributes.isEmpty) (by decide +kernel)
  obtain ⟨prolog, c⟩ := result
  obtain ⟨p, rfl, hne⟩ := (Option.any_eq_true ..).1 hsome
  obtain ⟨out, hout, hiff⟩ := Page.read_render_prolog_iff hresult { quotes := .single, selfClosingSpace := false }
    { width := 20, lineEnd := .crlf }
  obtain ⟨d, p', hread, hprolog, hsame⟩ := hiff.2 (.inl (by simpa using hne))
  exact ⟨p, c, out, d, p', hresult, hout, hread, hprolog, hsame⟩

/-- Without attributes and without a space, what is printed for a declaration cannot be read. -/
theorem Page.read_render_prolog_bare :
    ∃ p c e, (Cursor.ofText "<?xml ?>".toList).prolog? (.ofText "<?xml ?>".toList) = .ok (some p, c) ∧
      Page.render {} (p.layout { selfClosingSpace := false }) = .ok "<?xml?>".toList ∧
      Formatter.read ("<?xml?>".toList ++ LineEnd.lf.image) = .error e := by
  have hread : (Formatter.read ("<?xml?>".toList ++ LineEnd.lf.image)).toOption.isNone = true := by decide +kernel
  refine ⟨⟨[], (Source.ofText "<?xml ?>".toList).span 0 8⟩, ⟨8, []⟩, ?_⟩
  cases hresult : Formatter.read ("<?xml?>".toList ++ LineEnd.lf.image) with
  | ok d => rw [hresult] at hread; cases hread
  | error e => exact ⟨e, by decide +kernel, by decide +kernel, rfl⟩

end XmlTidy
