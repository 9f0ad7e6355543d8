import XmlTidy.Proofs.StyledAttributes
import XmlTidy.Proofs.Writing

/-!
Printing tags. Whatever the width, a tag is printed as a tag of the same name with the attributes of the
style, and only the blanks between them depend on the width. So the printed tag has the same
layout as the tag it was printed from.
-/

namespace XmlTidy

open Printed

/-! ### Lines in tags -/

/-- Blanks that separate. -/
def IsGap (t : Text) : Prop := Blanks t ∧ t ≠ []

theorem isGap_space : IsGap [' '] := ⟨by simp [Blanks, isBlank], by decide⟩

theorem isGap_newLineText (page : Page) (depth : Nat) : IsGap (newLineText page depth) := by
  refine ⟨fun c hc => ?_, List.cons_ne_nil _ _⟩
  rcases List.mem_cons.1 hc with rfl | hc
  · rfl
  · exact isBlank_of_isPadding (isPadding_indentation page depth hc)

section Lines

variable {page : Page} {depth : Nat} {mode : Mode} {k : Ahead} {p : Printed Text Int}

/-- A line in flat mode is its blank, in broken mode a newline. -/
theorem run_line (h : p.Solid) (soft : Bool) :
    (Doc.line ⟨false, soft, false⟩).run page depth mode k p =
      match mode with
      | .flat => p.write (flatLine ⟨false, soft, false⟩)
      | .broken => p.newLine page depth := by
  cases mode with
  | flat => simp [Doc.run, writeFlatLine_eq]
  | broken => simp [Doc.run, breakLine_of_solid h]

theorem run_spaceLine (h : p.Solid) :
    ∃ gap, IsGap gap ∧ Wrote p gap (Doc.spaceLine.run page depth mode k p) := by
  rw [Doc.spaceLine, run_line h]
  cases mode with
  | flat => exact ⟨_, isGap_space, wrote_write ..⟩
  | broken => exact ⟨_, isGap_newLineText page depth, wrote_newLine ..⟩

theorem run_softLine (h : p.Solid) :
    ∃ gap, Blanks gap ∧ Wrote p gap (Doc.softLine.run page depth mode k p) := by
  rw [Doc.softLine, run_line h]
  cases mode with
  | flat => exact ⟨[], blanks_nil, wrote_write ..⟩
  | broken => exact ⟨_, (isGap_newLineText page depth).1, wrote_newLine ..⟩

theorem run_attrSeparator (style : Style) (h : p.Solid) :
    ∃ gap, IsGap gap ∧ Wrote p gap ((Spelled.attrSeparator style).run page depth mode k p) := by
  rw [Spelled.attrSeparator]
  split
  · rw [Doc.run_hardLine h]
    exact ⟨_, isGap_newLineText page depth, wrote_newLine ..⟩
  · exact run_spaceLine h

end Lines

namespace Spelled

/-! ### Attributes -/

/-- Attributes as they are printed: without blanks around the equals sign. -/
structure PrintedAttrs (attrs : List Attr) (pairs : List (Text × Text)) : Prop where
  pairs : attrs.map Attr.pair = pairs
  tight : ∀ a ∈ attrs, IsGap a.lead ∧ a.before = [] ∧ a.behind = []

section Attributes

variable {page : Page} {depth : Nat} {mode : Mode} {k : Ahead} {p : Printed Text Int}

theorem run_attrDoc (pair : Text × Text) :
    (attrDoc pair).run page depth mode k p = p.write (pair.1 ++ '=' :: pair.2) := by
  simp [attrDoc, Doc.run, Doc.runAll, write_write]

theorem solid_literal {inner : Char → Bool} {t : Text} (h : Literal.IsLiteral inner t) : t.Solid := by
  obtain ⟨q, body, rfl, hq, -⟩ := h
  refine ⟨q, by simp [List.getLast?_cons], ?_⟩
  simp only [Literal.isQuote, Bool.or_eq_true, beq_iff_eq] at hq
  rcases hq with rfl | rfl <;> rfl

/-- Attributes behind the first one, each behind a separator. -/
theorem runAll_join_attrs {separator : Doc}
    (hseparator : ∀ {k p}, Solid p → ∃ gap, IsGap gap ∧ Wrote p gap (separator.run page depth mode k p))
    {pair : Text × Text} {pairs : List (Text × Text)}
    (hpairs : ∀ x ∈ pair :: pairs, Text.Solid x.2) :
    ∃ attrs, PrintedAttrs attrs pairs ∧
      Wrote p (pair.1 ++ '=' :: pair.2 ++ Attr.textAll attrs)
        (Doc.runAll page depth mode (Doc.join separator ((pair :: pairs).map attrDoc)) k p) ∧
      Solid (Doc.runAll page depth mode (Doc.join separator ((pair :: pairs).map attrDoc)) k p) := by
  have hsolid : Text.Solid (pair.1 ++ '=' :: pair.2) := by
    obtain ⟨c, hc, hpadding⟩ := hpairs pair (by simp)
    exact ⟨c, by simp [List.getLast?_append, List.getLast?_cons, hc], hpadding⟩
  induction pairs generalizing pair p with
  | nil =>
      refine ⟨[], ⟨rfl, by simp⟩, ?_⟩
      simp only [Doc.join, List.map_cons, List.map_nil, List.intersperse, Doc.runAll, run_attrDoc,
        Attr.textAll, List.flatMap_nil, List.append_nil]
      exact ⟨wrote_write .., solid_write p hsolid⟩
  | cons next pairs ih =>
      have hnext : Text.Solid (next.1 ++ '=' :: next.2) := by
        obtain ⟨c, hc, hpadding⟩ := hpairs next (by simp)
        exact ⟨c, by simp [List.getLast?_append, List.getLast?_cons, hc], hpadding⟩
      rw [List.map_cons, List.map_cons, Doc.join, List.intersperse_cons_cons, Doc.runAll, run_attrDoc,
        Doc.runAll]
      obtain ⟨gap, hgap, hwrote⟩ := hseparator (solid_write p hsolid)
      obtain ⟨attrs, ⟨hattrs, htight⟩, hrest, hend⟩ := ih (fun x hx => hpairs x (by simp [List.mem_cons.1 hx]))
        hnext
      refine ⟨⟨gap, next.1, [], [], next.2⟩ :: attrs, ⟨by rw [List.map_cons, hattrs]; rfl, ?_⟩, ?_, hend⟩
      · intro a ha
        rcases List.mem_cons.1 ha with rfl | ha
        · exact ⟨hgap, rfl, rfl⟩
        · exact htight a ha
      · have htext : pair.1 ++ '=' :: pair.2 ++
            Attr.textAll (⟨gap, next.1, [], [], next.2⟩ :: attrs) =
            (pair.1 ++ '=' :: pair.2) ++ (gap ++ (next.1 ++ '=' :: next.2 ++ Attr.textAll attrs)) := by
          simp [Attr.textAll, Attr.text]
        rw [htext]
        exact (wrote_write ..).trans (hwrote.trans hrest)

/-- All attributes of a tag, the first one behind a line as well. -/
theorem run_attrs {separator : Doc}
    (hseparator : ∀ {depth k p}, Solid p → ∃ gap, IsGap gap ∧
      Wrote p gap (separator.run page depth mode k p))
    {pairs : List (Text × Text)} (hne : pairs ≠ []) (hpairs : ∀ x ∈ pairs, Text.Solid x.2) (hp : p.Solid) :
    ∃ attrs, PrintedAttrs attrs pairs ∧
      Wrote p (Attr.textAll attrs) ((Doc.indent (.concat
        [.spaceLine, .concat (Doc.join separator (pairs.map attrDoc))])).run page depth mode k p) ∧
      Solid ((Doc.indent (.concat
        [.spaceLine, .concat (Doc.join separator (pairs.map attrDoc))])).run page depth mode k p) := by
  obtain ⟨pair, pairs, rfl⟩ := List.exists_cons_of_ne_nil hne
  rw [Doc.run, Doc.run, Doc.runAll, Doc.runAll, Doc.runAll, Doc.run]
  obtain ⟨gap, hgap, hwrote⟩ := run_spaceLine hp
  obtain ⟨attrs, ⟨hattrs, htight⟩, hrest, hend⟩ := runAll_join_attrs hseparator hpairs
  refine ⟨⟨gap, pair.1, [], [], pair.2⟩ :: attrs, ⟨by rw [List.map_cons, hattrs]; rfl, ?_⟩, ?_, hend⟩
  · intro a ha
    rcases List.mem_cons.1 ha with rfl | ha
    · exact ⟨hgap, rfl, rfl⟩
    · exact htight a ha
  · have htext : Attr.textAll (⟨gap, pair.1, [], [], pair.2⟩ :: attrs) =
        gap ++ (pair.1 ++ '=' :: pair.2 ++ Attr.textAll attrs) := by
      simp [Attr.textAll, Attr.text]
    rw [htext]
    exact hwrote.trans hrest

end Attributes

/-! ### Tags -/

/-- A tag that another one may be printed as. -/
structure Open.Reshaped (style : Style) (o o' : Open) : Prop where
  name : o'.name = o.name
  pairs : o'.pairs = o.styled style
  wellFormed : o'.WellFormed

namespace Open.Reshaped

variable {style : Style} {o o' : Open}

theorem styled (h : Reshaped style o o') : o'.styled style = o.styled style := by
  rw [Open.styled, h.pairs, Open.styled, stylePairs_stylePairs]

theorem emptyDoc (h : Reshaped style o o') : o'.emptyDoc style = o.emptyDoc style := by
  rw [Open.emptyDoc, Open.emptyDoc, h.styled, h.name]

theorem bareDoc (h : Reshaped style o o') : o'.bareDoc style = o.bareDoc style := by
  rw [Open.bareDoc, Open.bareDoc, h.styled, h.name]

theorem openDoc (h : Reshaped style o o') (attached : List Doc) :
    o'.openDoc style attached = o.openDoc style attached := by
  rw [Open.openDoc, Open.openDoc, h.bareDoc]

theorem closeDoc (h : Reshaped style o o') : o'.closeDoc = o.closeDoc := by
  rw [Open.closeDoc, Open.closeDoc, h.name]

/-- The attributes that make whitespace count are the same. -/
theorem any_space (h : Reshaped style o o') :
    (o'.pairs.any fun pair =>
        pair.1 = "xml:space".toList && Attribute.innerOf pair.2 ≠ "default".toList) =
      o.pairs.any fun pair =>
        pair.1 = "xml:space".toList && Attribute.innerOf pair.2 ≠ "default".toList := by
  rw [h.pairs, Open.styled, any_stylePairs]

end Open.Reshaped

theorem solid_name {name : Text} (h : Name.IsName name) : Text.Solid name := by
  obtain ⟨c, hc⟩ : ∃ c, name.getLast? = some c := by
    rw [← Option.ne_none_iff_exists', ne_eq, List.getLast?_eq_none_iff]
    exact h.ne_nil
  refine ⟨c, hc, ?_⟩
  by_contra hpadding
  rw [Bool.not_eq_false] at hpadding
  exact h.not_mem (Name.isInner_of_isBlank (isBlank_of_isPadding hpadding)) (List.mem_of_getLast? hc)

/-- Styled attributes are well formed. -/
theorem of_mem_stylePairs {style : Style} {attrs : List Attr} (h : ∀ a ∈ attrs, a.WellFormed)
    {pair : Text × Text} (hpair : pair ∈ stylePairs style (attrs.map Attr.pair)) :
    Name.IsName pair.1 ∧ Literal.IsLiteral (· != '<') pair.2 := by
  have := (stylePairs_perm style (attrs.map Attr.pair)).mem_iff.1 hpair
  simp only [List.map_map, List.mem_map, Function.comp_def] at this
  obtain ⟨a, ha, rfl⟩ := this
  exact ⟨(h a ha).name, isLiteral_requote style.quotes (h a ha).value⟩

theorem PrintedAttrs.wellFormed {attrs : List Attr} {pairs : List (Text × Text)}
    (h : PrintedAttrs attrs pairs)
    (hpairs : ∀ pair ∈ pairs, Name.IsName pair.1 ∧ Literal.IsLiteral (· != '<') pair.2) :
    ∀ a ∈ attrs, a.WellFormed := by
  intro a ha
  obtain ⟨⟨hblanks, hne⟩, hbefore, hbehind⟩ := h.tight a ha
  obtain ⟨hname, hvalue⟩ := hpairs a.pair (h.pairs ▸ List.mem_map_of_mem ha)
  exact ⟨hblanks, hne, hname, hbefore ▸ blanks_nil, hbehind ▸ blanks_nil, hvalue⟩

section Tags

variable {style : Style} {o : Open} {page : Page} {depth : Nat} {mode : Mode} {k : Ahead} {p : Printed Text Int}

/-- A tag up to its last attribute. -/
theorem runAll_tagHead (ho : o.WellFormed) (rest : List Doc) :
    ∃ attrs q, PrintedAttrs attrs (o.styled style) ∧ Wrote p ('<' :: (o.name ++ Attr.textAll attrs)) q ∧
      q.Solid ∧ Doc.runAll page depth mode (tagHead style o.name (o.styled style) ++ rest) k p =
        Doc.runAll page depth mode rest k q := by
  have hstart : Wrote p ('<' :: o.name) ((p.write ['<']).write o.name) := by
    rw [write_write]
    exact wrote_write ..
  have hsolid : Solid ((p.write ['<']).write o.name) := solid_write _ (solid_name ho.name)
  rw [tagHead]
  cases hempty : (o.styled style).isEmpty with
  | true =>
      have hnil : o.styled style = [] := List.isEmpty_iff.1 hempty
      refine ⟨[], _, ⟨hnil.symm, by simp⟩, ?_, hsolid, by simp [Doc.runAll, Doc.run]⟩
      simpa [Attr.textAll] using hstart
  | false =>
      obtain ⟨attrs, hattrs, hwrote, hend⟩ := run_attrs
        (fun hp => run_attrSeparator style hp) (List.isEmpty_eq_false_iff.1 hempty)
        (fun x hx => solid_literal (of_mem_stylePairs ho.attributes hx).2) hsolid
      refine ⟨attrs, _, hattrs, ?_, hend, by simp [Doc.runAll, Doc.run_text]; rfl⟩
      exact hstart.trans hwrote

/-- The tag that attributes and the blanks behind them belong to. -/
theorem reshaped_of_printed (ho : o.WellFormed) {attrs : List Attr} (hattrs : PrintedAttrs attrs (o.styled style))
    {tail : Text} (htail : Blanks tail) : Open.Reshaped style o ⟨o.name, attrs, tail⟩ :=
  ⟨rfl, hattrs.pairs,
    ho.name, hattrs.wellFormed fun _ hpair => of_mem_stylePairs ho.attributes hpair, htail⟩

/-- What may stand before the slash of a tag without content. -/
theorem run_slashSpace (hp : p.Solid) :
    ∃ gap, Blanks gap ∧ Wrote p gap ((Tag.slashSpace style).run page depth mode k p) := by
  rw [Tag.slashSpace]
  split
  · split
    · exact ⟨_, isGap_space.1, by rw [Doc.run_text]; exact wrote_write ..⟩
    · exact ⟨_, blanks_nil, by rw [Doc.run_text]; exact wrote_write ..⟩
  · split
    · obtain ⟨gap, hgap, hwrote⟩ := run_spaceLine hp
      exact ⟨gap, hgap.1, hwrote⟩
    · exact run_softLine hp

theorem run_bracketSpace (hp : p.Solid) :
    ∃ gap, Blanks gap ∧ Wrote p gap ((Open.bracketSpace style).run page depth mode k p) := by
  rw [Open.bracketSpace]
  split
  · exact ⟨_, blanks_nil, by rw [Doc.run_text]; exact wrote_write ..⟩
  · exact run_softLine hp

/-- A tag behind its attributes: a line and the end. -/
theorem run_tag (ho : o.WellFormed) {space : Doc}
    (hspace : ∀ {mode k p}, Solid p → ∃ gap, Blanks gap ∧ Wrote p gap (space.run page depth mode k p))
    (stop : Text) :
    ∃ o', Open.Reshaped style o o' ∧ Wrote p (o'.text ++ stop)
      ((Doc.grouped (.concat (tagHead style o.name (o.styled style) ++ [space, .text stop]))).run page depth
        mode k p) := by
  rw [Doc.grouped, Doc.run, Doc.run]
  obtain ⟨attrs, q, hattrs, hwrote, hsolid, hrun⟩ := runAll_tagHead ho [space, .text stop]
  rw [hrun, Doc.runAll, Doc.runAll, Doc.runAll, Doc.run_text]
  obtain ⟨gap, hgap, hgapWrote⟩ := hspace hsolid
  refine ⟨⟨o.name, attrs, gap⟩, reshaped_of_printed ho hattrs hgap, ?_⟩
  have htext : Open.text ⟨o.name, attrs, gap⟩ ++ stop =
      '<' :: (o.name ++ Attr.textAll attrs) ++ (gap ++ stop) := by simp [Open.text]
  rw [htext]
  exact hwrote.trans (hgapWrote.trans (wrote_write ..))

theorem run_emptyDoc (ho : o.WellFormed) :
    ∃ o', Open.Reshaped style o o' ∧ Wrote p (o'.text ++ ['/', '>'])
      ((o.emptyDoc style).run page depth mode k p) :=
  run_tag ho (fun hp => run_slashSpace hp) ['/', '>']

theorem run_bareDoc (ho : o.WellFormed) :
    ∃ o', Open.Reshaped style o o' ∧ Wrote p (o'.text ++ ['>'])
      ((o.bareDoc style).run page depth mode k p) :=
  run_tag ho (fun hp => run_bracketSpace hp) ['>']

theorem run_closeDoc : o.closeDoc.run page depth mode k p = p.write (Item.endTag o.name []) := by
  simp [Open.closeDoc, Doc.grouped, Doc.run, Doc.runAll, write_write, Item.endTag]

end Tags

end Spelled

end XmlTidy
