import XmlTidy.Proofs.ItemPrinting

/-!
What is printed for a document. The declaration, the document type declaration and the other nodes each
stand on lines of their own. Apart from blanks, a declaration keeps its attributes up to their quotes, and a
document type declaration its name, its literals and its internal subset; the root is printed as any
item is.
-/

namespace XmlTidy

namespace Spelled

open Printed

/-! ### What nodes may be printed as -/

structure Declaration.Reshaped (style : Style) (d d' : Declaration) : Prop where
  pairs : d'.attributes.map Attr.pair = d.styled style
  attributes : ∀ a ∈ d'.attributes, a.WellFormed
  tail_blanks : Blanks d'.tail

structure External.Reshaped (e e' : External) : Prop where
  keyword : e'.keyword = e.keyword
  publicLiteral : e'.publicLiteral = e.publicLiteral
  systemLiteral : e'.systemLiteral = e.systemLiteral
  wellFormed : e'.WellFormed

structure TypeDecl.Reshaped (d d' : TypeDecl) : Prop where
  name : d'.name = d.name
  external : Option.Rel External.Reshaped (d.external.map Prod.snd) (d'.external.map Prod.snd)
  subset : d'.subset = d.subset
  wellFormed : d'.WellFormed

inductive Top.Reshaped (style : Style) : Top → Top → Prop where
  | misc (kind : MiscKind) (image : Text) : Reshaped style (.misc kind image) (.misc kind image)
  | doctype {decl decl' : TypeDecl} (h : decl.Reshaped decl') : Reshaped style (.doctype decl) (.doctype decl')
  | root {item item' : Item} (h : item.Reshaped style item') : Reshaped style (.root item) (.root item')

/-- What a document may be printed as. -/
structure Whole.Reshaped (style : Style) (w w' : Whole) : Prop where
  declaration : Option.Rel (Declaration.Reshaped style) w.declaration w'.declaration
  tops : List.Forall₂ (Top.Reshaped style) (w.tops.map Prod.snd) (w'.tops.map Prod.snd)
  gaps : ∀ top ∈ w'.tops, Blanks top.1
  tail_blanks : Blanks w'.tail

/-- What a node is printed as on a page. -/
inductive Top.Laid (style : Style) (page : Page) : Top → Top → Prop where
  | misc (kind : MiscKind) (image : Text) : Laid style page (.misc kind image) (.misc kind image)
  | doctype {decl decl' : TypeDecl} (h : decl.Reshaped decl') : Laid style page (.doctype decl) (.doctype decl')
  | root {item item' : Item} (h : item.Laid style page item') : Laid style page (.root item) (.root item')

theorem Top.Laid.reshaped {style : Style} {page : Page} {top top' : Top} (h : top.Laid style page top') :
    top.Reshaped style top' := by
  cases h with
  | misc kind image => exact .misc kind image
  | doctype h => exact .doctype h
  | root h => exact .root h.reshaped

/-- What a document is printed as on a page. -/
structure Whole.Laid (style : Style) (page : Page) (w w' : Whole) : Prop where
  declaration : Option.Rel (Declaration.Reshaped style) w.declaration w'.declaration
  tops : List.Forall₂ (Top.Laid style page) (w.tops.map Prod.snd) (w'.tops.map Prod.snd)
  gaps : ∀ top ∈ w'.tops, Blanks top.1
  tail_blanks : Blanks w'.tail

theorem Whole.Laid.reshaped {style : Style} {page : Page} {w w' : Whole} (h : w.Laid style page w') :
    w.Reshaped style w' :=
  ⟨h.declaration, h.tops.imp fun _ _ htop => htop.reshaped, h.gaps, h.tail_blanks⟩

/-! ### Declarations -/

theorem Declaration.Reshaped.doc {style : Style} {d d' : Declaration} (h : d.Reshaped style d') :
    d'.doc style = d.doc style := by
  have hstyled : d'.styled style = d.styled style := by
    have hmap : d'.styled style = (d'.attributes.map Attr.pair).map fun pair =>
        (pair.1, requote style.quotes pair.2) := by
      simp [Declaration.styled, Attr.pair]
    rw [hmap, h.pairs, Declaration.styled, List.map_map]
    simp [requote_requote]
  have hempty : d'.attributes.isEmpty = d.attributes.isEmpty := by
    have := congrArg List.isEmpty h.pairs
    simpa [Declaration.styled] using this
  rw [Declaration.doc, Declaration.doc, hstyled, hempty]

section Nodes

variable {style : Style} {page : Page} {depth : Nat} {mode : Mode} {k : Ahead} {p : Printed Text Int}

theorem of_mem_styled {d : Declaration} (hd : d.WellFormed) {pair : Text × Text}
    (hpair : pair ∈ d.styled style) : Name.IsName pair.1 ∧ Literal.IsLiteral (· != '<') pair.2 := by
  obtain ⟨a, ha, rfl⟩ := List.mem_map.1 hpair
  exact ⟨(hd.attributes a ha).name, isLiteral_requote style.quotes (hd.attributes a ha).value⟩

/-- What stands before the end of a declaration. -/
theorem run_endSpace (style : Style) (hp : p.Solid) :
    ∃ gap, Blanks gap ∧ Wrote p gap
      ((if style.selfClosingSpace then Doc.spaceLine else Doc.softLine).run page depth mode k p) := by
  split
  · obtain ⟨gap, hgap, hwrote⟩ := run_spaceLine hp
    exact ⟨gap, hgap.1, hwrote⟩
  · exact run_softLine hp

/-- A declaration up to its last attribute. -/
theorem runAll_declarationHead {d : Declaration} (hd : d.WellFormed) (rest : List Doc) :
    ∃ attrs q, PrintedAttrs attrs (d.styled style) ∧
      Wrote p (Cursor.prologStart ++ Attr.textAll attrs) q ∧ q.Solid ∧
      Doc.runAll page depth mode (.lit "<?xml" :: (if d.attributes.isEmpty then []
        else [Doc.indent (.concat [.spaceLine, .concat (Doc.join .spaceLine ((d.styled style).map attrDoc))])]) ++
          rest) k p = Doc.runAll page depth mode rest k q := by
  have hstart : Solid (p.write Cursor.prologStart) := solid_write p ⟨'l', rfl, rfl⟩
  cases hempty : d.attributes.isEmpty with
  | true =>
      have hnil : d.styled style = [] := by simp [Declaration.styled, List.isEmpty_iff.1 hempty]
      refine ⟨[], _, ⟨hnil.symm, by simp⟩, ?_, hstart, by simp [Doc.runAll, Doc.run_lit]; rfl⟩
      simpa [Attr.textAll] using wrote_write p Cursor.prologStart
  | false =>
      have hne : d.styled style ≠ [] := by
        simpa [Declaration.styled] using hempty
      obtain ⟨attrs, hattrs, hwrote, hend⟩ := run_attrs (fun hp => run_spaceLine hp) hne
        (fun x hx => solid_literal (of_mem_styled hd hx).2) hstart
      refine ⟨attrs, _, hattrs, ?_, hend, by simp [Doc.runAll, Doc.run_lit]; rfl⟩
      exact (wrote_write ..).trans hwrote

theorem run_declaration {d : Declaration} (hd : d.WellFormed) :
    ∃ d', d.Reshaped style d' ∧ Wrote p d'.text ((d.doc style).run page depth mode k p) := by
  rw [Declaration.doc, Doc.grouped, Doc.run, Doc.run]
  obtain ⟨attrs, q, hattrs, hwrote, hsolid, hrun⟩ := runAll_declarationHead hd
    [if style.selfClosingSpace then .spaceLine else .softLine, .lit "?>"]
  rw [hrun, Doc.runAll, Doc.runAll, Doc.runAll, Doc.run_lit]
  obtain ⟨gap, hgap, hwroteGap⟩ := run_endSpace style hsolid
  refine ⟨⟨attrs, gap⟩, ⟨hattrs.pairs, hattrs.wellFormed fun _ => of_mem_styled hd, hgap⟩, ?_⟩
  rw [Declaration.text, ← List.append_assoc]
  exact hwrote.trans (hwroteGap.trans (wrote_write ..))

/-! ### Document type declarations -/

theorem External.Reshaped.doc {e e' : External} (h : e.Reshaped e') : e'.doc = e.doc := by
  obtain ⟨hkeyword, hpublic, hsystem, -⟩ := h
  cases e with
  | systemId gap literal =>
      cases e' with
      | systemId gap' literal' =>
          obtain rfl : literal' = literal := by simpa [External.systemLiteral] using hsystem
          rfl
      | publicId gap' literal' system' => simp [External.keyword] at hkeyword
  | publicId gap literal system =>
      cases e' with
      | systemId gap' literal' => simp [External.keyword] at hkeyword
      | publicId gap' literal' system' =>
          obtain rfl : literal' = literal := by simpa [External.publicLiteral] using hpublic
          cases system with
          | none =>
              obtain rfl : system' = none := by simpa [External.systemLiteral] using hsystem
              rfl
          | some s =>
              obtain ⟨s', rfl, hs⟩ : ∃ s', system' = some s' ∧ s'.2 = s.2 := by
                simpa [External.systemLiteral, Option.map_eq_some_iff] using hsystem
              simp [External.doc, External.keyword, hs]

theorem TypeDecl.Reshaped.doc {d d' : TypeDecl} (h : d.Reshaped d') : d'.doc = d.doc := by
  obtain ⟨lead, name, external, before, subset, tail⟩ := d
  obtain ⟨lead', name', external', before', subset', tail'⟩ := d'
  obtain ⟨rfl, hexternal, rfl, -⟩ := h
  cases external with
  | none =>
      cases external' with
      | none => rfl
      | some e' => cases hexternal
  | some e =>
      cases external' with
      | none => cases hexternal
      | some e' =>
          cases hexternal with
          | some he => simp [TypeDecl.doc, TypeDecl.externalDocs, TypeDecl.subsetDocs, he.doc]

/-- A literal behind something that is printed. -/
theorem run_literalDoc {before : Doc} {R : Text → Prop}
    (hbefore : ∀ {mode k p}, ∃ t, R t ∧ t.Solid ∧ Wrote p t (before.run page depth mode k p))
    {literal : Text} (hliteral : literal.Solid) :
    ∃ t gap, R t ∧ IsGap gap ∧ (t ++ (gap ++ literal)).Solid ∧
      Wrote p (t ++ (gap ++ literal)) ((literalDoc before literal).run page depth mode k p) := by
  simp only [literalDoc, Doc.grouped, Doc.run, Doc.runAll]
  obtain ⟨t, ht, hsolid, hwrote⟩ := hbefore
  obtain ⟨gap, hgap, hwroteGap⟩ := run_spaceLine (hwrote.solid hsolid)
  refine ⟨t, gap, ht, hgap, (hliteral.append _).append _, ?_⟩
  exact hwrote.trans (hwroteGap.trans (wrote_write ..))

theorem run_external {e : External} (he : e.WellFormed) :
    ∃ e', e.Reshaped e' ∧ Wrote p e'.text (e.doc.run page depth mode k p) := by
  have hkeyword : ∀ {mode k p}, ∃ t, t = e.keyword.image ∧ Text.Solid t ∧
      Wrote p t ((Doc.text e.keyword.image).run page depth mode k p) := by
    intro mode k p
    refine ⟨_, rfl, ?_, by rw [Doc.run_text]; exact wrote_write ..⟩
    cases e.keyword
    · exact ⟨'M', rfl, rfl⟩
    · exact ⟨'C', rfl, rfl⟩
  cases e with
  | systemId gap literal =>
      obtain ⟨t, gap', rfl, ⟨hblanks, hne⟩, -, hwrote⟩ := run_literalDoc hkeyword (solid_literal he.literal)
      exact ⟨.systemId gap' literal, ⟨rfl, rfl, rfl, ⟨hblanks, hne, he.literal⟩⟩, hwrote⟩
  | publicId gap literal system =>
      obtain ⟨hpublic, hsystem⟩ := he
      have hbefore : ∀ {mode k p}, ∃ t, (∃ gap', IsGap gap' ∧
          t = Cursor.ExternalKeyword.publicId.image ++ (gap' ++ literal)) ∧ Text.Solid t ∧
          Wrote p t ((literalDoc (.text Cursor.ExternalKeyword.publicId.image) literal).run page depth mode
            k p) := by
        intro mode k p
        obtain ⟨t, gap', rfl, hgap, hsolid, hwrote⟩ := run_literalDoc hkeyword (solid_literal hpublic.literal)
        exact ⟨_, ⟨gap', hgap, rfl⟩, hsolid, hwrote⟩
      cases system with
      | none =>
          obtain ⟨t, ⟨gap', ⟨hblanks, hne⟩, rfl⟩, -, hwrote⟩ := @hbefore mode k p
          refine ⟨.publicId gap' literal none, ⟨rfl, rfl, rfl, ⟨hblanks, hne, hpublic.literal⟩, by simp⟩, ?_⟩
          rw [External.text, External.literals, External.optionText, List.append_nil]
          exact hwrote
      | some s =>
          have hs := hsystem s rfl
          obtain ⟨t, gap₂, ⟨gap', ⟨hblanks, hne⟩, rfl⟩, hgap₂, -, hwrote⟩ := run_literalDoc hbefore
            (solid_literal hs.literal)
          refine ⟨.publicId gap' literal (some (gap₂, s.2)), ⟨rfl, rfl, rfl, ⟨hblanks, hne, hpublic.literal⟩,
            fun s' hs' => ?_⟩, ?_⟩
          · obtain rfl : (gap₂, s.2) = s' := by simpa using hs'
            exact ⟨hgap₂.1, hgap₂.2, hs.literal⟩
          · rw [External.text, External.literals, External.optionText, ← List.append_assoc gap',
              ← List.append_assoc]
            exact hwrote

/-- The external identifier of a document type declaration, if there is one. -/
theorem runAll_external {d : TypeDecl} (hd : d.WellFormed) (rest : List Doc) :
    ∃ external' : Option (Text × External), ∃ q,
      Option.Rel External.Reshaped (d.external.map Prod.snd) (external'.map Prod.snd) ∧
      (∀ e ∈ external', Blanks e.1 ∧ e.1 ≠ [] ∧ e.2.WellFormed) ∧
      Wrote p (match external' with | none => [] | some (gap, e) => gap ++ e.text) q ∧
      Doc.runAll page depth mode (d.externalDocs ++ rest) k p = Doc.runAll page depth mode rest k q := by
  rw [TypeDecl.externalDocs]
  cases hexternal : d.external with
  | none => exact ⟨none, p, .none, by simp, wrote_nil p, rfl⟩
  | some e =>
      obtain ⟨e', he', hwrote⟩ := @run_external page depth mode (Doc.reachAll false mode rest k)
        (p.write [' ']) e.2 (hd.external e hexternal).2.2
      refine ⟨some ([' '], e'), _, .some he', fun x hx => ?_, (wrote_write p [' ']).trans hwrote, ?_⟩
      · obtain rfl : ([' '], e') = x := by simpa using hx
        exact ⟨isGap_space.1, isGap_space.2, he'.wellFormed⟩
      · simp only [List.cons_append, List.nil_append, Doc.runAll, Doc.run_text]

/-- The internal subset of a document type declaration, if there is one. -/
theorem runAll_subset (d : TypeDecl) (rest : List Doc) :
    ∃ before q, Blanks before ∧ Wrote p (before ++ d.subsetText) q ∧
      Doc.runAll page depth mode (d.subsetDocs ++ rest) k p = Doc.runAll page depth mode rest k q := by
  rw [TypeDecl.subsetDocs]
  cases hsubset : d.subset with
  | none => exact ⟨[], p, blanks_nil, by rw [TypeDecl.subsetText, hsubset]; exact wrote_nil p, rfl⟩
  | some s =>
      refine ⟨[' '], (p.write [' ']).write s, isGap_space.1, ?_, ?_⟩
      · rw [TypeDecl.subsetText, hsubset]
        exact (wrote_write p [' ']).trans (wrote_write _ s)
      · simp only [List.cons_append, List.nil_append, Doc.runAll, Doc.run_text, Doc.run_verbatim]

theorem run_doctype {d : TypeDecl} (hd : d.WellFormed) :
    ∃ d', d.Reshaped d' ∧ Wrote p d'.text (d.doc.run page depth mode k p) := by
  rw [TypeDecl.doc, Doc.grouped, Doc.run, Doc.run]
  generalize Doc.groupMode page mode _ false k p = inner
  simp only [List.append_assoc, List.cons_append, List.nil_append, Doc.runAll, Doc.run_lit, Doc.run_text]
  obtain ⟨external', q, hrel, hwf, hwrote, hrun⟩ := runAll_external hd _
  rw [hrun]
  obtain ⟨before, r, hbefore, hwroteSubset, hrunSubset⟩ := runAll_subset d _
  rw [hrunSubset]
  simp only [Doc.runAll, Doc.run_text]
  refine ⟨⟨[' '], d.name, external', before, d.subset, []⟩, ⟨rfl, hrel, rfl, ?_⟩, ?_⟩
  · exact ⟨isGap_space.1, isGap_space.2, hd.name, hwf, hbefore, hd.subset, blanks_nil⟩
  · rw [TypeDecl.text]
    exact (wrote_write p Cursor.doctypeStart).trans ((wrote_write _ [' ']).trans ((wrote_write _ d.name).trans
      (hwrote.trans (by rw [← List.append_assoc]; exact hwroteSubset.trans (wrote_write r ['>'])))))

/-! ### Nodes on lines of their own -/

theorem Top.Reshaped.wellFormed {top top' : Top} (h : top.Reshaped style top') (htop : top.WellFormed) :
    top'.WellFormed := by
  cases h with
  | misc kind image => exact htop
  | doctype h => exact h.wellFormed
  | root h =>
      refine ⟨?_, h.wellFormed htop.2⟩
      rcases h.alike with rfl | ⟨-, helement⟩
      · exact htop.1
      · exact helement

theorem Top.Reshaped.before {a a' b b' : Top} (ha : a.Reshaped style a') (hb : b.Reshaped style b')
    (h : a.Before b) : a'.Before b' := by
  cases ha <;> cases hb <;> exact h

theorem solid_angle (t : Text) : Text.Solid (t ++ ['>']) := Text.solid_concat rfl t

/-- A node ends with a bracket. -/
theorem Top.solid_text {top : Top} (h : top.WellFormed) : top.text.Solid := by
  cases top with
  | misc kind image =>
      have hleaf : (Item.leaf (leafClass kind) image).WellFormed := by
        rw [Item.WellFormed]
        exact h
      have hsolid := solid_of_not_text hleaf (by cases kind <;> rfl) (by cases kind <;> rfl)
      rwa [Item.text] at hsolid
  | doctype decl =>
      rw [Top.text, TypeDecl.text]
      exact ((((((solid_angle _).append _).append _).append _).append _).append _).append _
  | root item =>
      refine solid_of_not_text h.2 ?_ ?_ <;> cases item <;> first | rfl | exact h.1.elim

theorem run_top {top : Top} (h : top.WellFormed) (hclean : top.text.Clean) (page : Page) {p : Printed Text Int}
    (hp : 0 ≤ p.column) :
    ∃ top', top.Laid style page top' ∧ Wrote p top'.text ((top.doc style).run page 0 .broken .clear p) ∧
      (Suits style page →
        (top'.doc style).run page 0 .broken .clear p = (top.doc style).run page 0 .broken .clear p) := by
  cases top with
  | misc kind image =>
      refine ⟨.misc kind image, .misc kind image, ?_, fun _ => rfl⟩
      rw [Top.doc, Doc.run_text]
      exact wrote_write ..
  | doctype decl =>
      obtain ⟨decl', hdecl, hwrote⟩ := @run_doctype page 0 .broken .clear p decl h
      exact ⟨.doctype decl', .doctype hdecl, hwrote, fun _ => by rw [Top.doc, Top.doc, hdecl.doc]⟩
  | root item =>
      obtain ⟨item', hitem, hwrote, hagain⟩ := h.2.prints hclean page 0 .broken .clear p
      exact ⟨.root item', .root hitem, hwrote, fun hsuits =>
        (hagain hsuits ⟨Ahead.regular_clear, hp, by simp⟩).run_eq⟩

theorem newLineText_zero (page : Page) : newLineText page 0 = ['\n'] := by
  simp [newLineText, Page.indentation, blanks]

/-- Documents behind a first one, each on lines of its own. -/
def behind (docs : List Doc) : List Doc := docs.flatMap fun doc => [.hardLine, doc]

theorem join_hardLine (doc : Doc) (docs : List Doc) :
    Doc.join .hardLine (doc :: docs) = doc :: behind docs := by
  induction docs generalizing doc with
  | nil => rfl
  | cons next docs ih =>
      rw [Doc.join, List.intersperse_cons_cons, ← Doc.join, ih]
      rfl

theorem reachAll_behind (docs : List Doc) : Doc.reachAll false .broken (behind docs) .clear = .clear := by
  cases docs with
  | nil => rfl
  | cons doc docs => exact reachAll_behind_clusters ..

/-- What is printed for nodes behind others. -/
theorem runAll_tops {tops : List (Text × Top)} (h : ∀ top ∈ tops, top.2.WellFormed)
    (hclean : ∀ top ∈ tops, top.2.text.Clean) (page : Page) {p : Printed Text Int} (hp : p.Solid) :
    ∃ tops', List.Forall₂ (Top.Laid style page) (tops.map Prod.snd) (tops'.map Prod.snd) ∧
      (∀ top ∈ tops', top.1 = ['\n']) ∧
      Wrote p (Whole.topsText tops')
        (Doc.runAll page 0 .broken (behind (tops.map fun top => top.2.doc style)) .clear p) ∧
      (Doc.runAll page 0 .broken (behind (tops.map fun top => top.2.doc style)) .clear p).Solid ∧
      (Suits style page →
        Doc.runAll page 0 .broken (behind (tops'.map fun top => top.2.doc style)) .clear p =
          Doc.runAll page 0 .broken (behind (tops.map fun top => top.2.doc style)) .clear p) := by
  induction tops generalizing p with
  | nil => exact ⟨[], .nil, by simp, wrote_nil p, hp, fun _ => rfl⟩
  | cons top tops ih =>
      have hbehind : ∀ (top : Text × Top) (tops : List (Text × Top)),
          Doc.runAll page 0 .broken (behind ((top :: tops).map fun top => top.2.doc style)) .clear p =
          Doc.runAll page 0 .broken (behind (tops.map fun top => top.2.doc style)) .clear
            ((top.2.doc style).run page 0 .broken .clear (p.newLine page 0)) := by
        intro top tops
        simp only [behind, List.map_cons, List.flatMap_cons, List.cons_append, List.nil_append, Doc.runAll,
          Doc.run_hardLine hp]
        rw [← behind, reachAll_behind]
      have hcolumn : 0 ≤ (p.newLine page 0).column := Int.natCast_nonneg (0 * page.tabWidth)
      obtain ⟨top', htop, hwrote, hagain⟩ := @run_top style top.2 (h top (by simp)) (hclean top (by simp)) page
        _ hcolumn
      have hsolid := hwrote.solid (Top.solid_text (htop.reshaped.wellFormed (h top (by simp))))
      obtain ⟨tops', htops, hgaps, hwrote', hsolid', hagain'⟩ := ih
        (fun top htop => h top (by simp [htop])) (fun top htop => hclean top (by simp [htop])) hsolid
      refine ⟨(['\n'], top') :: tops', .cons htop htops, ?_, ?_, ?_, fun hsuits => ?_⟩
      · simpa using hgaps
      · rw [hbehind, Whole.topsText, List.flatMap_cons]
        have hline := wrote_newLine page 0 p
        rw [newLineText_zero] at hline
        exact (hline.trans hwrote).trans hwrote'
      · rw [hbehind]
        exact hsolid'
      · rw [hbehind, hbehind, hagain hsuits, hagain' hsuits]

end Nodes

/-! ### Documents -/

theorem Whole.Reshaped.wellFormed_tops {style : Style} {w w' : Whole} (h : w.Reshaped style w')
    (hw : w.WellFormed) : ∀ top ∈ w'.tops, Blanks top.1 ∧ top.2.WellFormed := by
  have htops : ∀ top ∈ w.tops.map Prod.snd, top.WellFormed := by
    intro top htop
    obtain ⟨x, hx, rfl⟩ := List.mem_map.1 htop
    exact (hw.tops x hx).2
  intro top htop
  refine ⟨h.gaps top htop, ?_⟩
  exact forall_of_forall₂ h.tops (fun t ht t' hr => hr.wellFormed (htops t ht)) top.2
    (List.mem_map_of_mem htop)

theorem Whole.Reshaped.wellFormed {style : Style} {w w' : Whole} (h : w.Reshaped style w')
    (hw : w.WellFormed) (hd : ∀ d ∈ w'.declaration, d.attributes = [] → d.tail ≠ []) : w'.WellFormed := by
  have hreshaped := h.tops
  have horder := hw.order
  refine ⟨fun d' hd' => ?_, h.wellFormed_tops hw, ?_, h.tail_blanks⟩
  · have hrel := h.declaration
    rw [Option.mem_def.1 hd'] at hrel
    generalize w.declaration = declaration at hrel
    cases hrel with
    | some hdecl => exact ⟨hdecl.attributes, hdecl.tail_blanks, hd d' hd'⟩
  · generalize w.tops.map Prod.snd = tops at hreshaped horder
    generalize w'.tops.map Prod.snd = tops' at hreshaped
    induction hreshaped with
    | nil => exact .nil
    | cons hfirst hrest ih =>
        obtain ⟨hbefore, horder⟩ := List.pairwise_cons.1 horder
        exact .cons (forall_of_forall₂ hrest fun t ht t' hr => hfirst.before hr (hbefore t ht)) (ih horder)

theorem text_of_wrote {t : Text} {q : Printed Text Int} (h : Wrote .empty t q) : q.text = t := by
  rw [Wrote] at h
  simp [Printed.text, h, Printed.empty_text]

/-- A document whose first node is printed before the others. -/
theorem run_lines {style : Style} {w : Whole} {doc : Doc} {docs : List Doc} (hdocs : w.docs style = doc :: docs)
    (page : Page) {q : Printed Text Int} (hq : q.Solid)
    (h : Doc.runAll page 0 .broken (behind docs) .clear (doc.run page 0 .broken .clear .empty) = q) :
    (w.doc style).run page 0 .broken .clear .empty = q.newLine page 0 := by
  simp only [Whole.doc, Doc.run, Doc.runAll, Doc.reachAll, Doc.reach_hardLine, hdocs, join_hardLine,
    reachAll_behind, h, Doc.run_hardLine hq]

/-- What is printed for a document is the text of a document that it may be printed as. On a page that suits
the style, that one is printed just so. -/
theorem run_whole {style : Style} {w : Whole} (hw : w.WellFormed) (hclean : w.text.Clean) (page : Page) :
    ∃ w', w.Laid style page w' ∧ ((w.doc style).run page 0 .broken .clear .empty).text = w'.text ∧
      (Suits style page →
        (w'.doc style).run page 0 .broken .clear .empty = (w.doc style).run page 0 .broken .clear .empty) := by
  obtain ⟨declaration, tops, tail⟩ := w
  have htops : ∀ top ∈ tops, top.2.WellFormed := fun top htop => (hw.tops top htop).2
  have hcleans : ∀ top ∈ tops, top.2.text.Clean := fun top htop => clean_top hclean htop
  have hline : Blanks ['\n'] := by simp [Blanks, isBlank]
  have hend : ∀ {t : Text} {q : Printed Text Int}, Wrote .empty t q →
      (q.newLine page 0).text = t ++ ['\n'] := by
    intro t q h
    have hnewLine := wrote_newLine page 0 q
    rw [newLineText_zero] at hnewLine
    exact text_of_wrote (h.trans hnewLine)
  cases declaration with
  | none =>
      cases tops with
      | nil =>
          refine ⟨⟨none, [], ['\n']⟩, ⟨.none, .nil, by simp, hline⟩, ?_, fun _ => rfl⟩
          simp only [Whole.doc, Whole.docs, Option.map_none, Option.toList_none, List.map_nil, List.append_nil,
            Doc.join, List.intersperse_nil, Doc.run, Doc.runAll, Doc.run_hardLine solid_empty]
          exact hend (wrote_nil _)
      | cons top tops =>
          obtain ⟨top', htop, hwrote, hagain⟩ := @run_top style top.2 (htops top (by simp)) (hcleans top (by simp))
            page .empty (Int.le_refl 0)
          have hsolid := hwrote.solid (Top.solid_text (htop.reshaped.wellFormed (htops top (by simp))))
          obtain ⟨tops', hlaid, hgaps, hwrote', hsolid', hagain'⟩ :=
            @runAll_tops style tops (fun t ht => htops t (by simp [ht]))
              (fun t ht => hcleans t (by simp [ht])) page _ hsolid
          rw [run_lines rfl page hsolid' rfl]
          refine ⟨⟨none, ([], top') :: tops', ['\n']⟩, ⟨.none, .cons htop hlaid, ?_, hline⟩, ?_,
            fun hsuits => ?_⟩
          · refine List.forall_mem_cons.2 ⟨blanks_nil, fun t ht => ?_⟩
            rw [hgaps t ht]
            exact hline
          · rw [hend (hwrote.trans hwrote')]
            simp [Whole.text, Whole.declarationText, Whole.topsText]
          · exact run_lines rfl page hsolid' (by rw [hagain hsuits, hagain' hsuits])
  | some d =>
      obtain ⟨d', hd, hwrote⟩ := @run_declaration style page 0 .broken .clear .empty d (hw.declaration d rfl)
      have hsolid : d'.text.Solid := by
        rw [Declaration.text]
        exact (((solid_angle ['?']).append _).append _).append _
      obtain ⟨tops', hlaid, hgaps, hwrote', hsolid', hagain⟩ :=
        @runAll_tops style tops htops hcleans page _ (hwrote.solid hsolid)
      rw [run_lines rfl page hsolid' rfl]
      refine ⟨⟨some d', tops', ['\n']⟩, ⟨.some hd, hlaid, fun t ht => ?_, hline⟩, ?_, fun hsuits => ?_⟩
      · rw [hgaps t ht]
        exact hline
      · rw [hend (hwrote.trans hwrote')]
        simp [Whole.text, Whole.declarationText]
      · have hdocs : Whole.docs style ⟨some d', tops', ['\n']⟩ =
            d.doc style :: tops'.map fun top => top.2.doc style := by
          simp [Whole.docs, hd.doc]
        exact run_lines hdocs page hsolid' (hagain hsuits)

end Spelled

end XmlTidy
