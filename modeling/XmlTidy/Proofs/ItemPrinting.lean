import XmlTidy.Proofs.LayoutShape
import XmlTidy.Proofs.ReflowPrinting

/-!
What is printed for an item. By induction over the item: it is the text of an item that it may be printed
as, and on a page that suits the style that item can take its place, wherever it is printed, at any depth
and in any mode.
-/

namespace XmlTidy

namespace Spelled

open Printed

/-- What is printed for an item. -/
def Item.Prints (style : Style) (item : Item) : Prop :=
  ∀ page depth mode k p, ∃ item', item.Laid style page item' ∧
    Wrote p item'.text ((item.doc style).run page depth mode k p) ∧
    (Suits style page → Doc.Placed page mode k p (item.doc style) →
      Doc.Reprints page depth mode k p (item.doc style) (item'.doc style))

section Printing

variable {style : Style}

/-- Among others that are reflowed, an item is printed as it is elsewhere, apart from text. -/
theorem Item.Prints.flows {item : Item} (h : item.Prints style) (hwf : item.WellFormed)
    (hblank : item.isBlankRun = false) : item.Flows style := by
  refine ⟨hwf, fun page depth mode k p => ?_⟩
  cases htext : item.isText with
  | true =>
      obtain ⟨image, rfl⟩ := exists_of_isText htext
      rw [Item.WellFormed] at hwf
      obtain ⟨image', himage, htokens, ⟨c, hlast, hc⟩, hwrote⟩ := @run_textDoc page depth mode k image hwf p
      have hsolid := solid_of_getLast? hlast hc
      refine ⟨.leaf .text image', .text htokens, by rwa [Item.WellFormed], by rwa [Item.text], ?_,
        by rwa [Item.text], by simp⟩
      refine .item rfl rfl (endsBlank_of_getLast? hlast hc) ?_
      rw [Item.text, hlast]
      intro hnewline
      obtain rfl := Option.some.inj hnewline
      cases hc
  | false =>
      obtain ⟨item', hlaid, hwrote, hagain⟩ := h page depth mode k p
      have hreshaped := hlaid.reshaped
      have htext' := hreshaped.alike.isText_eq.trans htext
      have hwf' := hreshaped.wellFormed hwf
      have hflowed : Flowed (Item.Laid style page) item item' := .other htext hlaid
      rw [flow_of_not_text htext]
      refine ⟨item', hflowed, hwf', ?_, hflowed.reshaped.follows hwf' hblank htext, hwrote, fun _ hsuits hplaced => ?_⟩
      · exact solid_of_not_text hwf' (hreshaped.alike.isBlankRun_eq.trans hblank) htext'
      · rw [flow_of_not_text htext']
        exact hagain hsuits hplaced

/-! ### Kept children -/

/-- What is printed for a piece. -/
theorem run_piece {piece : Piece} (h : ∀ item ∈ piece.items, item.Prints style) (page : Page) (depth : Nat)
    (mode : Mode) (k : Ahead) (p : Printed Text Int) :
    ∃ piece', piece.Reshaped (Item.Laid style page) piece' ∧
      Wrote p (Item.textAll piece'.items) ((piece.doc (Item.doc style)).run page depth mode k p) ∧
      (Suits style page → Doc.Placed page mode k p (piece.doc (Item.doc style)) →
        Doc.Reprints page depth mode k p (piece.doc (Item.doc style)) (piece'.doc (Item.doc style))) := by
  cases piece with
  | range items =>
      refine ⟨.range items, .range items, ?_, fun _ hplaced => hplaced.refl⟩
      rw [Piece.doc, Doc.run_verbatim]
      exact wrote_write ..
  | pair blanks text =>
      refine ⟨.pair blanks text, .pair blanks text, ?_, fun _ hplaced => hplaced.refl⟩
      simp only [Piece.doc, Doc.grouped, Doc.run, Doc.runAll, Doc.run_verbatim, write_write, Piece.items,
        Item.textAll, List.append_nil]
      exact wrote_write ..
  | single item =>
      obtain ⟨item', hlaid, hwrote, hagain⟩ := h item (by simp [Piece.items]) page depth mode k p
      exact ⟨.single item', .single hlaid, by simpa [Piece.items, Piece.doc, Item.textAll] using hwrote, hagain⟩

/-- What is printed for pieces one behind the other. -/
theorem runAll_pieces {ps : List Piece} (h : ∀ piece ∈ ps, ∀ item ∈ piece.items, item.Prints style)
    (hneat : ∀ piece ∈ ps, (piece.doc (Item.doc style)).Neat) (page : Page) (depth : Nat) (mode : Mode) (k : Ahead)
    (p : Printed Text Int) :
    ∃ ps', List.Forall₂ (Piece.Reshaped (Item.Laid style page)) ps ps' ∧
      Wrote p (Item.textAll (ps'.flatMap Piece.items))
        (Doc.runAll page depth mode (ps.map (Piece.doc (Item.doc style))) k p) ∧
      (Suits style page → Doc.Placed page mode k p (.concat (ps.map (Piece.doc (Item.doc style)))) →
        Doc.Reprints page depth mode k p (.concat (ps.map (Piece.doc (Item.doc style))))
          (.concat (ps'.map (Piece.doc (Item.doc style))))) := by
  induction ps generalizing p with
  | nil => exact ⟨[], .nil, wrote_nil p, fun _ hplaced => hplaced.refl⟩
  | cons piece ps ih =>
      rw [List.map_cons, Doc.runAll]
      obtain ⟨piece', hpiece, hwrote, hagain⟩ := run_piece (h piece (by simp)) page depth mode
        (Doc.reachAll false mode (ps.map (Piece.doc (Item.doc style))) k) p
      obtain ⟨ps', hps, hwrote', hagain'⟩ := ih (fun piece hpiece => h piece (by simp [hpiece]))
        (fun piece hpiece => hneat piece (by simp [hpiece])) ((piece.doc (Item.doc style)).run page depth mode
          (Doc.reachAll false mode (ps.map (Piece.doc (Item.doc style))) k) p)
      refine ⟨piece' :: ps', .cons hpiece hps, ?_, fun hsuits hplaced => ?_⟩
      · rw [List.flatMap_cons, textAll_append]
        exact hwrote.trans hwrote'
      · exact (hagain hsuits hplaced.head).cons
          (hagain' hsuits (hplaced.tail (hneat piece (by simp)) depth))

theorem neat_keptContent {ps : List Piece} (hneat : ∀ piece ∈ ps, (piece.doc (Item.doc style)).Neat)
    (reflows : Bool) : (keptContent reflows (ps.map (Piece.doc (Item.doc style)))).Neat := by
  have hdocs : (Doc.concat (ps.map (Piece.doc (Item.doc style)))).Neat := .concat (List.forall_mem_map.2 hneat)
  cases reflows with
  | true => exact hdocs
  | false => exact .indent (.group hdocs false)

/-- What is printed for kept children. -/
theorem run_keptContent {ps : List Piece} (h : ∀ piece ∈ ps, ∀ item ∈ piece.items, item.Prints style)
    (hneat : ∀ piece ∈ ps, (piece.doc (Item.doc style)).Neat) (reflows : Bool) (page : Page) (depth : Nat)
    (mode : Mode) (k : Ahead) (p : Printed Text Int) :
    ∃ ps', List.Forall₂ (Piece.Reshaped (Item.Laid style page)) ps ps' ∧
      Wrote p (Item.textAll (ps'.flatMap Piece.items))
        ((keptContent reflows (ps.map (Piece.doc (Item.doc style)))).run page depth mode k p) ∧
      (Suits style page → Doc.Placed page mode k p (keptContent reflows (ps.map (Piece.doc (Item.doc style)))) →
        Doc.Reprints page depth mode k p (keptContent reflows (ps.map (Piece.doc (Item.doc style))))
          (keptContent reflows (ps'.map (Piece.doc (Item.doc style))))) := by
  cases reflows with
  | true => exact runAll_pieces h hneat page depth mode k p
  | false =>
      simp only [keptContent, Bool.false_eq_true, if_false]
      obtain ⟨ps', hps, hwrote, hagain⟩ := runAll_pieces h hneat page (depth + 1)
        (Doc.groupMode page mode (.concat (ps.map (Piece.doc (Item.doc style)))) false k p) k p
      refine ⟨ps', hps, hwrote, fun hsuits hplaced => ?_⟩
      have hgroup := hplaced.of_indent
      exact (Doc.Reprints.grouped hgroup (hagain hsuits hgroup.group)).indent

/-- An element with kept children. -/
theorem prints_kept {tag : Open} {children : List Item} {endTail : Text} (htag : tag.WellFormed)
    (hcleanTag : tag.text.Clean) (hclean : (Item.textAll children).Clean)
    (hchildren : ∀ child ∈ children, child.Prints style) (hne : children ≠ [])
    (hkeeps : tag.keeps style children = true) : (Item.full tag children endTail).Prints style := by
  intro page depth mode k p
  have hpieces : ∀ piece ∈ pieces style.markers true children, ∀ item ∈ piece.items, item.Prints style := by
    intro piece hpiece item hitem
    refine hchildren item ?_
    rw [← flatMap_pieces style.markers true children]
    exact List.mem_flatMap.2 ⟨piece, hpiece, hitem⟩
  have hneat : ∀ piece ∈ pieces style.markers true children, (piece.doc (Item.doc style)).Neat := by
    intro piece hpiece
    have hcleans := fun child hchild => @clean_of_mem children hclean child hchild
    exact neat_keptDocs (fun child hchild => ⟨hcleans child hchild, Item.neat (hcleans child hchild)⟩) _
      (List.mem_map.2 ⟨piece, hpiece, rfl⟩)
  rw [Item.doc_full, elementDoc_kept hne hkeeps, keptDocs]
  generalize hcontents : Doc.concat _ = contents
  rw [Doc.grouped, Doc.run]
  generalize hmode : Doc.groupMode page mode contents false k p = inner
  subst hcontents
  simp only [Doc.run, Doc.runAll, run_closeDoc]
  generalize hahead : Doc.reachAll false inner [keptContent _ _, _] k = ahead
  obtain ⟨tag', htag', hwroteTag⟩ := @run_bareDoc style tag page depth inner ahead p htag
  generalize hq : (tag.bareDoc style).run page depth inner ahead p = q at hwroteTag ⊢
  obtain ⟨ps, hps, hwrote, hagain⟩ := run_keptContent hpieces hneat (tag.reflows style children) page depth inner
    (Doc.reachAll false inner [tag.closeDoc] k) q
  obtain ⟨-, hdoc'⟩ := @kept_docs style tag tag' children endTail ps htag' hne hkeeps
    (hps.imp fun _ _ h => h.imp fun _ _ _ h => h.reshaped)
  refine ⟨.full tag' (ps.flatMap Piece.items) [], .kept htag' hne hkeeps hps, ?_, fun hsuits hplaced => ?_⟩
  · rw [Item.text, htag'.name, List.append_cons]
    exact hwroteTag.trans (hwrote.trans (wrote_write ..))
  · rw [hdoc']
    refine .grouped hplaced ?_
    have hinner := hplaced.group
    rw [hmode] at hinner ⊢
    have hbehind := hinner.tail (neat_bareDoc hcleanTag) depth
    refine hinner.head.refl.cons ?_
    rw [hahead, hq] at hbehind ⊢
    exact (hagain hsuits hbehind.head).cons (hbehind.tail (neat_keptContent hneat _) depth).refl

/-! ### Reflowed children -/

/-- What is printed for an element with reflowed children: the open tag and the clusters, and the end tag on
a line of its own. -/
theorem run_reflowedDoc {tag : Open} {e : Entry} {es : List Entry}
    (h : ¬(es = [] ∧ e.item.isText = true)) (page : Page) (depth : Nat) (mode : Mode) (k : Ahead)
    (p : Printed Text Int) {q : Printed Text Int} (hq : q.Solid)
    (hrun : Doc.runAll page (depth + 1) .broken
        ((attachment (Item.flow style) (e :: es)).2.map Cluster.layout) .clear
        ((tag.openDoc style (attachment (Item.flow style) (e :: es)).1).run page depth .broken .clear p) = q) :
    (reflowedDoc style tag (Item.doc style) (e :: es)).run page depth mode k p =
      (q.newLine page depth).write (Item.endTag tag.name []) := by
  have hforces := @forces_reflowed style tag (Item.doc style) e es h
  rw [reflowedDoc_of_not_single h, Doc.grouped, Doc.forces_group] at hforces
  rw [reflowedDoc_of_not_single h, Doc.grouped, Doc.run, Doc.groupMode, if_pos hforces]
  simp only [Doc.run, Doc.runAll, Doc.reachAll, Doc.reach, Doc.reach_hardLine, reachAll_attachment, hrun,
    Doc.run_hardLine hq, run_closeDoc]

/-- An element with reflowed children can take the place of another one with the same tag: neither takes up
room behind the tag, and neither fits on a line. -/
theorem reprints_reflowed {tag tag' : Open} (htag : tag.Reshaped style tag') {e e' : Entry} {es es' : List Entry}
    (h : ¬(es = [] ∧ e.item.isText = true)) (h' : ¬(es' = [] ∧ e'.item.isText = true)) {page : Page}
    {depth : Nat} {mode : Mode} {k : Ahead} {p : Printed Text Int}
    (hplaced : Doc.Placed page mode k p (reflowedDoc style tag (Item.doc style) (e :: es)))
    (hrun : (reflowedDoc style tag' (Item.doc style) (e' :: es')).run page depth mode k p =
      (reflowedDoc style tag (Item.doc style) (e :: es)).run page depth mode k p) :
    Doc.Reprints page depth mode k p (reflowedDoc style tag (Item.doc style) (e :: es))
      (reflowedDoc style tag' (Item.doc style) (e' :: es')) := by
  refine ⟨⟨fun k => ?_, fun hfree => ?_⟩, fun hmode => ?_, hrun⟩
  · rw [reach_reflowed h, reach_reflowed h', htag.bareDoc]
  · rw [forces_reflowed h'] at hfree
    cases hfree
  · have hfree := (hplaced.fits hmode).1
    rw [forces_reflowed h] at hfree
    cases hfree

/-- Entries that are printed behind the open tag of an element, with blanks behind them, make up what is
printed for it. -/
theorem exists_reflowed {tag tag' : Open} {children : List Item} (endTail : Text)
    (hchildren : Item.WellFormedAll children) (htag : tag.Reshaped style tag')
    (hkeeps : tag.keeps style children = false) (hne : solids children ≠ []) {page : Page} {depth : Nat}
    {es : List Entry} (hes : List.Forall₂ (Entry.Laid style page) (entries [] children) es)
    (hfirst : ∀ e ∈ (entries [] children).head?, ∀ e' ∈ es.head?, e.Opens page depth e')
    (hgaps : List.Forall₂ (Neighbours.Laid page depth) (neighbours [] (entries [] children)) (neighbours [] es))
    {tail : Text} (htail : Blanks tail) :
    ∃ children', (Item.full tag children endTail).Laid style page (.full tag' children' []) ∧
      (Item.full tag' children' []).text =
        tag'.text ++ '>' :: entriesText es ++ (tail ++ Item.endTag tag.name []) ∧
      (Item.full tag' children' []).doc style =
        reflowedDoc style tag' (Item.doc style) (settle tail false es) := by
  obtain ⟨children', hwf, htext, hlaid, hentries⟩ := exists_children hchildren hes htail
  have hplaces := neighbours_settle (forall_of_forall₂ hes fun _ _ _ he => ⟨he.trimmed, he.gap⟩) tail []
  rw [← hentries] at hplaces
  have hgaps' := forall₂_trans hgaps hplaces fun _ _ _ h hsame => h.of_samePlace hsame
  have hfirst' : ∀ e ∈ (entries [] children).head?, ∀ e' ∈ (entries [] children').head?, e.Opens page depth e' := by
    rw [hentries]
    cases es with
    | nil => simp [settle]
    | cons first rest =>
        intro e he e' he'
        obtain rfl := Option.some.inj he'
        exact hfirst e he first rfl
  refine ⟨children', .reflowed depth htag hkeeps hne hwf hfirst' hgaps' hlaid, ?_, ?_⟩
  · rw [Item.text, htext, htag.name]
    simp
  · have hflow : List.Forall₂ (Flowed (Item.Reshaped style)) (solids children) (solids children') :=
      hlaid.imp fun _ _ h => h.reshaped
    have hkeeps' := (htag.keeps_eq (hasRange_flowed hflow style.markers)
      (any_isText_flowed hflow)).trans hkeeps
    rw [Item.doc_full, elementDoc_reflowed hkeeps', hentries]

/-! ### A single text -/

/-- A text alone in an element can take the place of the text that it is printed for. -/
theorem reprints_text {page : Page} (heven : page.Even) {image image' : Text} (htrim : image'.trim = image')
    {depth : Nat} {mode : Mode} {k ahead : Ahead} {p : Printed Text Int}
    (himage : image' = wrapText page depth (Doc.softLine.run page depth mode ahead p).column image.trim)
    (hplaced : Doc.Placed page mode k p (.concat [.softLine, textDoc image])) :
    Doc.Reprints page depth mode k p (.concat [.softLine, textDoc image]) (.concat [.softLine, textDoc image']) := by
  have hforces : ∀ image, (Doc.concat [.softLine, textDoc image]).forces = (textRoom image).isNone := by
    intro image
    simp [Doc.forces_concat, forces_textDoc, Doc.softLine]
  have hsoft : ∀ k, Doc.softLine.run page depth mode k p = Doc.softLine.run page depth mode ahead p := by
    intro k
    simp only [Doc.softLine, Doc.run]
  refine ⟨⟨fun k => ?_, fun hfree => ?_⟩, fun hmode => ?_, ?_⟩
  · simp [Doc.reach, Doc.reachAll, Doc.softLine]
  · rw [hforces] at hfree
    rcases textDoc_again htrim himage with hroom | ⟨hroom, hdoc⟩
    · rw [hroom] at hfree
      cases hfree
    · rw [hforces, ← hroom, hdoc]
      exact ⟨hfree, fun _ => rfl⟩
  · subst hmode
    -- the text fits on the line, so it is not wrapped
    have htext := (hplaced.tail neat_softLine depth).head
    rw [hsoft] at htext
    obtain ⟨hfree, hreach⟩ := htext.fits rfl
    rw [forces_textDoc] at hfree
    obtain ⟨n, hroom⟩ := Option.isSome_iff_exists.1 (Option.isNone_eq_false_iff.1 hfree)
    rw [reach_textDoc hroom] at hreach
    have hfits := htext.regular.nonneg hreach
    obtain ⟨⟨hroom', -⟩, -⟩ := textDoc_fits htrim hroom (by omega) himage
    rw [hforces, hroom']
    rfl
  · simp only [Doc.run, Doc.runAll, hsoft, run_textDoc_eq heven, htrim]
    rw [himage, wrapText_wrapText heven]

/-- The layout of an element whose only child is a text, on a line of its own if it does not fit. -/
def Open.textDoc (style : Style) (o : Open) (image : Text) : Doc :=
  .grouped (.concat [o.bareDoc style, .indent (.concat [.softLine, Spelled.textDoc image]), .softLine, o.closeDoc])

/-- What is printed for an element whose only child is a text. -/
theorem run_single {tag : Open} (htag : tag.WellFormed) (hclean : tag.text.Clean) {image : Text}
    (himage : LeafClass.Image .text image) (hcleanImage : image.Clean) (page : Page) (depth : Nat) (mode : Mode)
    (k : Ahead) (p : Printed Text Int) :
    ∃ tag' gap image' tail, tag.Reshaped style tag' ∧ Blanks gap ∧ LeafClass.Image .text image' ∧
      image'.endsBlank = false ∧ image'.tokens = image.tokens ∧ Blanks tail ∧
      Wrote p (tag'.text ++ ['>'] ++ (gap ++ (image' ++ (tail ++ Item.endTag tag.name []))))
        ((tag.textDoc style image).run page depth mode k p) ∧
      (page.Even → Doc.Placed page mode k p (tag.textDoc style image) →
        Doc.Reprints page depth mode k p (tag.textDoc style image) (tag'.textDoc style image')) := by
  simp only [Open.textDoc, Doc.grouped, Doc.run, Doc.runAll, run_closeDoc]
  generalize hinner : Doc.groupMode page mode _ false k p = inner
  generalize hahead : Doc.reachAll false inner [Doc.indent _, .softLine, _] k = ahead
  generalize Doc.reachAll false inner [textDoc image] _ = aheadText
  generalize Doc.reachAll false inner [] _ = aheadTail
  generalize Doc.reachAll false inner [tag.closeDoc] k = aheadClose
  obtain ⟨tag', htag', hwroteTag⟩ := @run_bareDoc style tag page depth inner ahead p htag
  generalize hq : (tag.bareDoc style).run page depth inner ahead p = q at hwroteTag ⊢
  obtain ⟨gap, hgap, hwroteGap⟩ := @run_softLine page (depth + 1) inner aheadText q
    (hwroteTag.solid (Text.solid_concat rfl tag'.text))
  generalize hr : Doc.softLine.run page (depth + 1) inner aheadText q = r at hwroteGap ⊢
  obtain ⟨image', himage', htokens, ⟨c, hlast, hc⟩, hwroteText⟩ :=
    @run_textDoc page (depth + 1) inner aheadTail image himage r
  obtain ⟨tail, htail, hwroteTail⟩ := @run_softLine page depth inner aheadClose _
    (hwroteText.solid (solid_of_getLast? hlast hc))
  have htrimmed := endsBlank_of_getLast? hlast hc
  refine ⟨tag', gap, image', tail, htag', hgap, himage', htrimmed, htokens, htail, ?_, fun heven hplaced => ?_⟩
  · exact hwroteTag.trans (hwroteGap.trans (hwroteText.trans (hwroteTail.trans (wrote_write ..))))
  · have htrim := trim_eq himage'.2.1 htrimmed
    have hwrap : image' = wrapText page (depth + 1) r.column image.trim := eq_wrapText heven hwroteText
    have hneat : (Doc.indent (.concat [.softLine, textDoc image])).Neat :=
      .indent (.concat (List.forall_mem_cons.2 ⟨neat_softLine,
        List.forall_mem_singleton.2 (neat_textDoc hcleanImage)⟩))
    refine Doc.Reprints.grouped hplaced ?_
    have hcontents := hplaced.group
    rw [hinner] at hcontents ⊢
    have hbehind := hcontents.tail (neat_bareDoc hclean) depth
    rw [htag'.bareDoc, htag'.closeDoc]
    refine hcontents.head.refl.cons ?_
    rw [hahead, hq] at hbehind ⊢
    rw [← hr] at hwrap
    exact (reprints_text heven htrim hwrap hbehind.head.of_indent).indent.cons (hbehind.tail hneat depth).refl

section Reflowed

variable {tag : Open} {children : List Item} {endTail : Text} (htag : tag.WellFormed)
  (hwf : Item.WellFormedAll children) (hkeeps : tag.keeps style children = false)
include htag hwf hkeeps

/-- An element whose only entry is a text. -/
theorem prints_single (hcleanTag : tag.text.Clean) (hclean : (Item.textAll children).Clean) {gap image : Text}
    (hentries : entries [] children = [⟨gap, .leaf .text image⟩])
    (heven : ∀ {page}, Suits style page → page.Even) : (Item.full tag children endTail).Prints style := by
  intro page depth mode k p
  have hmem : Item.leaf .text image ∈ children :=
    mem_of_mem_entries (hentries ▸ List.mem_singleton.2 rfl : ⟨gap, .leaf .text image⟩ ∈ entries [] children)
  have himage := wellFormed_of_mem hwf hmem
  have hcleanImage := clean_of_mem hclean hmem
  rw [Item.WellFormed] at himage
  rw [Item.text] at hcleanImage
  obtain ⟨tag', gap', image', tail, htag', hgap, himage', htrimmed, htokens, htail, hwrote, hagain⟩ :=
    @run_single style tag htag hcleanTag image himage hcleanImage page depth mode k p
  have hwf' : (Item.leaf .text image').WellFormed := by rwa [Item.WellFormed]
  have hes : List.Forall₂ (Entry.Laid style page) (entries [] children) [⟨gap', .leaf .text image'⟩] := by
    rw [hentries]
    exact .cons ⟨.text htokens, hwf', htrimmed, hgap⟩ .nil
  have hne : solids children ≠ [] := by
    rw [← map_item_entries [], hentries]
    simp
  have hfirst : ∀ e ∈ (entries [] children).head?, ∀ e' ∈ [Entry.mk gap' (.leaf .text image')].head?,
      e.Opens page depth e' := by
    rw [hentries]
    intro e he e' _ hcomment
    obtain rfl := Option.some.inj he
    cases hcomment
  -- a child alone has no neighbours
  have hgaps : List.Forall₂ (Neighbours.Laid page depth) (neighbours [] (entries [] children))
      (neighbours [] [⟨gap', .leaf .text image'⟩]) := by
    rw [hentries]
    exact .nil
  obtain ⟨children', hlaid, htext', hdoc⟩ := exists_reflowed endTail hwf htag' hkeeps hne hes hfirst hgaps htail
  -- the blanks in front of the end tag are read as part of the text
  have hdoc' : (Item.full tag' children' []).doc style = tag'.textDoc style image' := by
    have himages : textDoc (image' ++ tail) = textDoc image' := @flow_extend style _ hwf' tail htail
    rw [hdoc, Open.textDoc, ← himages]
    rfl
  have hsource : (Item.full tag children endTail).doc style = tag.textDoc style image := by
    rw [Item.doc_full, elementDoc_reflowed hkeeps, hentries]
    rfl
  rw [hsource]
  refine ⟨_, hlaid, ?_, fun hsuits hplaced => ?_⟩
  · rw [htext']
    simpa [entriesText, Item.text] using hwrote
  · rw [hdoc']
    exact hagain (heven hsuits) hplaced

/-- An element with entries that are set out in clusters. -/
theorem prints_clusters (hchildren : ∀ child ∈ children, child.Prints style) {e : Entry} {es : List Entry}
    (hentries : entries [] children = e :: es) (hsingle : ¬(es = [] ∧ e.item.isText = true))
    (heven : ∀ {page}, Suits style page → ∀ e' ∈ e :: es, e'.item.isText = true → page.Even) :
    (Item.full tag children endTail).Prints style := by
  intro page depth mode k p
  have hflows : ∀ e ∈ entries [] children, e.item.Flows style := fun e he =>
    (hchildren e.item (mem_of_mem_entries he)).flows (wellFormed_of_mem hwf (mem_of_mem_entries he))
      (not_blank_of_mem_entries he)
  have hne : solids children ≠ [] := by
    rw [← map_item_entries [], hentries]
    simp
  have htail := (isGap_newLineText page depth).1
  obtain ⟨tag', es', hopen⟩ := run_attachment page depth htag hflows p
  obtain ⟨children', hlaid, htext', hdoc⟩ := exists_reflowed endTail hwf hopen.tag hkeeps hne
    hopen.entries hopen.head (hopen.gaps [] []) htail
  have htied : Tied none (entries [] children) := tied_entries hwf (by simp)
  rw [Item.doc_full, elementDoc_reflowed hkeeps]
  rw [hentries] at hopen htied ⊢
  have hrun := run_reflowedDoc hsingle page depth mode k p hopen.solid rfl
  refine ⟨_, hlaid, ?_, fun hsuits hplaced => ?_⟩
  · rw [htext', hrun]
    exact hopen.wrote.trans ((wrote_newLine page depth _).trans (wrote_write ..))
  · have hagain := hopen.again hsuits (heven hsuits) htied _ htail
    obtain ⟨e', rest', hentry, hrest, rfl⟩ := List.forall₂_cons_left_iff.1 hopen.entries
    have hsingle' : ¬(settle (newLineText page depth) e'.item.isText rest' = [] ∧
        (e'.settled false (headGap (newLineText page depth) rest')).item.isText = true) := by
      rintro ⟨hnil, htext⟩
      have hentry' := hentry.item.extend (blanks_headGap hrest htail)
      cases hrest with
      | nil => exact hsingle ⟨rfl, hentry'.reshaped.isText_eq.symm.trans htext⟩
      | cons => cases hnil
    rw [hdoc]
    refine reprints_reflowed hopen.tag hsingle hsingle' hplaced ?_
    rw [run_reflowedDoc hsingle' page depth mode k p hopen.solid hagain, hrun, hopen.tag.name]

/-- An element with reflowed children. -/
theorem prints_reflowed (hcleanTag : tag.text.Clean) (hclean : (Item.textAll children).Clean)
    (hchildren : ∀ child ∈ children, child.Prints style) (hne : solids children ≠ []) :
    (Item.full tag children endTail).Prints style := by
  -- text is reflowed only where whitespace is ignored
  have heven : ∀ {page}, Suits style page → ∀ e ∈ entries [] children, e.item.isText = true → page.Even := by
    intro page hsuits e he htext
    by_contra hodd
    have htexts := not_text_of_not_keeps (fun hignore => hodd (hsuits hignore)) hkeeps
    exact List.any_eq_false.1 htexts e.item (mem_of_mem_entries he) htext
  obtain ⟨e, es, hentries⟩ := exists_entries hne
  by_cases hsingle : es = [] ∧ e.item.isText = true
  · obtain ⟨rfl, htext⟩ := hsingle
    obtain ⟨gap, item⟩ := e
    obtain ⟨image, rfl⟩ := exists_of_isText htext
    exact prints_single htag hwf hkeeps hcleanTag hclean hentries fun hsuits =>
      heven hsuits _ (hentries ▸ List.mem_singleton.2 rfl) htext
  · exact prints_clusters htag hwf hkeeps hchildren hentries hsingle fun hsuits e' he' =>
      heven hsuits e' (hentries ▸ he')

end Reflowed

/-- What is printed for an item is the text of an item that it may be printed as. On a page that suits the
style, that item can take its place. -/
theorem Item.WellFormed.prints {item : Item} (h : item.WellFormed) (hclean : item.text.Clean) :
    item.Prints style := by
  induction item using Item.induct with
  | leaf cls image =>
      intro page depth mode k p
      refine ⟨.leaf cls image, .leaf cls image, ?_, fun _ hplaced => hplaced.refl⟩
      rw [Item.doc, Item.text]
      cases cls <;> simp only [LeafClass.doc, Doc.run_verbatim, Doc.run_text] <;> exact wrote_write ..
  | empty tag =>
      intro page depth mode k p
      rw [Item.WellFormed] at h
      obtain ⟨tag', htag', hwrote⟩ := @run_emptyDoc style tag page depth mode k p h
      refine ⟨.empty tag', .empty htag', ?_, fun _ hplaced => ?_⟩
      · rwa [Item.doc, Item.text]
      · rw [Item.doc] at hplaced ⊢
        rw [Item.doc, htag'.emptyDoc]
        exact hplaced.refl
  | full tag children endTail ih =>
      rw [Item.WellFormed] at h
      rw [Item.text, Text.clean_append, Text.clean_cons, Text.clean_append] at hclean
      obtain ⟨htag, hwf, -⟩ := h
      obtain ⟨hcleanTag, -, hcleans, -⟩ := hclean
      have hchildren : ∀ child ∈ children, child.Prints style := fun child hchild =>
        ih child hchild (wellFormed_of_mem hwf hchild) (clean_of_mem hcleans hchild)
      by_cases hblank : solids children = [] ∧ (children = [] ∨ tag.keeps style children = false)
      · obtain ⟨hblank, hreflows⟩ := hblank
        intro page depth mode k p
        obtain ⟨tag', htag', hwrote⟩ := @run_emptyDoc style tag page depth mode k p htag
        rw [Item.doc_full, elementDoc_blank hblank hreflows]
        refine ⟨.empty tag', .emptied htag' hblank hreflows, by rwa [Item.text], fun _ hplaced => ?_⟩
        rw [Item.doc, htag'.emptyDoc]
        exact hplaced.refl
      · cases hkeeps : tag.keeps style children with
        | true =>
            refine prints_kept htag hcleanTag hcleans hchildren ?_ hkeeps
            rintro rfl
            exact hblank ⟨rfl, .inl rfl⟩
        | false =>
            exact prints_reflowed htag hwf hkeeps hcleanTag hcleans hchildren fun h => hblank ⟨h, .inr hkeeps⟩

end Printing

end Spelled

end XmlTidy
