import XmlTidy.Proofs.Joints
import XmlTidy.Proofs.TextPrinting

/-!
The shape of layouts. In the layout of a spelling every hard line forces the groups around it to break, and
fills have a line between each two of their contents, so printing it is what `Doc.run` does. If the
spelling has no carriage return, no text of its layout has one, and none is printed.
-/

namespace XmlTidy

/-- Texts without a carriage return. -/
def Text.Clean (t : Text) : Prop := '\r' ∉ t

/-- Documents of clean texts whose hard lines force breaks. -/
abbrev Doc.Neat (doc : Doc) : Prop := Doc.Paired Text.Clean doc

namespace Text

theorem clean_append {s t : Text} : Clean (s ++ t) ↔ s.Clean ∧ t.Clean := by
  simp [Clean]

theorem clean_cons {c : Char} {t : Text} : Clean (c :: t) ↔ c ≠ '\r' ∧ t.Clean := by
  simp [Clean, eq_comm]

theorem Clean.of_subset {s t : Text} (ht : t.Clean) (h : ∀ c ∈ s, c ∈ t) : s.Clean := fun hmem =>
  ht (h _ hmem)

theorem mem_of_mem_trim {t : Text} {c : Char} (h : c ∈ t.trim) : c ∈ t := by
  rw [trim, stripWhile, dropEndWhile, List.mem_reverse] at h
  have := (List.dropWhile_suffix isBlank).subset h
  rw [List.mem_reverse] at this
  exact (List.dropWhile_suffix isBlank).subset this

end Text

/-! ### Building documents -/

section Build

open Doc

theorem neat_text {t : Text} (h : t.Clean) : (Doc.text t).Neat := .text h

theorem paired_join {allowed : Text → Prop} {separator : Doc} (hseparator : separator.Paired allowed)
    {docs : List Doc} (h : ∀ doc ∈ docs, doc.Paired allowed) :
    ∀ doc ∈ Doc.join separator docs, doc.Paired allowed := by
  intro doc hdoc
  rcases Doc.mem_join hdoc with rfl | hmem
  · exact hseparator
  · exact h doc hmem

theorem neat_verbatim {t : Text} (h : t.Clean) : (Doc.verbatim t).Neat := by
  rw [Doc.verbatim, Doc.ofLines]
  split
  · refine .concat (paired_join .literalLine fun doc hdoc => ?_)
    obtain ⟨l, hl, rfl⟩ := List.mem_map.1 hdoc
    exact neat_text (h.of_subset fun c hc => Text.mem_of_mem_lines hl hc)
  · exact neat_text h

theorem neat_spaceLine : Doc.spaceLine.Neat := .line rfl

theorem neat_softLine : Doc.softLine.Neat := .line rfl

end Build

/-! ### Text in a fill -/

theorem fillParts_cutLine (word gap t : Text) : Doc.FillParts ((cutLine word gap t).map segmentDoc) := by
  fun_induction cutLine word gap t with
  | case1 => exact .last (.text _)
  | case5 word gap c t _ _ _ ih => exact .cons (.text _) _ ih
  | case2 => assumption
  | case3 => assumption
  | case4 => assumption
  | case6 => assumption

theorem paired_segmentsLayout {allowed : Text → Prop} {t : Text}
    (h : ∀ l ∈ t.lines, ∀ s ∈ cutLine [] [] l, allowed s.value) :
    (segmentsLayout (segments t)).Paired allowed := by
  rw [segmentsLayout_eq]
  refine .group (.concat (paired_join .literalLine fun doc hdoc => ?_)) _
  obtain ⟨l, hl, rfl⟩ := List.mem_map.1 hdoc
  refine .fill (fun doc hdoc => ?_) (fillParts_cutLine ..)
  obtain ⟨s, hs, rfl⟩ := List.mem_map.1 hdoc
  have hvalue := h l hl s hs
  obtain ⟨kind, value⟩ := s
  cases kind with
  | space => exact .line rfl
  | word => exact .text hvalue
  | newline => exact .text hvalue

theorem neat_textDoc {image : Text} (h : image.Clean) : (Spelled.textDoc image).Neat := by
  refine paired_segmentsLayout fun l hl s hs => h.of_subset fun c hc => ?_
  have hmem : c ∈ l := by simpa using mem_of_mem_cutLine hs hc
  exact Text.mem_of_mem_trim (Text.mem_of_mem_lines hl hmem)

/-! ### Tags -/

namespace Spelled

theorem clean_requote (quotes : QuoteStyle) {literal : Text} (h : literal.Clean) :
    (requote quotes literal).Clean := by
  have hinner : Text.Clean (Attribute.innerOf literal) := h.of_subset fun c hc =>
    List.mem_of_mem_tail (List.dropLast_subset _ hc)
  have hescaped : ∀ (c : Char) {new : Text}, new.Clean →
      Text.Clean (Text.replaceChar (Attribute.innerOf literal) c new) := by
    intro c new hnew hmem
    rcases mem_replaceChar hmem with ⟨hmem, -⟩ | hmem
    · exact hinner hmem
    · exact hnew hmem
  cases quotes with
  | preserve => exact h
  | double =>
      simp only [requote, doubleQuoted, Text.clean_append, Text.clean_cons]
      exact ⟨⟨by decide, hescaped _ (by simp [Text.Clean])⟩, by simp [Text.Clean]⟩
  | single =>
      simp only [requote, singleQuoted, Text.clean_append, Text.clean_cons]
      exact ⟨⟨by decide, hescaped _ (by simp [Text.Clean])⟩, by simp [Text.Clean]⟩

theorem clean_attributes {attrs : List Attr} (h : (Attr.textAll attrs).Clean) {a : Attr} (ha : a ∈ attrs) :
    a.name.Clean ∧ a.value.Clean := by
  have htext : a.text.Clean := h.of_subset fun c hc => List.mem_flatMap.2 ⟨a, ha, hc⟩
  simp only [Attr.text, Text.clean_append, Text.clean_cons] at htext
  exact ⟨htext.2.1, htext.2.2.2.2.2⟩

theorem neat_attrDoc {pair : Text × Text} (h : pair.1.Clean ∧ pair.2.Clean) : (attrDoc pair).Neat := by
  refine .concat (List.forall_mem_cons.2 ⟨neat_text h.1, List.forall_mem_cons.2 ⟨neat_text ?_,
    List.forall_mem_singleton.2 (neat_text h.2)⟩⟩)
  simp [Text.Clean]

/-- Attributes behind a line, with a separator between each two. -/
theorem neat_attributes {separator : Doc} (hseparator : separator.Neat) {pairs : List (Text × Text)}
    (h : ∀ pair ∈ pairs, pair.1.Clean ∧ pair.2.Clean) :
    (Doc.indent (.concat [.spaceLine, .concat (Doc.join separator (pairs.map attrDoc))])).Neat := by
  refine .indent (.concat (List.forall_mem_cons.2 ⟨neat_spaceLine, List.forall_mem_singleton.2
    (.concat (paired_join hseparator fun doc hdoc => ?_))⟩))
  obtain ⟨pair, hpair, rfl⟩ := List.mem_map.1 hdoc
  exact neat_attrDoc (h pair hpair)

section Tags

variable {style : Style} {o : Open} (h : o.text.Clean)
include h

theorem neat_tagHead : ∀ doc ∈ tagHead style o.name (o.styled style), doc.Neat := by
  simp only [Open.text, Text.clean_cons, Text.clean_append] at h
  have hstart : ∀ doc ∈ [Doc.text ['<'], .text o.name], doc.Neat :=
    List.forall_mem_cons.2 ⟨neat_text (by simp [Text.Clean]), List.forall_mem_singleton.2 (neat_text h.2.1)⟩
  rw [tagHead]
  split
  · exact hstart
  · refine List.forall_mem_append.2 ⟨hstart, List.forall_mem_singleton.2 (neat_attributes ?_ ?_)⟩
    · rw [attrSeparator]
      split
      · exact .hardLine
      · exact neat_spaceLine
    · intro pair hpair
      have := (stylePairs_perm style o.pairs).mem_iff.1 hpair
      simp only [Open.pairs, List.map_map, List.mem_map] at this
      obtain ⟨a, ha, rfl⟩ := this
      obtain ⟨hname, hvalue⟩ := clean_attributes h.2.2.1 ha
      exact ⟨hname, clean_requote _ hvalue⟩

theorem neat_emptyDoc : (o.emptyDoc style).Neat := by
  refine .group (.concat (List.forall_mem_append.2 ⟨neat_tagHead h, List.forall_mem_cons.2 ⟨?_,
    List.forall_mem_singleton.2 (neat_text (by simp [Text.Clean]))⟩⟩)) _
  rw [Tag.slashSpace]
  split
  · split <;> exact neat_text (by simp [Text.Clean])
  · split
    · exact neat_spaceLine
    · exact neat_softLine

theorem neat_bareDoc : (o.bareDoc style).Neat := by
  refine .group (.concat (List.forall_mem_append.2 ⟨neat_tagHead h, List.forall_mem_cons.2 ⟨?_,
    List.forall_mem_singleton.2 (neat_text (by simp [Text.Clean]))⟩⟩)) _
  rw [Open.bracketSpace]
  split
  · exact neat_text (by simp [Text.Clean])
  · exact neat_softLine

theorem neat_closeDoc : o.closeDoc.Neat := by
  simp only [Open.text, Text.clean_cons, Text.clean_append] at h
  refine .group (.concat (List.forall_mem_cons.2 ⟨neat_text (by simp [Text.Clean]),
    List.forall_mem_cons.2 ⟨neat_text h.2.1, List.forall_mem_singleton.2 (neat_text ?_)⟩⟩)) _
  simp [Text.Clean]

end Tags

/-! ### Children -/

theorem neat_delimiter (spaced : Bool) : (delimiter spaced).Neat := by
  cases spaced
  · exact neat_softLine
  · exact neat_spaceLine

/-- Layouts of items that are neat, and contents of a fill where the items flow. -/
structure NeatLayout (layout : Item → Doc) (item : Item) : Prop where
  neat : (layout item).Neat
  content : item.isInline = true → Doc.FillContent (layout item)

section Clusters

variable {layout : Item → Doc}

theorem neat_flowParts {es : List Entry} (h : ∀ e ∈ es, NeatLayout layout e.item) (previous : Item) :
    ∀ doc ∈ flowParts layout previous es, doc.Neat := by
  induction es generalizing previous with
  | nil => exact List.forall_mem_nil _
  | cons e rest ih =>
      rcases flow_or_stays previous e rest with ⟨spaced, hjoint⟩ | hstays
      · rw [flowParts_flow hjoint]
        exact List.forall_mem_cons.2 ⟨neat_delimiter spaced, List.forall_mem_cons.2
          ⟨(h e (by simp)).neat, ih (fun e' he => h e' (by simp [he])) e.item⟩⟩
      · rw [flowParts_of_stays hstays]
        simp

theorem fillParts_flowParts {es : List Entry} (h : ∀ e ∈ es, NeatLayout layout e.item) (previous : Item)
    {content : Doc} (hcontent : Doc.FillContent content) :
    Doc.FillParts (content :: flowParts layout previous es) := by
  induction es generalizing previous content with
  | nil => exact .last hcontent
  | cons e rest ih =>
      rcases flow_or_stays previous e rest with ⟨spaced, hjoint⟩ | hstays
      · have hrest := ih (fun e' he => h e' (by simp [he])) e.item
          ((h e (by simp)).content (isInline_of_flow hjoint))
        rw [flowParts_flow hjoint]
        cases spaced <;> exact .cons hcontent _ hrest
      · rw [flowParts_of_stays hstays]
        exact .last hcontent

theorem neat_cluster {item : Item} (hitem : NeatLayout layout item) {es : List Entry}
    (hes : ∀ e ∈ es, NeatLayout layout e.item) (joint : Joint) :
    ((joint.cluster layout item).extend (flowParts layout item es)).layout.Neat := by
  have hparts : ∀ doc ∈ layout item :: flowParts layout item es, doc.Neat :=
    List.forall_mem_cons.2 ⟨hitem.neat, neat_flowParts hes item⟩
  have hbody : ∀ leading : List Doc, (∀ doc ∈ leading, doc.Neat) →
      (Cluster.layout ⟨lineStyle item, leading, layout item :: flowParts layout item es⟩).Neat := by
    intro leading hleading
    refine .concat (List.forall_mem_append.2 ⟨hleading, List.forall_mem_singleton.2 ?_⟩)
    cases hinline : item.isInline with
    | true =>
        simp only [lineStyle, hinline, if_true]
        exact .group (.fill hparts (fillParts_flowParts hes item (hitem.content hinline))) _
    | false =>
        simp only [lineStyle, hinline, Bool.false_eq_true, if_false]
        exact .concat hparts
  have hline : ∀ doc ∈ [Doc.hardLine], doc.Neat := List.forall_mem_singleton.2 .hardLine
  cases joint with
  | beside spaced =>
      refine .concat (List.forall_mem_singleton.2 (.group (.concat ?_) _))
      exact List.forall_mem_cons.2 ⟨neat_delimiter spaced, hparts⟩
  | blankLine => exact hbody _ (List.forall_mem_cons.2 ⟨.hardLine, hline⟩)
  | newLine => exact hbody _ hline
  | attach spaced => exact hbody _ hline
  | flow spaced => exact hbody _ hline

theorem neat_clusters {es : List Entry} (h : ∀ e ∈ es, NeatLayout layout e.item) (previous : Option Item) :
    ∀ doc ∈ (clusters layout previous es).map Cluster.layout, doc.Neat := by
  fun_induction clusters layout previous es with
  | case1 => simp
  | case2 previous e rest ih =>
      have hrest : ∀ e' ∈ rest, NeatLayout layout e'.item := fun e' he => h e' (by simp [he])
      exact List.forall_mem_cons.2 ⟨neat_cluster (h e (by simp)) hrest _,
        ih fun e' he => hrest e' (mem_of_mem_flowRest he)⟩

theorem neat_attachment {es : List Entry} (h : ∀ e ∈ es, NeatLayout layout e.item) :
    (∀ doc ∈ (attachment layout es).1, doc.Neat) ∧
      ∀ doc ∈ (attachment layout es).2.map Cluster.layout, doc.Neat := by
  cases es with
  | nil => exact ⟨List.forall_mem_nil _, List.forall_mem_nil _⟩
  | cons e rest =>
      rw [attachment]
      split
      · next spaced _ =>
          have hcomment : ∀ doc ∈ [delimiter spaced, layout e.item], doc.Neat :=
            List.forall_mem_cons.2 ⟨neat_delimiter spaced, List.forall_mem_singleton.2 (h e (by simp)).neat⟩
          refine ⟨List.forall_mem_singleton.2 ?_, neat_clusters (fun e' he => h e' (by simp [he])) _⟩
          exact .ifBreak (.group (.indent (.concat hcomment)) _) (.concat hcomment)
      · exact ⟨by simp, neat_clusters h none⟩

end Clusters

theorem fillContent_flow {style : Style} {item : Item} (h : item.isInline = true) :
    Doc.FillContent (item.flow style) := by
  cases htext : item.isText with
  | true =>
      obtain ⟨image, rfl⟩ := exists_of_isText htext
      rw [Item.flow, Item.flowDoc, textDoc, segmentsLayout_eq]
      exact .group ..
  | false =>
      obtain ⟨kind, image, rfl⟩ := exists_reference h htext
      rw [flow_leaf (by simp) (by simp)]
      exact .text image

theorem neat_flow {style : Style} {item : Item} (h : item.text.Clean) (hneat : (item.doc style).Neat) :
    NeatLayout (Item.flow style) item := by
  refine ⟨?_, fillContent_flow⟩
  cases htext : item.isText with
  | true =>
      obtain ⟨image, rfl⟩ := exists_of_isText htext
      rw [Item.text] at h
      exact neat_textDoc h
  | false => rwa [flow_of_not_text htext]

/-! ### Items -/

theorem mem_textAll {items : List Item} {c : Char} :
    c ∈ Item.textAll items ↔ ∃ item ∈ items, c ∈ item.text := by
  induction items with
  | nil => simp [Item.textAll]
  | cons item rest ih => simp [Item.textAll, ih]

theorem clean_of_mem {items : List Item} (h : (Item.textAll items).Clean) {item : Item} (hitem : item ∈ items) :
    item.text.Clean := by
  exact h.of_subset fun c hc => mem_textAll.2 ⟨item, hitem, hc⟩

theorem clean_textAll {items : List Item} (h : ∀ item ∈ items, item.text.Clean) :
    (Item.textAll items).Clean := by
  intro hmem
  obtain ⟨item, hitem, hc⟩ := mem_textAll.1 hmem
  exact h item hitem hc

section Elements

variable {style : Style} {tag : Open} (htag : tag.text.Clean) {children : List Item}

theorem neat_keptDocs (hchildren : ∀ child ∈ children, child.text.Clean ∧ (child.doc style).Neat) :
    ∀ doc ∈ keptDocs style.markers (Item.doc style) children, doc.Neat := by
  intro doc hdoc
  obtain ⟨piece, hpiece, rfl⟩ := List.mem_map.1 hdoc
  have hitems : ∀ item ∈ piece.items, item.text.Clean ∧ (item.doc style).Neat := by
    intro item hitem
    refine hchildren item ?_
    rw [← flatMap_pieces style.markers true children]
    exact List.mem_flatMap.2 ⟨piece, hpiece, hitem⟩
  cases piece with
  | range items => exact neat_verbatim (clean_textAll fun item hitem => (hitems item hitem).1)
  | pair blanks text =>
      refine .group (.concat (List.forall_mem_cons.2 ⟨neat_verbatim (hitems blanks ?_).1,
        List.forall_mem_singleton.2 (neat_verbatim (hitems text ?_).1)⟩)) _ <;> simp [Piece.items]
  | single item => exact (hitems item (by simp [Piece.items])).2

include htag

theorem neat_openDoc {attached : List Doc} (h : ∀ doc ∈ attached, doc.Neat) :
    (tag.openDoc style attached).Neat := by
  rw [Open.openDoc]
  split
  · exact neat_bareDoc htag
  · exact .group (.concat (List.forall_mem_cons.2 ⟨neat_bareDoc htag, h⟩)) _

theorem neat_reflowedDoc {es : List Entry} (hes : ∀ e ∈ es, NeatLayout (Item.flow style) e.item) :
    (reflowedDoc style tag (Item.doc style) es).Neat := by
  unfold reflowedDoc
  split
  · exact neat_emptyDoc htag
  · next gap image =>
      have himage : (textDoc image).Neat := (hes ⟨gap, .leaf .text image⟩ (by simp)).neat
      refine .group (.concat (List.forall_mem_cons.2 ⟨neat_bareDoc htag, List.forall_mem_cons.2 ⟨?_,
        List.forall_mem_cons.2 ⟨neat_softLine, List.forall_mem_singleton.2 (neat_closeDoc htag)⟩⟩⟩)) _
      exact .indent (.concat (List.forall_mem_cons.2 ⟨neat_softLine, List.forall_mem_singleton.2 himage⟩))
  · obtain ⟨hattached, hclusters⟩ := neat_attachment hes
    exact .group (.concat (List.forall_mem_cons.2 ⟨neat_openDoc htag hattached, List.forall_mem_cons.2
      ⟨.indent (.concat hclusters), List.forall_mem_cons.2
        ⟨.hardLine, List.forall_mem_singleton.2 (neat_closeDoc htag)⟩⟩⟩)) _

theorem neat_elementDoc (hchildren : ∀ child ∈ children, child.text.Clean ∧ (child.doc style).Neat) :
    (elementDoc style tag (Item.doc style) children).Neat := by
  have hkept := neat_keptDocs hchildren
  have hes : ∀ e ∈ entries [] children, NeatLayout (Item.flow style) e.item := fun e he =>
    have hchild := hchildren e.item (mem_of_mem_entries he)
    neat_flow hchild.1 hchild.2
  rw [elementDoc]
  split
  · exact neat_emptyDoc htag
  · split
    · exact .group (.concat (List.forall_mem_cons.2 ⟨neat_bareDoc htag, List.forall_mem_cons.2
        ⟨.indent (.group (.concat hkept) _), List.forall_mem_singleton.2 (neat_closeDoc htag)⟩⟩)) _
    · split
      · exact .group (.concat (List.forall_mem_cons.2 ⟨neat_bareDoc htag, List.forall_mem_cons.2
          ⟨.concat hkept, List.forall_mem_singleton.2 (neat_closeDoc htag)⟩⟩)) _
      · exact neat_reflowedDoc htag hes

end Elements

theorem Item.neat {style : Style} {item : Item} (h : item.text.Clean) : (item.doc style).Neat := by
  induction item using Item.induct with
  | leaf cls image =>
      rw [Item.text] at h
      rw [Item.doc]
      cases cls <;> first | exact neat_verbatim h | exact neat_text h
  | empty tag =>
      rw [Item.text, Text.clean_append] at h
      rw [Item.doc]
      exact neat_emptyDoc h.1
  | full tag children endTail ih =>
      rw [Item.text, Text.clean_append, Text.clean_cons, Text.clean_append] at h
      obtain ⟨htag, -, hchildren, -⟩ := h
      rw [Item.doc_full]
      refine neat_elementDoc htag fun child hchild => ?_
      have hclean := clean_of_mem hchildren hchild
      exact ⟨hclean, ih child hchild hclean⟩

/-! ### Documents -/

theorem neat_declaration {style : Style} {d : Declaration} (h : d.text.Clean) : (d.doc style).Neat := by
  rw [Declaration.text, Text.clean_append, Text.clean_append] at h
  have hattributes : ∀ doc ∈ (if d.attributes.isEmpty then [] else [Doc.indent (.concat
      [.spaceLine, .concat (Doc.join .spaceLine ((d.styled style).map attrDoc))])]), doc.Neat := by
    split
    · simp
    · refine List.forall_mem_singleton.2 (neat_attributes neat_spaceLine fun pair hpair => ?_)
      obtain ⟨a, ha, rfl⟩ := List.mem_map.1 hpair
      obtain ⟨hname, hvalue⟩ := clean_attributes h.2.1 ha
      exact ⟨hname, clean_requote _ hvalue⟩
  rw [Declaration.doc]
  refine .group (.concat (List.forall_mem_cons.2 ⟨neat_text (by simp [Text.Clean]),
    List.forall_mem_append.2 ⟨hattributes, List.forall_mem_cons.2 ⟨?_,
      List.forall_mem_singleton.2 (neat_text (by simp [Text.Clean]))⟩⟩⟩)) _
  split
  · exact neat_spaceLine
  · exact neat_softLine

theorem neat_literalDoc {before : Doc} (hbefore : before.Neat) {literal : Text} (h : literal.Clean) :
    (literalDoc before literal).Neat :=
  .group (.concat (List.forall_mem_cons.2 ⟨hbefore, List.forall_mem_singleton.2
    (.indent (.concat (List.forall_mem_cons.2 ⟨neat_spaceLine, List.forall_mem_singleton.2 (neat_text h)⟩)))⟩)) _

theorem neat_external {e : External} (h : e.text.Clean) : e.doc.Neat := by
  rw [External.text, Text.clean_append] at h
  obtain ⟨hkeyword, hliterals⟩ := h
  cases e with
  | systemId gap literal =>
      rw [External.literals, Text.clean_append] at hliterals
      exact neat_literalDoc (neat_text hkeyword) hliterals.2
  | publicId gap literal system =>
      rw [External.literals, Text.clean_append, Text.clean_append] at hliterals
      have hpublic := neat_literalDoc (neat_text hkeyword) hliterals.2.1
      cases system with
      | none => exact hpublic
      | some s =>
          rw [External.optionText, Text.clean_append] at hliterals
          exact neat_literalDoc hpublic hliterals.2.2.2

theorem neat_doctype {d : TypeDecl} (h : d.text.Clean) : d.doc.Neat := by
  simp only [TypeDecl.text, Text.clean_append] at h
  obtain ⟨-, -, hname, hexternal, -, hsubset, -⟩ := h
  have hspace : (Doc.text [' ']).Neat := neat_text (by simp [Text.Clean])
  rw [TypeDecl.doc]
  refine .group (.concat (List.forall_mem_append.2 ⟨List.forall_mem_append.2 ⟨List.forall_mem_append.2
    ⟨?_, ?_⟩, ?_⟩, List.forall_mem_singleton.2 (neat_text (by simp [Text.Clean]))⟩)) _
  · exact List.forall_mem_cons.2 ⟨neat_text (by simp [Text.Clean]), List.forall_mem_cons.2
      ⟨hspace, List.forall_mem_singleton.2 (neat_text hname)⟩⟩
  · rw [TypeDecl.externalDocs]
    split
    · simp
    · next gap e hsome =>
        rw [TypeDecl.externalText, hsome, Text.clean_append] at hexternal
        exact List.forall_mem_cons.2 ⟨hspace, List.forall_mem_singleton.2 (neat_external hexternal.2)⟩
  · rw [TypeDecl.subsetDocs]
    split
    · simp
    · next s hsome =>
        rw [TypeDecl.subsetText, hsome] at hsubset
        exact List.forall_mem_cons.2 ⟨hspace, List.forall_mem_singleton.2 (neat_verbatim hsubset)⟩

theorem neat_top {style : Style} {top : Top} (h : top.text.Clean) : (top.doc style).Neat := by
  cases top with
  | misc kind image => exact neat_text h
  | doctype decl => exact neat_doctype h
  | root item => exact Item.neat h

theorem clean_top {w : Whole} (h : w.text.Clean) {top : Text × Top} (htop : top ∈ w.tops) : top.2.text.Clean := by
  rw [Whole.text, Text.clean_append, Text.clean_append] at h
  refine h.2.1.of_subset fun c hc => List.mem_flatMap.2 ⟨top, htop, ?_⟩
  exact List.mem_append_right _ hc

theorem Whole.neat {style : Style} {w : Whole} (h : w.text.Clean) : (w.doc style).Neat := by
  have htops := fun top htop => @clean_top w h top htop
  rw [Whole.text, Text.clean_append] at h
  refine .concat (List.forall_mem_cons.2 ⟨.concat (paired_join .hardLine ?_),
    List.forall_mem_singleton.2 .hardLine⟩)
  refine List.forall_mem_append.2 ⟨fun doc hdoc => ?_, fun doc hdoc => ?_⟩
  · cases hd : w.declaration with
    | none => simp [hd] at hdoc
    | some d =>
        obtain rfl : doc = d.doc style := by simpa [hd] using hdoc
        rw [Whole.declarationText, hd] at h
        exact neat_declaration h.1
  · obtain ⟨top, htop, rfl⟩ := List.mem_map.1 hdoc
    exact neat_top (htops top htop)

end Spelled

/-! ### What is printed -/

/-- What is printed for a neat document has no carriage return. -/
theorem Doc.Neat.clean_run {doc : Doc} (h : doc.Neat) (page : Page) :
    (doc.run page 0 .broken .clear .empty).text.Clean := by
  have hkeeps : Doc.Keeps (fun p => Text.Clean p.reversed) page doc := by
    refine h.keeps (fun p t ht hp => ?_) (fun p l hp => ?_) fun p depth l hp => ?_
    · exact Text.clean_append.2 ⟨by simpa [Text.Clean] using ht, hp⟩
    · rw [Printed.writeFlatLine_text]
      split
      · exact hp
      · exact Text.clean_cons.2 ⟨by decide, hp⟩
    · rw [Printed.breakLine_text]
      split
      · exact Text.clean_cons.2 ⟨by decide, hp⟩
      · refine Text.clean_append.2 ⟨fun hmem => ?_, Text.clean_cons.2 ⟨by decide, ?_⟩⟩
        · exact absurd (Printed.isPadding_indentation page depth (List.mem_reverse.1 hmem)) (by decide)
        · exact hp.of_subset fun c hc => (List.dropWhile_suffix _).subset hc
  have hclean := hkeeps 0 .broken .clear .empty (by simp [Text.Clean, Printed.empty_text])
  simpa [Text.Clean, Printed.text] using hclean

end XmlTidy
