import XmlTidy.Proofs.LocatedClusters
import XmlTidy.Proofs.TopNodes

/-!
The layout of a spelling is that of the nodes it stands for. Tags are laid out from the names and values
of their attributes alone; content that is kept is laid out piece by piece, and content that is
reflowed cluster by cluster.
-/

namespace XmlTidy

open Spelled

/-! ### Tags -/

def Attribute.pair (a : Attribute) : Text × Text := (a.name, a.value)

theorem map_pair_locateAll (src : Source) (n : Nat) (attrs : List Attr) :
    (Attr.locateAll src n attrs).map Attribute.pair = attrs.map Attr.pair := by
  induction attrs generalizing n with
  | nil => rfl
  | cons a attrs ih => rw [Attr.locateAll, List.map_cons, List.map_cons, ih]; rfl

theorem map_pair_sortAttributes (attributes : List Attribute) :
    (sortAttributes attributes).map Attribute.pair = sortPairs (attributes.map Attribute.pair) :=
  List.map_mergeSort fun _ _ _ _ => rfl

theorem map_layout (style : QuoteStyle) (attributes : List Attribute) :
    attributes.map (·.layout style) =
      ((attributes.map Attribute.pair).map fun (name, value) => (name, requote style value)).map attrDoc := by
  simp only [List.map_map]
  rfl

theorem head_eq (style : Style) (tag : Tag) :
    tag.head style = tagHead style tag.name (stylePairs style (tag.attributes.map Attribute.pair)) := by
  rw [Tag.head, tagHead]
  cases h : tag.attributes with
  | nil =>
      cases hsort : style.sortAttributes <;> simp [stylePairs, hsort, sortPairs]
  | cons a rest =>
      have hempty : (stylePairs style ((a :: rest).map Attribute.pair)).isEmpty = false := by
        rw [← Bool.not_eq_true, List.isEmpty_iff_length_eq_zero, stylePairs, List.length_map]
        cases style.sortAttributes <;> simp [sortPairs]
      rw [hempty]
      simp only [List.isEmpty_cons, Bool.false_eq_true, if_false, attrSeparator, map_layout, stylePairs]
      cases style.sortAttributes <;> simp [map_pair_sortAttributes]

/-- A tag that stands for a spelling. -/
structure TagOf (o : Open) (tag : Tag) : Prop where
  name : tag.name = o.name
  attributes : tag.attributes.map Attribute.pair = o.pairs

namespace TagOf

variable {o : Open} {tag : Tag} (style : Style)

theorem selfClosed_eq (h : TagOf o tag) : tag.selfClosed style = o.emptyDoc style := by
  rw [Tag.selfClosed, Open.emptyDoc, head_eq, h.name, h.attributes]
  rfl

theorem opened_eq (h : TagOf o tag) (attached : List Doc) :
    tag.opened style attached = o.openDoc style attached := by
  simp only [Tag.opened, Open.openDoc, Open.bareDoc, Open.bracketSpace, head_eq, h.name, h.attributes,
    Open.styled]

theorem closed_eq (h : tag.endName = some o.name) : tag.closed = o.closeDoc := by
  rw [Tag.closed, h]
  rfl

theorem isReflowable_eq (h : TagOf o tag) {src : Source} {children : List Item} {n : Nat}
    (hchildren : Item.WellFormedAll children) :
    isReflowable style tag.name tag.attributes (commentsAt src n children) =
      o.reflows style children := by
  have hany : (tag.attributes.any fun a => a.name = "xml:space".toList && a.inner ≠ "default".toList) =
      o.pairs.any fun pair => pair.1 = "xml:space".toList && Attribute.innerOf pair.2 ≠ "default".toList := by
    rw [← h.attributes, List.any_map]
    rfl
  rw [isReflowable, Open.reflows, h.name, hany, existsAmong_commentsAt hchildren]

end TagOf

/-! ### Content that is kept -/

/-- The fragments of pieces are printed as the pieces are laid out. -/
theorem printed_fragmentsAt {src : Source} {layout : Item → Doc} (hleaf : PlainLeaves layout)
    {ps : List Piece} {source pre post : Text} (hsource : source = pre ++ (ps.flatMap Piece.text ++ post)) :
    (Piece.fragmentsAt src source layout pre.length ps).map Fragment.printed =
      ps.map (Piece.doc layout) := by
  induction ps generalizing pre with
  | nil => rfl
  | cons piece ps ih =>
      rw [List.flatMap_cons, List.append_assoc] at hsource
      have htail := @ih (pre ++ piece.text) (by rw [hsource, List.append_assoc])
      rw [List.length_append] at htail
      rw [Piece.fragmentsAt, List.map_cons, List.map_cons, htail]
      congr 1
      cases piece with
      | range items =>
          rw [hsource]
          exact congrArg Doc.verbatim (Text.slice_append pre (Item.textAll items) _)
      | pair blanks text => rfl
      | single item =>
          cases item with
          | leaf cls image =>
              rw [Piece.doc, hleaf]
              cases cls <;> rfl
          | empty tag => rw [Piece.fragment, Item.fragment, Item.locate]; rfl
          | full tag children endTail => rw [Piece.fragment, Item.fragment, Item.locate]; rfl

theorem hasText_locateAll (src : Source) (n : Nat) (items : List Item) (span : Span) :
    (Content.mk (Item.locateAll src n items) span).hasText = items.any Item.isText := by
  rw [Content.hasText, Content.charData]
  show ((Item.locateAll src n items).filterMap Node.charData?).any _ = _
  induction items generalizing n with
  | nil => rfl
  | cons item rest ih =>
      rw [Item.locateAll, List.any_cons, ← ih (n + item.text.length)]
      cases hrun : item.isRun with
      | true =>
          rw [locate_run hrun, List.filterMap_cons]
          simp only [Node.charData?, List.any_cons, Item.runAt]
          congr 1
          cases item with
          | leaf cls image => cases cls <;> first | rfl | simp [Item.isRun, Item.isBlankRun, Item.isText] at hrun
          | _ => simp [Item.isRun, Item.isBlankRun, Item.isText] at hrun
      | false =>
          rw [List.filterMap_cons, charData?_of_not_run hrun]
          rw [Item.isRun, Bool.or_eq_false_iff] at hrun
          rw [hrun.2, Bool.false_or]

/-- Text that is kept is preserved. -/
theorem preserved_fragmentsAt {src : Source} {source : Text} {layout : Item → Doc} {markers : Markers}
    {items : List Item} (h : items.any Item.isText = true)
    (hrange : Item.hasRange markers items = false) (n : Nat) :
    (Piece.fragmentsAt src source layout n (pieces markers true items)).any (·.preserved) = true := by
  induction items using pieces_induct markers true generalizing n with
  | nil => simp at h
  | range item rest hranged ih => simp_all [Item.hasRange]
  | pair item next rest hranged hmeets ih =>
      rw [pieces_pair hranged hmeets, Piece.fragmentsAt, List.any_cons]
      rfl
  | single item rest hranged hmeets ih =>
      rw [pieces_single hranged hmeets, Piece.fragmentsAt, List.any_cons]
      rw [List.any_cons, Bool.or_eq_true] at h
      rcases h with h | h
      · cases item with
        | leaf cls image => cases cls <;> first | rfl | simp [Item.isText] at h
        | _ => simp [Item.isText] at h
      · rw [ih h (by simp_all [Item.hasRange]), Bool.or_true]

/-! ### Content that is reflowed -/

theorem isBlank_flow {src : Source} {layout : Item → Doc} {n : Nat} {item : Item} :
    (item.fragment src false layout n).isBlank = item.isBlankRun := by
  cases item with
  | leaf cls image => cases cls <;> rfl
  | empty tag => rw [Item.fragment, Item.locate]; rfl
  | full tag children endTail => rw [Item.fragment, Item.locate]; rfl

theorem preserved_flow {src : Source} {layout : Item → Doc} (n : Nat) (items : List Item) :
    (flowFragments src layout n items).any (·.preserved) = false := by
  induction items generalizing n with
  | nil => rfl
  | cons item rest ih =>
      rw [flowFragments, List.any_cons, ih, Bool.or_false]
      cases item with
      | leaf cls image => cases cls <;> rfl
      | empty tag => rw [Item.fragment, Item.locate]; rfl
      | full tag children endTail => rw [Item.fragment, Item.locate]; rfl

/-- The fragments that are more than hints are the entries. -/
theorem printed_filter (src : Source) {layout : Item → Doc} (hleaf : PlainLeaves layout) (gap : Text)
    (n : Nat) (items : List Item) :
    ((flowFragments src layout n items).filter (! ·.isBlank)).map Fragment.printed =
      (entries gap items).map fun e => e.item.flowDoc layout := by
  induction items generalizing gap n with
  | nil => rfl
  | cons item rest ih =>
      rw [flowFragments]
      cases hblank : item.isBlankRun with
      | true =>
          obtain ⟨image, rfl⟩ := exists_of_isBlankRun hblank
          rw [entries_blank, ← ih image, List.filter_cons_of_neg (by simp [isBlank_flow, hblank])]
      | false =>
          rw [entries_cons gap hblank, List.filter_cons_of_pos (by simp [isBlank_flow, hblank]),
            List.map_cons, List.map_cons, ih [], (standsFor_fragment src hleaf hblank n).printed]

theorem length_texts (src : Source) (gap : Text) (n : Nat) (items : List Item) :
    (((Item.locateAll src n items).filterMap Node.charData?).filter (! ·.blank)).length =
      ((entries gap items).filter (·.item.isText)).length := by
  induction items generalizing gap n with
  | nil => rfl
  | cons item rest ih =>
      rw [Item.locateAll]
      cases item with
      | leaf cls image =>
          cases cls with
          | blank => rw [entries_blank]; exact ih image _
          | text =>
              rw [entries_cons gap rfl]
              exact congrArg (· + 1) (ih [] _)
          | _ => rw [entries_cons gap rfl]; exact ih [] _
      | empty tag => rw [entries_cons gap rfl, Item.locate]; exact ih [] _
      | full tag children endTail => rw [entries_cons gap rfl, Item.locate]; exact ih [] _

/-- Reflowed children other than a single text. -/
theorem reflowedDoc_of_not_single {style : Style} {o : Open} {layout : Item → Doc} {e : Entry}
    {es : List Entry} (h : ¬(es = [] ∧ e.item.isText = true)) :
    reflowedDoc style o layout (e :: es) =
      .grouped (.concat
        [o.openDoc style (attachment (Item.flowDoc layout) (e :: es)).1,
          .indent (.concat ((attachment (Item.flowDoc layout) (e :: es)).2.map Cluster.layout)), .hardLine,
          o.closeDoc]) := by
  rw [reflowedDoc]
  · simp
  · rintro gap image heq
    rw [List.cons.injEq] at heq
    obtain ⟨rfl, rfl⟩ := heq
    simp [Item.isText] at h

/-! ### Elements -/

variable {job : Job}

theorem reflowedLayout_eq {src : Source} {layout : Item → Doc} (hleaf : PlainLeaves layout)
    {children : List Item} (hchildren : Item.WellFormedAll children) {pre post : Text}
    (hsrc : src = Source.ofText (pre ++ (Item.textAll children ++ post)))
    (hlayout : LaidOut job src layout pre.length children) (span : Span)
    (hkeeps : Open.keepsText job.style children = false)
    (hrange : Item.hasRange job.style.markers children = false) {o : Open} {tag : Tag}
    (htag : TagOf o tag) (hend : tag.endName = some o.name) :
    job.reflowedLayout tag ⟨Item.locateAll src pre.length children, span⟩
        (Node.elementFragments job (Item.locateAll src pre.length children)) =
      reflowedDoc job.style o layout (entries [] children) := by
  have hpreserve : (job.style.sensitivity = .preserve &&
      (Content.mk (Item.locateAll src pre.length children) span).hasText) = false := by
    rw [hasText_locateAll]
    exact hkeeps
  have hprinted := printed_filter src hleaf [] pre.length children
  have htexts := length_texts src [] pre.length children
  have hclusters := ofFragments_eq hleaf hchildren hsrc
  rw [Job.reflowedLayout, fragments_flow hchildren hlayout span hpreserve hrange]
  simp only [preserved_flow, Bool.and_false, Bool.false_eq_true, if_false, Content.charData, htexts,
    htag.selfClosed_eq, htag.opened_eq, TagOf.closed_eq hend]
  generalize (flowFragments src layout pre.length children).filter (! ·.isBlank) = kept at hprinted ⊢
  generalize entries [] children = es at hprinted hclusters ⊢
  rw [Prod.eq_iff_fst_eq_snd_eq] at hclusters
  cases es with
  | nil =>
      obtain rfl : kept = [] := by simpa using hprinted
      rfl
  | cons e es =>
      obtain ⟨f, kept, rfl⟩ : ∃ f kept', kept = f :: kept' := by
        cases kept with
        | nil => simp at hprinted
        | cons f kept => exact ⟨f, kept, rfl⟩
      rw [List.map_cons, List.map_cons, List.cons.injEq] at hprinted
      have hlength := congrArg List.length hprinted.2
      simp only [List.length_map] at hlength
      by_cases hsingle : es = [] ∧ e.item.isText = true
      · obtain ⟨rfl, htext⟩ := hsingle
        obtain rfl : kept = [] := by simpa using hlength
        obtain ⟨gap, item⟩ := e
        obtain ⟨image, rfl⟩ := exists_of_isText htext
        dsimp only
        rw [if_pos (by simp [Item.isText]), hprinted.1]
        rfl
      · have hmany : (kept.isEmpty && decide (((e :: es).filter (·.item.isText)).length = 1)) = false := by
          cases es with
          | nil => simp_all
          | cons e' es =>
              cases kept with
              | nil => simp at hlength
              | cons f' kept => rfl
        dsimp only at hclusters ⊢
        rw [hmany, if_neg Bool.false_ne_true, reflowedDoc_of_not_single hsingle, hclusters.1, hclusters.2]

theorem embedded?_eq_none (h : job.embedders = []) (tag : Tag) (content : Content) :
    job.embedded? tag content = none := by
  rw [Job.embedded?, Job.embedding?, h]
  rfl

/-- An element whose children are laid out. -/
theorem elementLayout_eq (hembedders : job.embedders = []) {layout : Item → Doc}
    (hleaf : PlainLeaves layout) {children : List Item} (hchildren : Item.WellFormedAll children)
    {pre post : Text} (hsource : job.source = pre ++ (Item.textAll children ++ post))
    (hlayout : LaidOut job (Source.ofText job.source) layout pre.length children) {o : Open} {tag : Tag}
    (htag : TagOf o tag) (hselfClosing : tag.selfClosing = false) (hend : tag.endName = some o.name)
    {span : Span} (hspan : tag.contentSpan = some span) :
    job.elementLayout tag (Item.locateAll (Source.ofText job.source) pre.length children)
        (Node.elementFragments job (Item.locateAll (Source.ofText job.source) pre.length children)) =
      elementDoc job.style o layout children := by
  have hsrc := congrArg Source.ofText hsource
  have hkept := fun preserve => @fragments_locateAll job _ layout children hchildren pre post hsrc hlayout
    span preserve
  have hprinted : (Piece.fragmentsAt (Source.ofText job.source) job.source layout pre.length
      (pieces job.style.markers true children)).map Fragment.printed =
      keptDocs job.style.markers layout children := by
    refine @printed_fragmentsAt _ _ hleaf _ _ _ post ?_
    rw [flatMap_text, flatMap_pieces, hsource]
  rw [Job.elementLayout, elementDoc]
  cases hempty : children.isEmpty with
  | true =>
      obtain rfl := List.isEmpty_iff.1 hempty
      simp only [Item.locateAll, Job.content?, List.isEmpty_nil, Bool.or_true, if_true]
      exact htag.selfClosed_eq job.style
  | false =>
      have hcontent : Job.content? tag (Item.locateAll (Source.ofText job.source) pre.length children) =
          some ⟨Item.locateAll (Source.ofText job.source) pre.length children, span⟩ := by
        obtain ⟨item, rest, rfl⟩ := List.exists_cons_of_ne_nil (by simpa using hempty)
        simp [Job.content?, hselfClosing, hspan, Item.locateAll]
      have hreflows : job.reflows tag ⟨Item.locateAll (Source.ofText job.source) pre.length children, span⟩ =
          o.reflows job.style children := htag.isReflowable_eq job.style hchildren
      simp only [hcontent, embedded?_eq_none hembedders, hreflows, Bool.false_eq_true, if_false]
      cases hreflow : o.reflows job.style children with
      | false =>
          simp only [Bool.not_false, Bool.false_eq_true, if_false, if_true, Job.contentLayout]
          rw [hkept true (by simp), hprinted, htag.opened_eq, TagOf.closed_eq hend]
          rfl
      | true =>
          have hrange : Item.hasRange job.style.markers children = false := by
            simp only [Open.reflows, Bool.and_eq_true, Bool.not_eq_true'] at hreflow
            exact hreflow.2
          simp only [Bool.not_true, Bool.false_eq_true, if_false, if_true]
          cases hkeeps : Open.keepsText job.style children with
          | false =>
              exact reflowedLayout_eq hleaf hchildren hsrc hlayout span hkeeps hrange htag hend
          | true =>
              rw [Open.keepsText, Bool.and_eq_true] at hkeeps
              rw [Job.reflowedLayout, hkept false (by rw [hasText_locateAll]; simp [hkeeps]),
                preserved_fragmentsAt hkeeps.2 hrange]
              simp only [hkeeps.1, Bool.and_self, if_true, hprinted, htag.opened_eq, TagOf.closed_eq hend]
              rfl

/-- The layout of a spelling is that of the node it stands for. -/
theorem layout_locate (hembedders : job.embedders = []) {item : Item} (hitem : item.WellFormed)
    {pre post : Text} (hsource : job.source = pre ++ (item.text ++ post)) :
    (item.locate (Source.ofText job.source) pre.length).layout job = item.doc job.style := by
  induction item using Item.induct generalizing pre post with
  | leaf cls image =>
      cases cls <;> simp [Item.locate, LeafClass.leaf, Leaf.layout, Item.doc, LeafClass.doc]
  | empty tag =>
      have htag : TagOf tag (tag.emptyTag (Source.ofText job.source) pre.length) :=
        ⟨rfl, map_pair_locateAll ..⟩
      rw [Item.locate, Node.layout_element, Item.doc, Job.elementLayout]
      exact htag.selfClosed_eq job.style
  | full tag children endTail ih =>
      rw [Item.WellFormed] at hitem
      obtain ⟨-, hchildren, -⟩ := hitem
      have hsource' : job.source = (pre ++ (tag.text ++ ['>'])) ++ (Item.textAll children ++
          (Item.endTag tag.name endTail ++ post)) := by
        rw [hsource, Item.text]
        simp
      have hlength : pre.length + (tag.text.length + 1) = (pre ++ (tag.text ++ ['>'])).length := by simp
      have hleaf : PlainLeaves (Item.doc job.style) := fun cls image => by rw [Item.doc]
      have hlayout : LaidOut job (Source.ofText job.source) (Item.doc job.style)
          (pre ++ (tag.text ++ ['>'])).length children := by
        rintro before item after rfl
        rw [← List.length_append]
        refine @ih item (by simp) (wellFormed_of_mem hchildren (by simp)) _
          (Item.textAll after ++ (Item.endTag tag.name endTail ++ post)) ?_
        rw [hsource', textAll_append, Item.textAll]
        simp
      rw [Item.locate, Node.layout_element, Item.doc_full]
      simp only [hlength]
      exact elementLayout_eq hembedders hleaf hchildren hsource' hlayout ⟨rfl, map_pair_locateAll ..⟩ rfl
        rfl rfl

/-! ### Documents -/

theorem declaration_layout (style : Style) (src : Source) (n : Nat) (d : Declaration) :
    (d.locate src n).layout style = d.doc style := by
  rw [Prolog.layout, Declaration.doc, Declaration.locate]
  simp only [map_layout, map_pair_locateAll, Declaration.styled, List.map_map]
  cases d.attributes <;> rfl

theorem typeDecl_layout (src : Source) (n : Nat) (d : TypeDecl) : (d.locate src n).layout = d.doc := by
  obtain ⟨lead, name, external, before, subset, tail⟩ := d
  rw [Doctype.layout, TypeDecl.doc, TypeDecl.locate]
  cases external with
  | none => rfl
  | some pair =>
      obtain ⟨gap, e⟩ := pair
      cases e with
      | systemId gap' literal => rfl
      | publicId gap' literal system =>
          cases system with
          | none => rfl
          | some pair' => rfl

/-- The layout of a top-level node. -/
def TopNode.layout (job : Job) : TopNode → Doc
  | .prolog p => p.layout job.style
  | .doctype d => d.layout
  | .misc m => .text m.image
  | .root node => node.layout job

theorem Document.layout_eq (job : Job) (d : Document) :
    d.layout job =
      .concat [.concat (Doc.join .hardLine (d.topNodes.map (·.layout job))), .hardLine] := by
  have hlocated : d.located job = d.nodesByKind.map fun node => (node.span.first, node.layout job) := by
    simp only [Document.located, Document.nodesByKind, List.map_append, List.map_map, Option.toList_map]
    rfl
  have hsorted : sortedBy Prod.fst (d.located job) =
      d.topNodes.map fun node => (node.span.first, node.layout job) := by
    rw [hlocated, Document.topNodes, sortedBy, sortedBy, List.map_mergeSort]
    exact fun _ _ _ _ => rfl
  rw [Document.layout, hsorted, List.map_map]
  rfl

theorem layout_node (hembedders : job.embedders = []) {top : Top} (htop : top.WellFormed) {pre post : Text}
    (hsource : job.source = pre ++ (top.text ++ post)) :
    (top.node (Source.ofText job.source) pre.length).layout job = top.doc job.style := by
  cases top with
  | misc kind image => rfl
  | doctype decl => exact typeDecl_layout ..
  | root item => exact layout_locate hembedders htop.2 hsource

theorem map_layout_topNodesAt (hembedders : job.embedders = []) {tops : List (Text × Top)}
    (h : ∀ top ∈ tops, top.2.WellFormed) {pre post : Text}
    (hsource : job.source = pre ++ (Whole.topsText tops ++ post)) :
    (topNodesAt (Source.ofText job.source) pre.length tops).map (·.layout job) =
      tops.map fun top => top.2.doc job.style := by
  induction tops generalizing pre with
  | nil => rfl
  | cons first rest ih =>
      obtain ⟨gap, top⟩ := first
      have hfirst : job.source = (pre ++ gap) ++ (top.text ++ (Whole.topsText rest ++ post)) := by
        rw [hsource]
        simp [Whole.topsText]
      have hrest : job.source = (pre ++ gap ++ top.text) ++ (Whole.topsText rest ++ post) := by
        rw [hfirst]
        simp
      have hnode := layout_node hembedders (h (gap, top) (by simp)) hfirst
      have hnodes := ih (fun next hnext => h next (by simp [hnext])) hrest
      simp only [List.length_append] at hnode hnodes
      rw [topNodesAt, List.map_cons, List.map_cons, hnode, hnodes]

/-- The layout of a spelling is that of the document it stands for. -/
theorem document_layout_locate (hembedders : job.embedders = []) {w : Whole} (hw : w.WellFormed)
    (hsource : job.source = w.text) : w.locate.layout job = w.doc job.style := by
  have htops := map_layout_topNodesAt hembedders (fun top htop => (hw.tops top htop).2)
    (hsource.trans (Whole.text.eq_1 w))
  rw [Document.layout_eq, topNodes_locate hw, ← hsource, Whole.nodes, List.map_append, htops, Whole.doc,
    Whole.docs]
  cases w.declaration with
  | none => rfl
  | some d =>
      have hd := declaration_layout job.style (Source.ofText job.source) 0 d
      simp only [Option.map_some, Option.toList_some, List.map_cons, List.map_nil, TopNode.layout, hd]

end XmlTidy
