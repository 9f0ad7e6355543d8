import XmlTidy.Proofs.Elements

/-!
The tree that reading gives loses nothing of the text. The children of an element lie side by side and take up
all of its content, leaves are what stands in their spans, elements stretch from the bracket of their start tag
to that of their end tag, and between the nodes at the top level there are only blanks.
-/

namespace XmlTidy

/-! ### Spans of a text -/

namespace Span

/-- What stands in a span of a text. -/
def textIn (t : Text) (s : Span) : Text := t.slice s.first (s.last + 1)

/-- Spans that lie side by side: the first starts at `first`, each next one behind the one before it, and the
last ends at `last`. None of them is empty. -/
def Tile : Int → List Span → Int → Prop
  | first, [], last => last = first - 1
  | first, s :: rest, last => s.first = first ∧ first ≤ s.last ∧ Tile (s.last + 1) rest last

/-- Spans that lie one behind the other, with only blanks of a text in front of, between and behind them. -/
def Scattered (t : Text) : Int → List Span → Prop
  | start, [] => start ≤ t.length ∧ Blanks (t.slice start t.length)
  | start, s :: rest =>
      start ≤ s.first ∧ s.first ≤ s.last ∧ Blanks (t.slice start s.first) ∧ Scattered t (s.last + 1) rest

/-- Spans that lie side by side are listed in the order of their offsets. -/
theorem Tile.pairwise {spans : List Span} {first last : Int} (h : Tile first spans last) :
    spans.Pairwise (fun a b => a.first < b.first) ∧ ∀ s ∈ spans, first ≤ s.first := by
  induction spans generalizing first with
  | nil => simp
  | cons s rest ih =>
      obtain ⟨hfirst, hlast, hrest⟩ := h
      obtain ⟨horder, hle⟩ := ih hrest
      rw [List.pairwise_cons]
      refine ⟨⟨fun next hnext => ?_, horder⟩, fun next hnext => ?_⟩
      · have := hle next hnext
        omega
      · rcases List.mem_cons.1 hnext with rfl | hnext
        · omega
        · have := hle next hnext
          omega

end Span

namespace Text

theorem slice_eq {t pre s post : Text} (h : t = pre ++ (s ++ post)) {first stop : Int}
    (hfirst : first = pre.length) (hstop : stop = pre.length + s.length) : t.slice first stop = s := by
  have hplace : stop = ((pre.length + s.length : Nat) : Int) - 1 + 1 := by omega
  rw [h, hfirst, hplace, slice_append]

theorem textIn_span {t pre s post : Text} (h : t = pre ++ (s ++ post)) (src : Source) {n stop : Nat}
    (hn : n = pre.length) (hstop : stop = n + s.length) : (src.span n stop).textIn t = s :=
  slice_eq h (by simp [Source.span, hn]) (by simp [Source.span]; omega)

end Text

/-! ### Lossless trees -/

/-- Runs of character data touch only if they are a run of blanks and the text behind it. -/
def Node.Apart (a b : Node) : Prop :=
  ∀ run ∈ a.charData?, ∀ next ∈ b.charData?, run.blank = true ∧ next.blank = false

namespace Content

/-- The children of all kinds, one kind after the other. -/
def byKind (c : Content) : List Node :=
  c.charData.map (.leaf ∘ .charData) ++ c.cdata.map (.leaf ∘ .cdata) ++ c.comments.map (.leaf ∘ .comment) ++
    c.instructions.map (.leaf ∘ .instruction) ++ c.references.map (.leaf ∘ .reference) ++
    c.elements.map Element.toNode

/-- The children of all kinds in the order of their offsets. -/
def inOrder (c : Content) : List Node := sortedBy (fun node => node.span.first) c.byKind

/-- The children of a content take up all of it. -/
structure Lossless (t : Text) (c : Content) : Prop where
  tile : Span.Tile c.span.first (c.inOrder.map Node.span) c.span.last
  image : ∀ l, Node.leaf l ∈ c.inOrder → l.image = l.span.textIn t
  apart : c.inOrder.IsChain Node.Apart

theorem byKind_cons (node : Node) (children : List Node) (span : Span) :
    (byKind ⟨node :: children, span⟩ : Multiset Node) = node ::ₘ (byKind ⟨children, span⟩ : Multiset Node) := by
  simp only [byKind, charData, cdata, comments, instructions, references, elements, List.filterMap_cons,
    ← Multiset.coe_add]
  cases node with
  | element tag grandchildren =>
      simp [Node.charData?, Node.cdata?, Node.comment?, Node.instruction?, Node.reference?, Node.element?,
        Element.toNode, ← Multiset.cons_coe]
  | leaf l =>
      cases l <;>
        simp [Node.charData?, Node.cdata?, Node.comment?, Node.instruction?, Node.reference?, Node.element?,
          ← Multiset.cons_coe]

/-- The children by kind are the children. -/
theorem children_perm_byKind (c : Content) : c.children.Perm c.byKind := by
  obtain ⟨children, span⟩ := c
  induction children with
  | nil => exact .refl _
  | cons node children ih =>
      refine (ih.cons node).trans (Multiset.coe_eq_coe.1 ?_)
      rw [← Multiset.cons_coe, byKind_cons]

end Content

namespace Element

/-- An element stretches from its start tag to its end tag, with its content between them. -/
structure Lossless (t : Text) (e : Element) : Prop where
  opens : '<' :: e.tag.name <+: e.tag.span.textIn t
  closes : ['>'] <:+ e.tag.span.textIn t
  closed : e.tag.selfClosing = true ∧ e.content?.isNone ∨
    e.tag.endName = some e.tag.name ∧ e.content?.isSome
  between : ∀ c ∈ e.content?, ∃ startTag endTag,
    e.tag.span.textIn t = startTag ++ (c.span.textIn t ++ endTag) ∧
    c.span.first = e.tag.span.first + startTag.length ∧
    c.span.last + endTag.length = e.tag.span.last ∧
    '<' :: e.tag.name <+: startTag ∧ ['>'] <:+ startTag ∧
    '<' :: '/' :: e.tag.name <+: endTag ∧ ['>'] <:+ endTag
  content : ∀ c ∈ e.content?, c.Lossless t

end Element

/-- All elements and leaves of a document are found in the text, and there are only blanks outside of its nodes. -/
structure Document.Lossless (t : Text) (d : Document) : Prop where
  elements : ∀ e ∈ d.elements, e.Lossless t
  misc : ∀ m ∈ d.misc, m.image = m.span.textIn t
  scattered : Span.Scattered t 0 (d.topNodes.map TopNode.span)

namespace Spelled

open Text

/-! ### Content -/

theorem last_locate (src : Source) (n : Nat) (item : Item) :
    (item.locate src n).span.last = ((n + item.text.length : Nat) : Int) - 1 := by
  rw [span_locate, Source.span]

theorem tile_locateAll (src : Source) {items : List Item} (h : Item.WellFormedAll items) (n : Nat) :
    Span.Tile n ((Item.locateAll src n items).map Node.span) (((n + (Item.textAll items).length : Nat) : Int) - 1) := by
  induction items generalizing n with
  | nil => rfl
  | cons item rest ih =>
      rw [Item.WellFormedAll] at h
      have hpos := List.length_pos_iff.2 (text_ne_nil h.1)
      have hnext := ih h.2.2 (n + item.text.length)
      have hstart : (item.locate src n).span.last + 1 = ((n + item.text.length : Nat) : Int) := by
        rw [last_locate]
        omega
      rw [Item.locateAll, List.map_cons, Span.Tile, hstart, Item.textAll, List.length_append, ← Nat.add_assoc]
      refine ⟨congrArg _ (first_locate src n item), ?_, hnext⟩
      rw [last_locate]
      omega

/-- A leaf that is found at an offset has the image it is spelled with. -/
theorem image_locate {t pre post : Text} {src : Source} {item : Item} (h : t = pre ++ (item.text ++ post))
    {l : Leaf} (hl : item.locate src pre.length = .leaf l) : l.image = l.span.textIn t := by
  cases item with
  | leaf cls image =>
      rw [Item.locate, Node.leaf.injEq] at hl
      have himage : (src.span pre.length (pre.length + image.length)).textIn t = image :=
        textIn_span h src rfl rfl
      subst hl
      cases cls <;> exact himage.symm
  | empty tag => simp [Item.locate] at hl
  | full tag children endTail => simp [Item.locate] at hl

theorem apart_locate {item next : Item} (h : item.Apart next) (src : Source) (m n : Nat) :
    (item.locate src m).Apart (next.locate src n) := by
  intro run hrun run' hrun'
  have hclass : ∀ {item : Item} {n : Nat} {run : CharData}, (item.locate src n).charData? = some run →
      item = .leaf .blank run.image ∧ run.blank = true ∨ item = .leaf .text run.image ∧ run.blank = false := by
    intro item n run hrun
    cases item with
    | leaf cls image => cases cls <;> simp_all [Item.locate, LeafClass.leaf, Node.charData?] <;> simp [← hrun]
    | empty tag => simp [Item.locate, Node.charData?] at hrun
    | full tag children endTail => simp [Item.locate, Node.charData?] at hrun
  rcases hclass hrun with ⟨hitem, hblank⟩ | ⟨hitem, hblank⟩ <;>
    rcases hclass hrun' with ⟨hnext, hblank'⟩ | ⟨hnext, hblank'⟩ <;> rw [hitem, hnext] at h
  · exact h.elim
  · exact ⟨hblank, hblank'⟩
  · exact h.elim
  · exact h.elim

theorem isChain_locateAll (src : Source) {items : List Item} (h : Item.WellFormedAll items) (n : Nat) :
    (Item.locateAll src n items).IsChain Node.Apart := by
  induction items generalizing n with
  | nil => exact .nil
  | cons item rest ih =>
      rw [Item.WellFormedAll] at h
      rw [Item.locateAll]
      cases rest with
      | nil => exact .singleton _
      | cons next rest =>
          have htail := ih h.2.2 (n + item.text.length)
          rw [Item.locateAll] at htail ⊢
          exact .cons_cons (apart_locate (h.2.1 next rfl) src _ _) htail

theorem image_of_mem_locateAll {t pre post : Text} {src : Source} {items : List Item}
    (h : t = pre ++ (Item.textAll items ++ post)) {l : Leaf} (hl : .leaf l ∈ Item.locateAll src pre.length items) :
    l.image = l.span.textIn t := by
  obtain ⟨before, item, after, rfl, hitem⟩ := exists_of_mem_locateAll hl
  rw [← List.length_append] at hitem
  have hplace : t = (pre ++ Item.textAll before) ++ (item.text ++ (Item.textAll after ++ post)) := by
    rw [h, textAll_append, Item.textAll]
    simp
  exact image_locate hplace hitem.symm

/-- Children that stand in a text come in the order of their offsets. -/
theorem increasing_locateAll (src : Source) {items : List Item} (h : Item.WellFormedAll items) (n : Nat) :
    (Item.locateAll src n items).Pairwise fun a b => a.span.first < b.span.first :=
  (@List.pairwise_map _ _ Node.span _ _).1 (tile_locateAll src h n).pairwise.1

/-- Spelled children that stand in a text take up all of the span from the first to the last. -/
theorem content_lossless {t pre post : Text} {src : Source} {items : List Item} (hitems : Item.WellFormedAll items)
    (h : t = pre ++ (Item.textAll items ++ post)) :
    Content.Lossless t ⟨Item.locateAll src pre.length items,
      src.span pre.length (pre.length + (Item.textAll items).length)⟩ := by
  have hinOrder : Content.inOrder ⟨Item.locateAll src pre.length items,
      src.span pre.length (pre.length + (Item.textAll items).length)⟩ = Item.locateAll src pre.length items :=
    sortedBy_eq_of_perm (Content.children_perm_byKind ⟨Item.locateAll src pre.length items, _⟩)
      (increasing_locateAll src hitems pre.length)
  refine ⟨?_, fun l hl => ?_, ?_⟩
  · rw [hinOrder]
    exact tile_locateAll src hitems pre.length
  · rw [hinOrder] at hl
    exact image_of_mem_locateAll h hl
  · rw [hinOrder]
    exact isChain_locateAll src hitems pre.length

/-! ### Elements -/

theorem empty_lossless {t pre post : Text} {src : Source} {tag : Open}
    (h : t = pre ++ ((Item.empty tag).text ++ post)) :
    Element.Lossless t ⟨tag.emptyTag src pre.length, []⟩ := by
  have htext : (tag.emptyTag src pre.length).span.textIn t = (Item.empty tag).text :=
    textIn_span h src rfl (by simp [Item.text])
  refine ⟨?_, ?_, .inl ⟨rfl, rfl⟩, by rintro _ ⟨⟩, by rintro _ ⟨⟩⟩
  · rw [htext, Item.text, Open.text]
    exact ⟨Attr.textAll tag.attributes ++ tag.tail ++ ['/', '>'], by simp [Open.emptyTag]⟩
  · rw [htext, Item.text]
    exact ⟨tag.text ++ ['/'], by simp⟩

theorem prefix_text (tag : Open) (t : Text) : '<' :: tag.name <+: tag.text ++ t :=
  ⟨Attr.textAll tag.attributes ++ (tag.tail ++ t), by simp [Open.text]⟩

theorem prefix_endTag (name endTail : Text) : '<' :: '/' :: name <+: Item.endTag name endTail :=
  ⟨endTail ++ ['>'], by simp [Item.endTag]⟩

theorem suffix_endTag (name endTail : Text) : ['>'] <:+ Item.endTag name endTail :=
  ⟨'<' :: '/' :: (name ++ endTail), by simp [Item.endTag]⟩

/-- An element with content stands in a text from the bracket of its start tag to that of its end tag. -/
theorem full_lossless {t pre post : Text} {src : Source} {tag : Open} {children : List Item} {endTail : Text}
    (hchildren : Item.WellFormedAll children) (h : t = pre ++ ((Item.full tag children endTail).text ++ post))
    {e : Element} (he : (Item.full tag children endTail).locate src pre.length = e.toNode) : e.Lossless t := by
  have hinside : t = (pre ++ (tag.text ++ ['>'])) ++ (Item.textAll children ++
      (Item.endTag tag.name endTail ++ post)) := by
    rw [h, Item.text]
    simp
  have hcontent := @content_lossless _ _ _ src _ hchildren hinside
  have hinner : (src.span (pre ++ (tag.text ++ ['>'])).length
      ((pre ++ (tag.text ++ ['>'])).length + (Item.textAll children).length)).textIn t = Item.textAll children :=
    textIn_span hinside src rfl rfl
  have hlength : pre.length + (tag.text.length + 1) = (pre ++ (tag.text ++ ['>'])).length := by simp
  have htext : (src.span pre.length (pre.length + (tag.text.length + 1) + (Item.textAll children).length +
      (Item.endTag tag.name endTail).length)).textIn t = (Item.full tag children endTail).text :=
    textIn_span h src rfl (by simp [Item.text]; omega)
  obtain ⟨eTag, eChildren⟩ := e
  rw [Item.locate, Element.toNode, Node.element.injEq] at he
  obtain ⟨rfl, rfl⟩ := he
  refine ⟨?_, ?_, .inr ⟨rfl, rfl⟩, fun c hc => ?_, fun c hc => ?_⟩
  · rw [htext, Item.text]
    exact prefix_text tag _
  · rw [htext, Item.text]
    exact (suffix_endTag tag.name endTail).trans ⟨tag.text ++ '>' :: Item.textAll children, by simp⟩
  · cases hc
    refine ⟨tag.text ++ ['>'], Item.endTag tag.name endTail, ?_, ?_, ?_, prefix_text tag _, ⟨tag.text, rfl⟩,
      prefix_endTag .., suffix_endTag ..⟩
    · rw [htext, hlength, hinner, Item.text]
      simp
    · simp [Source.span]
    · simp [Source.span]
      omega
  · cases hc
    rw [hlength]
    exact hcontent

/-- An element that stands in a text, and each element below it, is spelled there. -/
theorem exists_item_of_mem {t pre post : Text} {src : Source} {item : Item} (hitem : item.WellFormed)
    (h : t = pre ++ (item.text ++ post)) {e : Element} (he : e ∈ (item.locate src pre.length).elements) :
    ∃ (pre : Text) (item : Item) (post : Text), item.WellFormed ∧ t = pre ++ (item.text ++ post) ∧
      item.locate src pre.length = e.toNode := by
  induction item using Item.induct generalizing pre post with
  | leaf cls image => simp [elements_locate_leaf] at he
  | empty tag =>
      have hlocate := Item.locate.eq_2 src pre.length tag
      rw [hlocate, elements_empty, List.mem_singleton] at he
      exact ⟨pre, .empty tag, post, hitem, h, by rw [hlocate, he, Element.toNode]⟩
  | full tag children endTail ih =>
      have hlocate := Item.locate.eq_3 src pre.length tag children endTail
      rw [hlocate, elements_locateAll] at he
      rcases List.mem_cons.1 he with rfl | he
      · exact ⟨pre, .full tag children endTail, post, hitem, h, hlocate⟩
      · rw [Item.WellFormed] at hitem
        obtain ⟨node, hnode, he⟩ := List.mem_flatMap.1 he
        obtain ⟨before, child, after, rfl, rfl⟩ := exists_of_mem_locateAll hnode
        have hplace : pre.length + (tag.text.length + 1) + (Item.textAll before).length =
            (pre ++ (tag.text ++ '>' :: Item.textAll before)).length := by
          simp
          omega
        have hchild : t = (pre ++ (tag.text ++ '>' :: Item.textAll before)) ++ (child.text ++ (Item.textAll after ++
            (Item.endTag tag.name endTail ++ post))) := by
          rw [h, Item.text, textAll_append, Item.textAll]
          simp
        rw [hplace] at he
        exact ih child (by simp) (wellFormed_of_mem hitem.2.1 (by simp)) hchild he

theorem element_lossless {t pre post : Text} {src : Source} {item : Item} (hitem : item.WellFormed)
    (h : t = pre ++ (item.text ++ post)) {e : Element} (he : item.locate src pre.length = e.toNode) :
    e.Lossless t := by
  cases item with
  | leaf cls image => cases he
  | empty tag =>
      obtain ⟨eTag, eChildren⟩ := e
      rw [Item.locate, Element.toNode, Node.element.injEq] at he
      obtain ⟨rfl, rfl⟩ := he
      exact empty_lossless h
  | full tag children endTail =>
      rw [Item.WellFormed] at hitem
      exact full_lossless hitem.2.1 h he

/-! ### Documents -/

theorem last_node {top : Top} (src : Source) (n : Nat) :
    (top.node src n).span.last = ((n + top.text.length : Nat) : Int) - 1 := by
  cases top with
  | misc kind image => rfl
  | doctype decl => rfl
  | root item => exact last_locate src n item

/-- Nodes at the top level have only blanks between them. -/
theorem scattered_topNodesAt {t pre tail : Text} {src : Source} {tops : List (Text × Top)}
    (htops : ∀ top ∈ tops, Blanks top.1 ∧ top.2.WellFormed) (htail : Blanks tail)
    (h : t = pre ++ (Whole.topsText tops ++ tail)) :
    Span.Scattered t pre.length ((topNodesAt src pre.length tops).map TopNode.span) := by
  induction tops generalizing pre with
  | nil =>
      have hslice : t.slice pre.length t.length = tail :=
        @slice_eq t pre tail [] (by rw [h]; simp [Whole.topsText]) _ _ rfl (by rw [h]; simp [Whole.topsText])
      refine ⟨by rw [h, List.length_append]; omega, ?_⟩
      rw [hslice]
      exact htail
  | cons first rest ih =>
      obtain ⟨gap, top⟩ := first
      obtain ⟨hgap, htop⟩ := htops (gap, top) (by simp)
      have hpos : 0 < top.text.length := List.length_pos_iff.2 (top_text_ne_nil htop)
      have hrest : t = (pre ++ gap ++ top.text) ++ (Whole.topsText rest ++ tail) := by
        rw [h]
        simp [Whole.topsText]
      have hnext := ih (fun next hnext => htops next (by simp [hnext])) hrest
      have hfirst : (top.node src (pre.length + gap.length)).span.first = pre.length + gap.length :=
        Top.first_node ..
      have hlast : (top.node src (pre.length + gap.length)).span.last =
          ((pre.length + gap.length + top.text.length : Nat) : Int) - 1 := last_node ..
      have hslice : t.slice pre.length ((pre.length + gap.length : Nat) : Int) = gap :=
        @slice_eq t pre gap (top.text ++ (Whole.topsText rest ++ tail)) (by rw [hrest]; simp) _ _ rfl (by simp)
      rw [List.length_append, List.length_append] at hnext
      rw [topNodesAt, List.map_cons, Span.Scattered, hlast, hfirst, hslice, Int.sub_add_cancel]
      exact ⟨by omega, by omega, hgap, hnext⟩

theorem exists_of_mem_topNodesAt {src : Source} {n : Nat} {tops : List (Text × Top)} {node : TopNode}
    (h : node ∈ topNodesAt src n tops) :
    ∃ before gap top after, tops = before ++ (gap, top) :: after ∧
      node = top.node src (n + (Whole.topsText before ++ gap).length) := by
  induction tops generalizing n with
  | nil => simp [topNodesAt] at h
  | cons first rest ih =>
      obtain ⟨gap, top⟩ := first
      rw [topNodesAt] at h
      rcases List.mem_cons.1 h with rfl | h
      · exact ⟨[], gap, top, rest, rfl, rfl⟩
      · obtain ⟨before, gap', top', after, rfl, rfl⟩ := ih h
        refine ⟨(gap, top) :: before, gap', top', after, rfl, congrArg (top'.node src) ?_⟩
        simp [Whole.topsText]
        omega

/-- A node of the top level is the declaration, or stands for a part of the text. -/
theorem exists_of_mem_topNodes {w : Whole} (hw : w.WellFormed) {node : TopNode} (h : node ∈ w.locate.topNodes) :
    (∃ p, node = .prolog p) ∨ ∃ (pre : Text) (top : Top) (post : Text), top.WellFormed ∧
      w.text = pre ++ (top.text ++ post) ∧ node = top.node (Source.ofText w.text) pre.length := by
  rw [topNodes_locate hw, Whole.nodes, List.mem_append] at h
  rcases h with h | h
  · rw [Option.mem_toList, Option.map_eq_some_iff] at h
    obtain ⟨d, -, rfl⟩ := h
    exact .inl ⟨_, rfl⟩
  · obtain ⟨before, gap, top, after, htops, rfl⟩ := exists_of_mem_topNodesAt h
    refine .inr ⟨w.declarationText ++ (Whole.topsText before ++ gap), top, Whole.topsText after ++ w.tail,
      (hw.tops (gap, top) (by simp [htops])).2, ?_, by rw [← List.length_append]⟩
    rw [Whole.text, htops]
    simp [Whole.topsText]

/-- A node of any kind but the declaration stands for a part of the text. -/
theorem exists_top_of_mem {w : Whole} (hw : w.WellFormed) {node : TopNode} (h : node ∈ w.locate.nodesByKind)
    (hprolog : ∀ p, node ≠ .prolog p) : ∃ (pre : Text) (top : Top) (post : Text), top.WellFormed ∧
      w.text = pre ++ (top.text ++ post) ∧ node = top.node (Source.ofText w.text) pre.length := by
  rcases exists_of_mem_topNodes hw ((List.mergeSort_perm ..).mem_iff.2 h) with ⟨p, hp⟩ | htop
  · exact absurd hp (hprolog p)
  · exact htop

/-- There are only blanks between the nodes of the top level. -/
theorem scattered_topNodes {w : Whole} (hw : w.WellFormed) :
    Span.Scattered w.text 0 (w.locate.topNodes.map TopNode.span) := by
  rw [topNodes_locate hw, Whole.nodes, List.map_append]
  have htops := @scattered_topNodesAt w.text w.declarationText w.tail (Source.ofText w.text) w.tops hw.tops
    hw.tail_blanks rfl
  cases hd : w.declaration with
  | none =>
      have hnil : w.declarationText = [] := by rw [Whole.declarationText, hd]
      rw [hnil] at htops ⊢
      exact htops
  | some d =>
      have htext : w.declarationText = d.text := by rw [Whole.declarationText, hd]
      have hpos : 0 < d.text.length := by simp [Declaration.text, Cursor.prologStart]
      have hspan : (d.locate (Source.ofText w.text) 0).span = (Source.ofText w.text).span 0 d.text.length := by
        simp only [Declaration.locate, Nat.zero_add]
      rw [htext] at htops
      simp only [Option.map_some, Option.toList_some, List.map_cons, List.map_nil, List.singleton_append,
        Span.Scattered, TopNode.span, hspan, htext]
      refine ⟨le_refl _, ?_, ?_, ?_⟩
      · simp only [Source.span]
        omega
      · simp [Source.span, Text.slice, Text.place, Blanks]
      · rw [Source.span, Int.sub_add_cancel]
        exact htops

/-- Each element of a document is spelled in its text. -/
theorem exists_item_of_mem_elements {w : Whole} (hw : w.WellFormed) {e : Element} (he : e ∈ w.locate.elements) :
    ∃ (pre : Text) (item : Item) (post : Text), item.WellFormed ∧ w.text = pre ++ (item.text ++ post) ∧
      item.locate (Source.ofText w.text) pre.length = e.toNode := by
  rw [Document.elements_eq, List.mem_flatMap] at he
  obtain ⟨node, hmem, he⟩ := he
  rcases exists_of_mem_topNodes hw hmem with ⟨p, rfl⟩ | ⟨pre, top, post, htop, htext, rfl⟩
  · cases he
  · cases top with
    | misc kind image => cases he
    | doctype decl => cases he
    | root item => exact exists_item_of_mem htop.2 htext he

/-- What is read from the text of a spelling loses nothing of it. -/
theorem locate_lossless {w : Whole} (hw : w.WellFormed) : w.locate.Lossless w.text := by
  refine ⟨fun e he => ?_, fun m hm => ?_, scattered_topNodes hw⟩
  · obtain ⟨pre, item, post, hitem, htext, hlocate⟩ := exists_item_of_mem_elements hw he
    exact element_lossless hitem htext hlocate
  · have hmem : TopNode.misc m ∈ w.locate.nodesByKind := by simp [Document.nodesByKind, hm]
    obtain ⟨pre, top, post, -, htext, heq⟩ := exists_top_of_mem hw hmem (by simp)
    cases top with
    | misc kind image =>
        cases heq
        exact (textIn_span htext _ rfl rfl).symm
    | doctype decl => cases heq
    | root item => cases heq

end Spelled

/-- The tree that is read from a text loses nothing of it: contents are tiled by their children, leaves are what
stands in their spans, elements reach from tag to tag, and outside of the nodes there are only blanks. -/
theorem Document.read_lossless {t : Text} {d : Document} (h : read t = .ok d) : d.Lossless t := by
  obtain ⟨w, hw, rfl, rfl⟩ := exists_spelling h
  exact Spelled.locate_lossless hw

/-- Leaves of several classes, an empty element and nodes around the root. -/
def Document.scatteredText : Text :=
  "<?xml version='1.0'?> <!DOCTYPE a>\n<!-- b --><a k='1' > x &amp;<c/><![CDATA[ ]]></a > ".toList

/-- Such a text can be read, and its tree loses nothing of it. -/
theorem Document.read_lossless_scattered :
    ∃ d, read scatteredText = .ok d ∧ (∃ e ∈ d.elements, e.children.length = 5) ∧ d.Lossless scatteredText := by
  obtain ⟨d, hread, htest⟩ := @exists_ok_of_any _ _ (read scatteredText)
    (fun d => d.root.any fun e : Element => e.children.length == 5) (by decide +kernel)
  rw [Option.any_eq_true] at htest
  obtain ⟨e, he, hlength⟩ := htest
  have hmem : e ∈ d.elements := by
    simp [elements, he, Element.toNode, Node.elements]
  exact ⟨d, hread, ⟨e, hmem, eq_of_beq hlength⟩, read_lossless hread⟩

end XmlTidy
