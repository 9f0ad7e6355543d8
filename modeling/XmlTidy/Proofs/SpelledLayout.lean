import XmlTidy.Printing.Document
import XmlTidy.Proofs.Spelling

/-!
The layout of a spelling. It is built from the items as they stand, in their order: no offsets are
compared, no list is sorted, and a range that is to be kept as written is the text of its items. Where
whitespace may be reflowed, each child that is more than blanks is an entry with the blanks in front of
it, and a joint says how it is put behind the entry before it.
-/

namespace XmlTidy

namespace Spelled

/-! ### Tags -/

def Attr.pair (a : Attr) : Text × Text := (a.name, a.value)

/-- Attributes in canonical order; those of one name stay in their order. -/
def sortPairs (pairs : List (Text × Text)) : List (Text × Text) :=
  pairs.mergeSort fun a b => (compareNames a.1 b.1).isLE

/-- Attributes as a style prints them. -/
def stylePairs (style : Style) (pairs : List (Text × Text)) : List (Text × Text) :=
  (if style.sortAttributes then sortPairs pairs else pairs).map fun (name, value) =>
    (name, requote style.quotes value)

namespace Open

def pairs (o : Open) : List (Text × Text) := o.attributes.map Attr.pair

def styled (style : Style) (o : Open) : List (Text × Text) := stylePairs style o.pairs

end Open

def attrDoc (pair : Text × Text) : Doc :=
  .concat [.text pair.1, .text ['='], .text pair.2]

/-- What separates attributes. -/
def attrSeparator (style : Style) : Doc :=
  if style.oneAttributePerLine then .hardLine else .spaceLine

/-- A tag up to its last attribute. -/
def tagHead (style : Style) (name : Text) (pairs : List (Text × Text)) : List Doc :=
  let start := [Doc.text ['<'], .text name]
  if pairs.isEmpty then start
  else
    start ++ [.indent (.concat
      [.spaceLine, .concat (Doc.join (attrSeparator style) (pairs.map attrDoc))])]

namespace Open

/-- The tag of an element without content. -/
def emptyDoc (style : Style) (o : Open) : Doc :=
  .grouped (.concat (tagHead style o.name (o.styled style) ++ [Tag.slashSpace style, .text ['/', '>']]))

/-- What stands before the closing bracket of an open tag. -/
def bracketSpace (style : Style) : Doc :=
  if style.bracketSameLine then .text [] else .softLine

def bareDoc (style : Style) (o : Open) : Doc :=
  .grouped (.concat (tagHead style o.name (o.styled style) ++ [bracketSpace style, .text ['>']]))

def closeDoc (o : Open) : Doc :=
  .grouped (.concat [.text ['<', '/'], .text o.name, .text ['>']])

end Open

/-! ### Ignore ranges -/

namespace Item

def isStart (markers : Markers) : Item → Bool
  | .leaf .comment image => image = markers.start
  | _ => false

/-- A comment that could be either marker marks a start. -/
def isStop (markers : Markers) : Item → Bool
  | .leaf .comment image => image ≠ markers.start && image = markers.stop
  | _ => false

/-- Whether the next marker ends a range. -/
def closes (markers : Markers) : List Item → Bool
  | [] => false
  | item :: rest =>
      if item.isStart markers then false
      else if item.isStop markers then true
      else closes markers rest

/-- Whether there is a range. -/
def hasRange (markers : Markers) : List Item → Bool
  | [] => false
  | item :: rest => (item.isStart markers && closes markers rest) || hasRange markers rest

/-- The items up to the first end marker, and those behind it. -/
def splitStop (markers : Markers) : List Item → List Item × List Item
  | [] => ([], [])
  | item :: rest =>
      if item.isStop markers then ([item], rest)
      else (item :: (splitStop markers rest).1, (splitStop markers rest).2)

theorem splitStop_append (markers : Markers) (items : List Item) :
    (splitStop markers items).1 ++ (splitStop markers items).2 = items := by
  induction items with
  | nil => rfl
  | cons item rest ih =>
      rw [splitStop]
      split
      · rfl
      · rw [List.cons_append, ih]

theorem length_splitStop_le (markers : Markers) (items : List Item) :
    (splitStop markers items).2.length ≤ items.length := by
  have := congrArg List.length (splitStop_append markers items)
  rw [List.length_append] at this
  omega

/-- Whether a run of blanks and the text behind it meet on a line. -/
def meets : Item → Item → Bool
  | .leaf .blank blanks, .leaf .text _ => blanks.getLast? != some '\n'
  | _, _ => false

end Item

/-! ### Content that is kept -/

/-- What is laid out as one: an ignore range, a run of blanks with the text that it meets, or else a single
item. -/
inductive Piece where
  | range (items : List Item)
  | pair (blanks text : Item)
  | single (item : Item)
deriving Repr

namespace Piece

def items : Piece → List Item
  | .range items => items
  | .pair blanks text => [blanks, text]
  | .single item => [item]

/-- The layout of a piece, given that of single items. A range is printed as it was written. -/
def doc (layout : Item → Doc) : Piece → Doc
  | .range items => .verbatim (Item.textAll items)
  | .pair blanks text => .grouped (.concat [.verbatim blanks.text, .verbatim text.text])
  | .single item => layout item

end Piece

/-- The pieces of items one behind the other; ranges are looked for only if asked for. -/
def pieces (markers : Markers) (ranged : Bool) : List Item → List Piece
  | [] => []
  | item :: rest =>
      if ranged && (item.isStart markers && Item.closes markers rest) then
        .range (item :: (Item.splitStop markers rest).1) ::
          pieces markers ranged (Item.splitStop markers rest).2
      else
        match rest with
        | [] => [.single item]
        | next :: rest =>
            if item.meets next then .pair item next :: pieces markers ranged rest
            else .single item :: pieces markers ranged (next :: rest)
termination_by items => items.length
decreasing_by
  · have := Item.length_splitStop_le markers rest
    simp only [List.length_cons]
    omega
  · simp only [List.length_cons]
    omega
  · simp

section Pieces

variable {markers : Markers} {ranged : Bool} {item next : Item} {rest : List Item}

theorem pieces_range (h : (ranged && (item.isStart markers && Item.closes markers rest)) = true) :
    pieces markers ranged (item :: rest) =
      .range (item :: (Item.splitStop markers rest).1) ::
        pieces markers ranged (Item.splitStop markers rest).2 := by
  rw [pieces.eq_def]
  simp only [h, if_true]

theorem pieces_pair
    (h : (ranged && (item.isStart markers && Item.closes markers (next :: rest))) = false)
    (hmeets : item.meets next = true) :
    pieces markers ranged (item :: next :: rest) = .pair item next :: pieces markers ranged rest := by
  rw [pieces.eq_def]
  simp only [h, Bool.false_eq_true, if_false, hmeets, if_true]

/-- An item that neither starts a range nor meets the next one. -/
theorem pieces_single (h : (ranged && (item.isStart markers && Item.closes markers rest)) = false)
    (hmeets : ∀ next ∈ rest.head?, item.meets next = false) :
    pieces markers ranged (item :: rest) = .single item :: pieces markers ranged rest := by
  rw [pieces.eq_def]
  simp only [h, Bool.false_eq_true, if_false]
  cases rest with
  | nil => rw [pieces]
  | cons next rest => simp only [hmeets next rfl, Bool.false_eq_true, if_false]

/-- Pieces as they come: what holds of a list if it holds of what is left behind its first piece. -/
@[elab_as_elim]
theorem pieces_induct (markers : Markers) (ranged : Bool) {motive : List Item → Prop}
    (nil : motive [])
    (range : ∀ item rest, (ranged && (item.isStart markers && Item.closes markers rest)) = true →
      motive (Item.splitStop markers rest).2 → motive (item :: rest))
    (pair : ∀ item next rest,
      (ranged && (item.isStart markers && Item.closes markers (next :: rest))) = false →
      item.meets next = true → motive rest → motive (item :: next :: rest))
    (single : ∀ item rest, (ranged && (item.isStart markers && Item.closes markers rest)) = false →
      (∀ next ∈ rest.head?, item.meets next = false) → motive rest → motive (item :: rest))
    (items : List Item) : motive items := by
  fun_induction pieces markers ranged items with
  | case1 => exact nil
  | case2 item rest h ih => exact range item rest h ih
  | case3 item h => exact single item [] (by simpa using h) (by simp) nil
  | case4 item next rest hmeets h ih => exact pair item next rest (by simpa using h) hmeets ih
  | case5 item next rest hmeets h ih =>
      exact single item (next :: rest) (by simpa using h) (by simpa using hmeets) ih

/-- The pieces hold all items. -/
theorem flatMap_pieces (markers : Markers) (ranged : Bool) (items : List Item) :
    (pieces markers ranged items).flatMap Piece.items = items := by
  induction items using pieces_induct markers ranged with
  | nil => rw [pieces]; rfl
  | range item rest h ih =>
      rw [pieces_range h, List.flatMap_cons, ih]
      simp [Piece.items, Item.splitStop_append]
  | pair item next rest h hmeets ih =>
      rw [pieces_pair h hmeets, List.flatMap_cons, ih]
      rfl
  | single item rest h hmeets ih =>
      rw [pieces_single h hmeets, List.flatMap_cons, ih]
      rfl

end Pieces

/-- The layouts of items one behind the other, given the layout of each. -/
def keptDocs (markers : Markers) (layout : Item → Doc) (items : List Item) : List Doc :=
  (pieces markers true items).map (Piece.doc layout)

namespace Item

/-! ### Content that is reflowed -/

def isBlankRun : Item → Bool
  | .leaf .blank _ => true
  | _ => false

def isText : Item → Bool
  | .leaf .text _ => true
  | _ => false

def isComment : Item → Bool
  | .leaf .comment _ => true
  | _ => false

/-- Whether an item flows with the text around it. -/
def isInline : Item → Bool
  | .leaf .text _ | .leaf (.reference _) _ => true
  | _ => false

/-- Whether an item is a text with blanks at its end. -/
def endsBlank : Item → Bool
  | .leaf .text image => Text.endsBlank image
  | _ => false

end Item

/-- A child that is more than blanks, with the blanks in front of it. -/
structure Entry where
  gap : Text
  item : Item
deriving Repr

/-- The entries of items, given the blanks in front of them. -/
def entries (gap : Text) : List Item → List Entry
  | [] => []
  | .leaf .blank image :: rest => entries image rest
  | item :: rest => ⟨gap, item⟩ :: entries [] rest

/-- How an entry is put behind what stands before it: behind a blank line, on a line of its own, on the
line of the open tag, on the line of a sibling, or into the text. The last three have whitespace in
front of them or not. -/
inductive Joint where
  | blankLine
  | newLine
  | attach (spaced : Bool)
  | beside (spaced : Bool)
  | flow (spaced : Bool)
deriving DecidableEq, Repr

def delimiter (spaced : Bool) : Doc := if spaced then .spaceLine else .softLine

/-- The line ends between the last character of an item and what follows the blanks behind it. -/
def lineEnds (previous : Item) (gap : Text) : Nat :=
  ((previous.text.getLast?).toList ++ gap).count '\n'

/-- The joint of an entry behind another one, if there is one. -/
def Entry.joint (previous : Option Item) (e : Entry) : Joint :=
  let spaced := !e.gap.isEmpty || (previous.map Item.endsBlank).getD false
  if (previous.map fun p => decide (2 ≤ lineEnds p e.gap)).getD false then .blankLine
  else if e.item.isComment then
    if e.gap.hasNewline then .newLine
    else if previous.isNone then .attach spaced
    else .beside spaced
  else if e.item.isInline && (previous.map Item.isInline).getD false then .flow spaced
  else .newLine

section Flow

variable (layout : Item → Doc)

/-- What flows into the text behind an item. -/
def flowParts (previous : Item) : List Entry → List Doc
  | [] => []
  | e :: rest =>
      match e.joint previous with
      | .flow spaced => delimiter spaced :: layout e.item :: flowParts e.item rest
      | _ => []

/-- What is left of the entries behind those that flow into the text, with the item before it. -/
def flowRest (previous : Item) : List Entry → Item × List Entry
  | [] => (previous, [])
  | e :: rest =>
      match e.joint previous with
      | .flow _ => flowRest e.item rest
      | _ => (previous, e :: rest)

theorem length_flowRest_le (previous : Item) (es : List Entry) :
    (flowRest previous es).2.length ≤ es.length := by
  induction es generalizing previous with
  | nil => exact Nat.le_refl _
  | cons e rest ih =>
      rw [flowRest]
      split
      · exact Nat.le_trans (ih e.item) (Nat.le_succ _)
      · exact Nat.le_refl _

/-- The style of the cluster that an item starts on a line of its own. -/
def lineStyle (item : Item) : ClusterStyle :=
  if item.isInline then .fill else .plain

/-- The cluster that an entry starts. -/
def Joint.cluster (item : Item) : Joint → Cluster
  | .blankLine => ⟨lineStyle item, [.hardLine, .hardLine], [layout item]⟩
  | .beside spaced => ⟨.group, [], [delimiter spaced, layout item]⟩
  | _ => ⟨lineStyle item, [.hardLine], [layout item]⟩

/-- The clusters of entries behind an item, if there is one. -/
def clusters (previous : Option Item) : List Entry → List Cluster
  | [] => []
  | e :: rest =>
      ((e.joint previous).cluster layout e.item).extend (flowParts layout e.item rest) ::
        clusters (some (flowRest e.item rest).1) (flowRest e.item rest).2
termination_by es => es.length
decreasing_by
  have := length_flowRest_le e.item rest
  simp only [List.length_cons]
  omega

end Flow

/-- A comment on the line of the open tag. -/
def attachedDoc (spaced : Bool) (comment : Doc) : Doc :=
  .ifBreak (.grouped (.indent (.concat [delimiter spaced, comment])))
    (.concat [delimiter spaced, comment])

/-- The comment that stays on the line of the open tag, if there is one, and the clusters. -/
def attachment (layout : Item → Doc) : List Entry → List Doc × List Cluster
  | [] => ([], [])
  | e :: rest =>
      match e.joint none with
      | .attach spaced => ([attachedDoc spaced (layout e.item)], clusters layout e.item rest)
      | _ => ([], clusters layout none (e :: rest))

namespace Open

/-- The open tag with the comments that stay on its line. -/
def openDoc (style : Style) (o : Open) (attached : List Doc) : Doc :=
  if attached.isEmpty then o.bareDoc style else .grouped (.concat (o.bareDoc style :: attached))

/-- Whether the whitespace between some items may be dropped and reflowed. -/
def reflows (style : Style) (o : Open) (children : List Item) : Bool :=
  style.sensitivity ≠ .strict &&
    o.name ≠ "xsl:text".toList &&
    !(o.pairs.any fun pair =>
      pair.1 = "xml:space".toList && Attribute.innerOf pair.2 ≠ "default".toList) &&
    !Item.hasRange style.markers children

/-- Whether text among the children keeps them as they are. -/
def keepsText (style : Style) (children : List Item) : Bool :=
  style.sensitivity = .preserve && children.any Item.isText

end Open

/-- Text that stands in a fill. -/
def textDoc (image : Text) : Doc := segmentsLayout (segments image.trim)

/-- An item among others that are reflowed, given its layout elsewhere. -/
def Item.flowDoc (layout : Item → Doc) : Item → Doc
  | .leaf .text image => textDoc image
  | item => layout item

/-- An element whose children are reflowed. -/
def reflowedDoc (style : Style) (o : Open) (layout : Item → Doc) (es : List Entry) : Doc :=
  match es with
  | [] => o.emptyDoc style
  | [⟨_, .leaf .text image⟩] =>
      .grouped (.concat
        [o.bareDoc style, .indent (.concat [.softLine, textDoc image]), .softLine, o.closeDoc])
  | es =>
      let (attached, clusters) := attachment (Item.flowDoc layout) es
      .grouped (.concat
        [o.openDoc style attached, .indent (.concat (clusters.map Cluster.layout)), .hardLine,
          o.closeDoc])

/-- An element, given the layout of its children. -/
def elementDoc (style : Style) (o : Open) (layout : Item → Doc) (children : List Item) : Doc :=
  if children.isEmpty then o.emptyDoc style
  else if !o.reflows style children then
    .grouped (.concat
      [o.bareDoc style, .indent (.grouped (.concat (keptDocs style.markers layout children))),
        o.closeDoc])
  else if Open.keepsText style children then
    .grouped (.concat
      [o.bareDoc style, .concat (keptDocs style.markers layout children), o.closeDoc])
  else reflowedDoc style o layout (entries [] children)

/-- A leaf as it was written. -/
def LeafClass.doc : LeafClass → Text → Doc
  | .blank, image | .text, image => .verbatim image
  | _, image => .text image

mutual
/-- How deep elements are nested in an item. -/
def Item.height : Item → Nat
  | .leaf _ _ | .empty _ => 0
  | .full _ children _ => Item.heightAll children + 1

def Item.heightAll : List Item → Nat
  | [] => 0
  | item :: rest => max item.height (Item.heightAll rest)
end

theorem Item.height_le_of_mem {item : Item} {items : List Item} (h : item ∈ items) :
    item.height ≤ heightAll items := by
  induction items with
  | nil => simp at h
  | cons first rest ih =>
      rw [heightAll]
      rcases List.mem_cons.1 h with rfl | h
      · omega
      · have := ih h
        omega

/-- What holds of an element if it holds of its children holds of all items. -/
@[elab_as_elim]
theorem Item.induct {motive : Item → Prop} (leaf : ∀ cls image, motive (.leaf cls image))
    (empty : ∀ tag, motive (.empty tag))
    (full : ∀ tag children endTail, (∀ child ∈ children, motive child) →
      motive (.full tag children endTail)) (item : Item) : motive item := by
  induction h : item.height using Nat.strongRecOn generalizing item with
  | ind n ih =>
      cases item with
      | leaf cls image => exact leaf cls image
      | empty tag => exact empty tag
      | full tag children endTail =>
          refine full tag children endTail fun child hchild => ih child.height ?_ child rfl
          rw [← h, Item.height]
          exact Nat.lt_succ_of_le (Item.height_le_of_mem hchild)

/-- The layout of an item. The children of an element are less deep than it. -/
def Item.doc (style : Style) : Item → Doc
  | .leaf cls image => cls.doc image
  | .empty tag => tag.emptyDoc style
  | .full tag children endTail =>
      elementDoc style tag
        (fun child =>
          if _h : child.height < (Item.full tag children endTail).height then child.doc style
          else .text [])
        children
termination_by item => item.height
decreasing_by exact _h

/-- The layout of an item among others that are reflowed. -/
abbrev Item.flow (style : Style) (item : Item) : Doc := item.flowDoc (Item.doc style)

/-! ### Kinds of items -/

theorem exists_of_isBlankRun {item : Item} (h : item.isBlankRun = true) :
    ∃ image, item = .leaf .blank image := by
  cases item with
  | leaf cls image => cases cls <;> first | exact ⟨image, rfl⟩ | simp [Item.isBlankRun] at h
  | _ => simp [Item.isBlankRun] at h

theorem exists_of_isText {item : Item} (h : item.isText = true) : ∃ image, item = .leaf .text image := by
  cases item with
  | leaf cls image => cases cls <;> first | exact ⟨image, rfl⟩ | simp [Item.isText] at h
  | _ => simp [Item.isText] at h

/-- What flows and is not text is a reference. -/
theorem exists_reference {item : Item} (hinline : item.isInline = true) (htext : item.isText = false) :
    ∃ kind image, item = .leaf (.reference kind) image := by
  cases item with
  | leaf cls image =>
      cases cls with
      | reference kind => exact ⟨kind, image, rfl⟩
      | text => simp [Item.isText] at htext
      | _ => simp [Item.isInline] at hinline
  | _ => simp [Item.isInline] at hinline

theorem exists_comment {item : Item} (h : item.isComment = true) : ∃ image, item = .leaf .comment image := by
  cases item with
  | leaf cls image => cases cls <;> first | exact ⟨_, rfl⟩ | cases h
  | _ => cases h

theorem flow_leaf {style : Style} {cls : LeafClass} (hblank : cls ≠ .blank) (htext : cls ≠ .text) (image : Text) :
    (Item.leaf cls image).flow style = .text image := by
  cases cls <;> first | contradiction | simp [Item.flow, Item.flowDoc, Item.doc, LeafClass.doc]

theorem flow_of_not_text {style : Style} {item : Item} (h : item.isText = false) :
    item.flow style = item.doc style := by
  cases item with
  | leaf cls image => cases cls <;> first | rfl | cases h
  | _ => rfl

/-! ### The layout of an element depends on its children only -/

section Congr

variable {f g : Item → Doc}

theorem keptDocs_congr {markers : Markers} {items : List Item} (h : ∀ item ∈ items, f item = g item) :
    keptDocs markers f items = keptDocs markers g items := by
  refine List.map_congr_left fun piece hpiece => ?_
  cases piece with
  | single item =>
      refine h item ?_
      rw [← flatMap_pieces markers true items, List.mem_flatMap]
      exact ⟨_, hpiece, by simp [Piece.items]⟩
  | _ => rfl

theorem mem_of_mem_entries {gap : Text} {items : List Item} {e : Entry} (h : e ∈ entries gap items) :
    e.item ∈ items := by
  fun_induction entries gap items with
  | case1 => simp at h
  | case2 gap image rest ih => exact List.mem_cons_of_mem _ (ih h)
  | case3 gap item rest _ ih =>
      rcases List.mem_cons.1 h with rfl | h
      · simp
      · exact List.mem_cons_of_mem _ (ih h)

theorem flowParts_congr {previous : Item} {es : List Entry} (h : ∀ e ∈ es, f e.item = g e.item) :
    flowParts f previous es = flowParts g previous es := by
  induction es generalizing previous with
  | nil => rfl
  | cons e rest ih =>
      rw [flowParts, flowParts, h e (by simp), ih fun e' he => h e' (by simp [he])]

theorem mem_of_mem_flowRest {previous : Item} {es : List Entry} {e : Entry}
    (h : e ∈ (flowRest previous es).2) : e ∈ es := by
  induction es generalizing previous with
  | nil => simp [flowRest] at h
  | cons e' rest ih =>
      rw [flowRest] at h
      split at h
      · exact List.mem_cons_of_mem _ (ih h)
      · exact h

theorem clusters_congr {previous : Option Item} {es : List Entry} (h : ∀ e ∈ es, f e.item = g e.item) :
    clusters f previous es = clusters g previous es := by
  fun_induction clusters f previous es with
  | case1 => rw [clusters]
  | case2 previous e rest ih =>
      rw [clusters, flowParts_congr fun e' he => h e' (by simp [he]),
        ih fun e' he => h e' (by simp [mem_of_mem_flowRest he])]
      cases e.joint previous <;> simp [Joint.cluster, h e (by simp)]

theorem attachment_congr {es : List Entry} (h : ∀ e ∈ es, f e.item = g e.item) :
    attachment f es = attachment g es := by
  cases es with
  | nil => rfl
  | cons e rest =>
      rw [attachment, attachment, h e (by simp), clusters_congr fun e' he => h e' (by simp [he]),
        clusters_congr h]

theorem Item.flowDoc_congr {item : Item} (h : f item = g item) : item.flowDoc f = item.flowDoc g := by
  unfold Item.flowDoc
  split <;> simp_all

theorem reflowedDoc_congr {style : Style} {o : Open} {es : List Entry}
    (h : ∀ e ∈ es, f e.item = g e.item) : reflowedDoc style o f es = reflowedDoc style o g es := by
  have hattach := attachment_congr (f := Item.flowDoc f) (g := Item.flowDoc g) fun e he =>
    Item.flowDoc_congr (h e he)
  unfold reflowedDoc
  split <;> simp_all

theorem elementDoc_congr {style : Style} {o : Open} {children : List Item}
    (h : ∀ item ∈ children, f item = g item) :
    elementDoc style o f children = elementDoc style o g children := by
  have hentries : ∀ e ∈ entries [] children, f e.item = g e.item := fun e he =>
    h e.item (mem_of_mem_entries he)
  rw [elementDoc, elementDoc, keptDocs_congr h, reflowedDoc_congr hentries]

end Congr

theorem Item.doc_full (style : Style) (tag : Open) (children : List Item) (endTail : Text) :
    (Item.full tag children endTail).doc style = elementDoc style tag (Item.doc style) children := by
  rw [Item.doc]
  refine elementDoc_congr fun item hitem => dif_pos ?_
  rw [Item.height]
  exact Nat.lt_succ_of_le (Item.height_le_of_mem hitem)

/-! ### Documents -/

/-- The pseudo-attributes of a declaration keep their order. -/
def Declaration.styled (style : Style) (d : Declaration) : List (Text × Text) :=
  d.attributes.map fun a => (a.name, requote style.quotes a.value)

def Declaration.doc (style : Style) (d : Declaration) : Doc :=
  let attributes :=
    if d.attributes.isEmpty then []
    else [Doc.indent (.concat
      [.spaceLine, .concat (Doc.join .spaceLine ((d.styled style).map attrDoc))])]
  let space := if style.selfClosingSpace then Doc.spaceLine else Doc.softLine
  .grouped (.concat (.lit "<?xml" :: attributes ++ [space, .lit "?>"]))

/-- A literal behind what it belongs to. -/
def literalDoc (before : Doc) (literal : Text) : Doc :=
  .grouped (.concat [before, .indent (.concat [.spaceLine, .text literal])])

def External.doc (e : External) : Doc :=
  match e with
  | .systemId _ literal => literalDoc (.text e.keyword.image) literal
  | .publicId _ literal none => literalDoc (.text e.keyword.image) literal
  | .publicId _ literal (some (_, literal')) =>
      literalDoc (literalDoc (.text e.keyword.image) literal) literal'

/-- The external identifier behind a blank, if there is one. -/
def TypeDecl.externalDocs (d : TypeDecl) : List Doc :=
  match d.external with
  | none => []
  | some (_, e) => [.text [' '], e.doc]

/-- The internal subset behind a blank, if there is one. -/
def TypeDecl.subsetDocs (d : TypeDecl) : List Doc :=
  match d.subset with
  | none => []
  | some s => [.text [' '], .verbatim s]

def TypeDecl.doc (d : TypeDecl) : Doc :=
  .grouped (.concat ([.lit "<!DOCTYPE", .text [' '], .text d.name] ++ d.externalDocs ++ d.subsetDocs ++
    [.text ['>']]))

def Top.doc (style : Style) : Top → Doc
  | .misc _ image => .text image
  | .doctype decl => decl.doc
  | .root item => item.doc style

/-- The nodes of a document, each on lines of its own. -/
def Whole.docs (style : Style) (w : Whole) : List Doc :=
  (w.declaration.map (·.doc style)).toList ++ w.tops.map fun top => top.2.doc style

def Whole.doc (style : Style) (w : Whole) : Doc :=
  .concat [.concat (Doc.join .hardLine (w.docs style)), .hardLine]

end Spelled

end XmlTidy
