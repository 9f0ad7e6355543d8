import XmlTidy.Proofs.AttributeOrder
import XmlTidy.Proofs.Grammar
import XmlTidy.Proofs.KeptChildren

/-!
The strict form of a document. Where all whitespace counts, what is printed depends on what a document says and
not on how its tags were written: blanks inside of tags and declarations and between top-level nodes have
no part in it, an element without content may be closed in either way, and if attributes are sorted, the
order they come in does not matter. Only an ignore range shows how its markup was written.
-/

namespace XmlTidy

/-! ### Documents that match -/

/-- The same attributes: in the same order, or in any order if they are sorted and no name occurs twice. -/
def MatchingPairs (sorted : Bool) (as bs : List (Text × Text)) : Prop :=
  as = bs ∨ (sorted = true ∧ (as.map Prod.fst).Nodup ∧ as.Perm bs)

/-- Nodes that say the same; how an element without content is closed says nothing. -/
inductive Outline.Matches (sorted : Bool) : Outline → Outline → Prop where
  | leaf (cls : Spelled.LeafClass) (image : Text) : Matches sorted (.leaf cls image) (.leaf cls image)
  | element {name : Text} {as bs : List (Text × Text)} {closing closing' : Bool} {endName endName' : Option Text}
      {content content' : Option (List Outline)} (hattributes : MatchingPairs sorted as bs)
      (hcontent : List.Forall₂ (Matches sorted) (content.getD []) (content'.getD [])) :
      Matches sorted (.element name as closing endName content) (.element name bs closing' endName' content')

/-- Top-level nodes that say the same. -/
inductive TopOutline.Matches (sorted : Bool) : TopOutline → TopOutline → Prop where
  | prolog (attributes : List (Text × Text)) : Matches sorted (.prolog attributes) (.prolog attributes)
  | doctype (name : Text) (externalId : Option (Text × Option Text × Option Text)) (subset : Option Text) :
      Matches sorted (.doctype name externalId subset) (.doctype name externalId subset)
  | misc (kind : MiscKind) (image : Text) : Matches sorted (.misc kind image) (.misc kind image)
  | root {node node' : Outline} (h : node.Matches sorted node') : Matches sorted (.root node) (.root node')

namespace TopOutline.Matches

theorem prolog_eq {sorted : Bool} {as bs : List (Text × Text)}
    (h : (TopOutline.prolog as).Matches sorted (.prolog bs)) : as = bs := by
  cases h
  rfl

theorem doctype_eq {sorted : Bool} {name name' : Text} {externalId externalId' : Option (Text × Option Text × Option Text)}
    {subset subset' : Option Text}
    (h : (TopOutline.doctype name externalId subset).Matches sorted (.doctype name' externalId' subset')) :
    name = name' ∧ externalId = externalId' ∧ subset = subset' := by
  cases h
  exact ⟨rfl, rfl, rfl⟩

end TopOutline.Matches

/-- Documents that say the same in the same order. -/
def Document.Matches (sorted : Bool) (d e : Document) : Prop :=
  List.Forall₂ (TopOutline.Matches sorted) d.outline e.outline

/-! ### Attributes in any order -/

namespace Spelled

/-- Sorting forgets the order of attributes with distinct names. -/
theorem sortPairs_eq_of_perm {as bs : List (Text × Text)} (hnames : (as.map Prod.fst).Nodup)
    (h : as.Perm bs) : sortPairs as = sortPairs bs :=
  mergeSort_names_eq_of_perm hnames h

theorem stylePairs_eq_of_matching {style : Style} {as bs : List (Text × Text)}
    (h : MatchingPairs style.sortAttributes as bs) : stylePairs style as = stylePairs style bs := by
  rcases h with rfl | ⟨hsort, hnames, hperm⟩
  · rfl
  · rw [stylePairs, stylePairs, hsort, if_pos rfl, if_pos rfl, sortPairs_eq_of_perm hnames hperm]

/-! ### Tags -/

section Tags

variable {style : Style} {o o' : Open} (hname : o.name = o'.name)
  (hpairs : MatchingPairs style.sortAttributes o.pairs o'.pairs)
include hname hpairs

theorem emptyDoc_eq_of_matching : o.emptyDoc style = o'.emptyDoc style := by
  rw [Open.emptyDoc, Open.emptyDoc, Open.styled, Open.styled, stylePairs_eq_of_matching hpairs, hname]

theorem bareDoc_eq_of_matching : o.bareDoc style = o'.bareDoc style := by
  rw [Open.bareDoc, Open.bareDoc, Open.styled, Open.styled, stylePairs_eq_of_matching hpairs, hname]

end Tags

/-! ### Declarations -/

theorem declaration_doc_eq {style : Style} {d d' : Declaration}
    (h : d.attributes.map Attr.pair = d'.attributes.map Attr.pair) : d.doc style = d'.doc style := by
  have hstyled : ∀ d : Declaration, d.styled style = (d.attributes.map Attr.pair).map fun pair =>
      (pair.1, requote style.quotes pair.2) := by
    intro d
    rw [Declaration.styled, List.map_map]
    rfl
  have hempty : d.attributes.isEmpty = d'.attributes.isEmpty := by
    have hmap := congrArg List.isEmpty h
    rwa [List.isEmpty_map, List.isEmpty_map] at hmap
  rw [Declaration.doc, Declaration.doc, hstyled, hstyled, h, hempty]

theorem external_doc_eq {e e' : External} (h : e.outline = e'.outline) : e.doc = e'.doc := by
  rw [External.outline, External.outline, Prod.mk.injEq, Prod.mk.injEq] at h
  obtain ⟨-, hpublic, hsystem⟩ := h
  cases e with
  | systemId gap literal =>
      cases e' with
      | systemId gap' literal' =>
          obtain rfl : literal = literal' := Option.some.inj hsystem
          rfl
      | publicId => cases hpublic
  | publicId gap literal system =>
      cases e' with
      | systemId => cases hpublic
      | publicId gap' literal' system' =>
          obtain rfl : literal = literal' := Option.some.inj hpublic
          cases system with
          | none =>
              cases system' with
              | none => rfl
              | some => cases hsystem
          | some second =>
              cases system' with
              | none => cases hsystem
              | some second' =>
                  have hliteral : second.2 = second'.2 := Option.some.inj hsystem
                  rw [External.doc, External.doc, hliteral]
                  rfl

theorem typeDecl_doc_eq {d d' : TypeDecl} (hname : d.name = d'.name)
    (hexternal : (d.external.map fun e => e.2.outline) = d'.external.map fun e => e.2.outline)
    (hsubset : d.subset = d'.subset) : d.doc = d'.doc := by
  have hdocs : d.externalDocs = d'.externalDocs := by
    unfold TypeDecl.externalDocs
    cases hd : d.external with
    | none =>
        rw [hd] at hexternal
        rw [Option.map_eq_none_iff.1 hexternal.symm]
    | some e =>
        rw [hd] at hexternal
        obtain ⟨e', he', heq⟩ := Option.map_eq_some_iff.1 hexternal.symm
        rw [he']
        simp only [external_doc_eq heq]
  rw [TypeDecl.doc, TypeDecl.doc, TypeDecl.subsetDocs, TypeDecl.subsetDocs, hname, hdocs, hsubset]

/-! ### Content -/

theorem hasRange_cons_eq_false {markers : Markers} {item : Item} {rest : List Item} :
    Item.hasRange markers (item :: rest) = false ↔
      (true && (item.isStart markers && Item.closes markers rest)) = false ∧
        Item.hasRange markers rest = false := by
  rw [Item.hasRange, Bool.or_eq_false_iff, Bool.true_and]

/-- Items that are laid out the same, one by one, are laid out the same together unless there is a range. -/
theorem keptDocs_eq_of_forall₂ {markers : Markers} {layout : Item → Doc} {items items' : List Item}
    (h : List.Forall₂ (fun a b => a.Alike b ∧ layout a = layout b) items items')
    (hrange : Item.hasRange markers items = false) :
    keptDocs markers layout items = keptDocs markers layout items' := by
  have hrange' : Item.hasRange markers items' = false := by
    rw [hasRange_congr (forall₂_sameMarks (h.imp fun _ _ hab => hab.1) markers), hrange]
  unfold keptDocs
  induction items using pieces_induct markers true generalizing items' with
  | nil =>
      cases h
      rfl
  | range item rest hranged ih =>
      rw [(hasRange_cons_eq_false.1 hrange).1] at hranged
      cases hranged
  | pair item next rest hranged hmeets ih =>
      obtain ⟨item', _, hitem, htail, rfl⟩ := List.forall₂_cons_left_iff.1 h
      obtain ⟨next', rest', hnext, hrest, rfl⟩ := List.forall₂_cons_left_iff.1 htail
      have hmeets' : item'.meets next' = true := (hitem.1.meets_eq hnext.1).trans hmeets
      -- what meets is a run of blanks and a text, and these are the same on both sides
      obtain ⟨hblank, htext, -⟩ := meets_iff.1 hmeets
      obtain ⟨image, rfl⟩ := exists_of_isBlankRun hblank
      obtain ⟨image', rfl⟩ := exists_of_isText htext
      obtain rfl : item' = _ := hitem.1.resolve_right fun helement => helement.1
      obtain rfl : next' = _ := hnext.1.resolve_right fun helement => helement.1
      obtain ⟨hranged', hbehind'⟩ := hasRange_cons_eq_false.1 hrange'
      have hbehind := (hasRange_cons_eq_false.1 hrange).2
      rw [pieces_pair hranged hmeets, pieces_pair hranged' hmeets', List.map_cons, List.map_cons,
        ih hrest (hasRange_cons_eq_false.1 hbehind).2 (hasRange_cons_eq_false.1 hbehind').2]
  | single item rest hranged hmeets ih =>
      obtain ⟨item', rest', hitem, hrest, rfl⟩ := List.forall₂_cons_left_iff.1 h
      have hmeets' : ∀ next' ∈ rest'.head?, item'.meets next' = false := by
        intro next' hnext'
        obtain ⟨tail', rfl⟩ := List.head?_eq_some_iff.1 hnext'
        obtain ⟨next, tail, hnext, -, rfl⟩ := List.forall₂_cons_right_iff.1 hrest
        rw [hitem.1.meets_eq hnext.1]
        exact hmeets next rfl
      obtain ⟨hranged', hbehind'⟩ := hasRange_cons_eq_false.1 hrange'
      rw [pieces_single hranged hmeets, pieces_single hranged' hmeets', List.map_cons, List.map_cons,
        ih hrest (hasRange_cons_eq_false.1 hrange).2 hbehind']
      exact congrArg (· :: _) hitem.2

/-! ### Elements -/

/-- The tag and the children of an element. -/
def Item.parts? : Item → Option (Open × List Item)
  | .leaf _ _ => none
  | .empty tag => some (tag, [])
  | .full tag children _ => some (tag, children)

theorem doc_of_parts {style : Style} {item : Item} {o : Open} {children : List Item}
    (h : item.parts? = some (o, children)) : item.doc style = elementDoc style o (Item.doc style) children := by
  cases item with
  | leaf => cases h
  | empty tag =>
      cases h
      rw [Item.doc]
      rfl
  | full tag children endTail =>
      cases h
      exact Item.doc_full ..

theorem outlineAll_eq_map (items : List Item) : Item.outlineAll items = items.map Item.outline := by
  induction items with
  | nil => rfl
  | cons item rest ih => rw [Item.outlineAll, List.map_cons, ih]

/-- The content of an element, if it has any, is that of its children. -/
theorem outline_of_parts {item : Item} {o : Open} {children : List Item} (h : item.parts? = some (o, children)) :
    ∃ closing endName content, item.outline = .element o.name o.pairs closing endName content ∧
      content.getD [] = children.map Item.outline := by
  cases item with
  | leaf => cases h
  | empty tag =>
      cases h
      exact ⟨_, _, _, rfl, rfl⟩
  | full tag children endTail =>
      cases h
      exact ⟨_, _, _, rfl, outlineAll_eq_map children⟩

theorem alike_of_matches {sorted : Bool} {item item' : Item} (h : item.outline.Matches sorted item'.outline) :
    item.Alike item' := by
  cases item with
  | leaf cls image =>
      cases item' with
      | leaf cls' image' =>
          cases h
          exact .inl rfl
      | _ => cases h
  | _ =>
      cases item' with
      | leaf => cases h
      | _ => exact .inr ⟨trivial, trivial⟩

/-- What matches an element is an element with a tag and children that match. -/
theorem exists_parts_of_matches {sorted : Bool} {item item' : Item}
    (h : item.outline.Matches sorted item'.outline) {o : Open} {children : List Item}
    (hparts : item.parts? = some (o, children)) :
    ∃ o' children', item'.parts? = some (o', children') ∧ o.name = o'.name ∧
      MatchingPairs sorted o.pairs o'.pairs ∧
      List.Forall₂ (fun a b => a.outline.Matches sorted b.outline) children children' := by
  obtain ⟨closing, endName, content, houtline, hcontent⟩ := outline_of_parts hparts
  rw [houtline] at h
  cases hparts' : item'.parts? with
  | none =>
      cases item' with
      | leaf => cases h
      | _ => cases hparts'
  | some parts =>
      obtain ⟨o', children'⟩ := parts
      obtain ⟨closing', endName', content', houtline', hcontent'⟩ := outline_of_parts hparts'
      rw [houtline'] at h
      generalize hname : o'.name = name at h
      cases h with
      | element hattributes hforall =>
          rw [hcontent, hcontent', List.forall₂_map_left_iff, List.forall₂_map_right_iff] at hforall
          exact ⟨o', children', rfl, hname.symm, hattributes, hforall⟩

theorem exists_locate_mem {item : Item} {items : List Item} (h : item ∈ items) (src : Source) (n : Nat) :
    ∃ m, item.locate src m ∈ Item.locateAll src n items := by
  induction items generalizing n with
  | nil => cases h
  | cons first rest ih =>
      rw [Item.locateAll]
      rcases List.mem_cons.1 h with rfl | h
      · exact ⟨n, List.mem_cons_self⟩
      · obtain ⟨m, hm⟩ := ih h (n + first.text.length)
        exact ⟨m, List.mem_cons_of_mem _ hm⟩

/-- No content of some elements holds an ignore range. -/
def Rangeless (markers : Markers) (elements : List Element) : Prop :=
  ∀ e ∈ elements, IgnoreRange.existsAmong markers e.comments = false

section Strict

variable {style : Style} (hstrict : style.sensitivity = .strict)
include hstrict

/-- Where all whitespace counts, the children of an element are kept. -/
theorem elementDoc_of_strict (o : Open) (layout : Item → Doc) {children : List Item} (hne : children ≠ []) :
    elementDoc style o layout children = .grouped (.concat
      [o.bareDoc style, .indent (.grouped (.concat (keptDocs style.markers layout children))), o.closeDoc]) := by
  have hreflows : o.reflows style children = false := by
    rw [Open.reflows, hstrict]
    rfl
  rw [elementDoc, if_neg (by simpa using hne), hreflows]
  rfl

/-- Elements that match are laid out the same if their children are. -/
theorem doc_eq_of_parts {item item' : Item} (h : item.outline.Matches style.sortAttributes item'.outline)
    {o : Open} {children : List Item} (hparts : item.parts? = some (o, children))
    (hchildren : ∀ child ∈ children, ∀ child' : Item,
      child.outline.Matches style.sortAttributes child'.outline → child.doc style = child'.doc style)
    (hrange : Item.hasRange style.markers children = false) : item.doc style = item'.doc style := by
  obtain ⟨o', children', hparts', hname, hpairs, hforall⟩ := exists_parts_of_matches h hparts
  have hdocs : List.Forall₂ (fun a b : Item => a.Alike b ∧ a.doc style = b.doc style) children children' :=
    ((List.forall₂_and_left children children').2 ⟨hchildren, hforall⟩).imp fun _ _ hmatch =>
      ⟨alike_of_matches hmatch.2, hmatch.1 _ hmatch.2⟩
  rw [doc_of_parts hparts, doc_of_parts hparts']
  cases hdocs with
  | nil => exact emptyDoc_eq_of_matching hname hpairs
  | cons hfirst hrest =>
      have hkept := keptDocs_eq_of_forall₂ (.cons hfirst hrest) hrange
      rw [elementDoc_of_strict hstrict o _ (List.cons_ne_nil _ _),
        elementDoc_of_strict hstrict o' _ (List.cons_ne_nil _ _), bareDoc_eq_of_matching hname hpairs, hkept,
        Open.closeDoc, Open.closeDoc, hname]

/-- Items that match are laid out the same if no content in them holds a range. -/
theorem doc_eq_of_matches {item item' : Item} (h : item.outline.Matches style.sortAttributes item'.outline)
    (hitem : item.WellFormed) {src : Source} {n : Nat}
    (hrangeless : Rangeless style.markers (item.locate src n).elements) : item.doc style = item'.doc style := by
  induction item using Item.induct generalizing item' n with
  | leaf cls image =>
      rcases alike_of_matches h with rfl | ⟨helement, -⟩
      · rfl
      · exact helement.elim
  | empty tag => exact doc_eq_of_parts hstrict h rfl (by simp) rfl
  | full tag children endTail ih =>
      rw [Item.WellFormed] at hitem
      rw [Item.locate, elements_locateAll, Rangeless, List.forall_mem_cons] at hrangeless
      refine doc_eq_of_parts hstrict h rfl (fun child hchild child' hmatch => ?_) ?_
      · obtain ⟨m, hm⟩ := exists_locate_mem hchild src (n + (tag.text.length + 1))
        apply ih child hchild hmatch (wellFormed_of_mem hitem.2.1 hchild)
        intro e he
        exact hrangeless.2 e (List.mem_flatMap.2 ⟨_, hm, he⟩)
      · rw [← existsAmong_commentsAt hitem.2.1]
        exact hrangeless.1

/-! ### Documents -/

/-- Top-level nodes that match are laid out the same. -/
theorem top_doc_eq_of_matches {top top' : Top} (h : top.outline.Matches style.sortAttributes top'.outline)
    (htop : top.WellFormed) {src : Source} {n : Nat}
    (hrangeless : Rangeless style.markers (top.node src n).elements) : top.doc style = top'.doc style := by
  cases top with
  | misc kind image =>
      cases top' with
      | misc kind' image' =>
          cases h
          rfl
      | _ => cases h
  | doctype decl =>
      cases top' with
      | doctype decl' =>
          obtain ⟨hname, hexternal, hsubset⟩ := h.doctype_eq
          exact typeDecl_doc_eq hname hexternal hsubset
      | _ => cases h
  | root item =>
      cases top' with
      | root item' =>
          cases h with
          | root h => exact doc_eq_of_matches hstrict h htop.2 hrangeless
      | _ => cases h

omit hstrict in
theorem not_matches_prolog (top : Top) {pairs : List (Text × Text)} :
    ¬top.outline.Matches style.sortAttributes (.prolog pairs) ∧
      ¬(TopOutline.prolog pairs).Matches style.sortAttributes top.outline := by
  constructor <;> intro h <;> cases top <;> cases h

theorem map_doc_eq_of_matches {tops tops' : List (Text × Top)}
    (h : List.Forall₂ (fun a b => a.2.outline.Matches style.sortAttributes b.2.outline) tops tops')
    (htops : ∀ top ∈ tops, top.2.WellFormed) {src : Source} {n : Nat}
    (hrangeless : Rangeless style.markers ((topNodesAt src n tops).flatMap TopNode.elements)) :
    (tops.map fun top => top.2.doc style) = tops'.map fun top => top.2.doc style := by
  induction h generalizing n with
  | nil => rfl
  | cons hfirst _ ih =>
      rw [topNodesAt, List.flatMap_cons, Rangeless, List.forall_mem_append] at hrangeless
      rw [List.map_cons, List.map_cons, top_doc_eq_of_matches hstrict hfirst (htops _ (by simp)) hrangeless.1,
        ih (fun top htop => htops top (by simp [htop])) hrangeless.2]

/-- Documents that match are laid out the same. -/
theorem Whole.doc_eq_of_matches {v w : Whole} (hv : v.WellFormed) (hw : w.WellFormed)
    (h : v.locate.Matches style.sortAttributes w.locate)
    (hrangeless : Rangeless style.markers v.locate.elements) : v.doc style = w.doc style := by
  rw [Document.elements_eq, topNodes_locate hv, Whole.nodes, List.flatMap_append, Rangeless,
    List.forall_mem_append] at hrangeless
  rw [Document.Matches, document_outline_locate hv, document_outline_locate hw, Whole.outline, Whole.outline] at h
  have htops : ∀ {tops' : List (Text × Top)}, List.Forall₂ (TopOutline.Matches style.sortAttributes)
      (v.tops.map fun top => top.2.outline) (tops'.map fun top => top.2.outline) →
      (v.tops.map fun top => top.2.doc style) = tops'.map fun top => top.2.doc style := by
    intro tops' h
    rw [List.forall₂_map_left_iff, List.forall₂_map_right_iff] at h
    exact map_doc_eq_of_matches hstrict h (fun top htop => (hv.tops top htop).2) hrangeless.2
  rw [Whole.doc, Whole.doc, Whole.docs, Whole.docs]
  cases hd : v.declaration with
  | none =>
      cases hd' : w.declaration with
      | none =>
          rw [hd, hd'] at h
          rw [htops h]
      | some d' =>
          rw [hd, hd'] at h
          obtain ⟨node, rest, hnode, -, hcons⟩ := List.forall₂_cons_right_iff.1 h
          obtain ⟨top, -, rfl⟩ := List.mem_map.1 (hcons.symm ▸ List.mem_cons_self : node ∈ _)
          exact absurd hnode (not_matches_prolog top.2).1
  | some d =>
      cases hd' : w.declaration with
      | none =>
          rw [hd, hd'] at h
          obtain ⟨node, rest, hnode, -, hcons⟩ := List.forall₂_cons_left_iff.1 h
          obtain ⟨top, -, rfl⟩ := List.mem_map.1 (hcons.symm ▸ List.mem_cons_self : node ∈ _)
          exact absurd hnode (not_matches_prolog top.2).2
      | some d' =>
          rw [hd, hd'] at h
          cases h with
          | cons hprolog h =>
              simp only [Option.map_some, Option.toList_some, List.singleton_append,
                declaration_doc_eq hprolog.prolog_eq, htops h]

end Strict

end Spelled

/-! ### Formatting -/

namespace Formatter

open Spelled

/-- Where all whitespace counts, texts whose documents match are formatted to the same text, apart from a mark in
front of it. -/
theorem format_eq_of_matches {profile : Profile} (hvalid : profile.Valid) {correlationId : Option String}
    {f : Formatter} (hmake : make profile correlationId [] = .ok f)
    (hstrict : profile.style.sensitivity = .strict) {t u : Text} {d e : Document} (hread : read t = .ok d)
    (hread' : read u = .ok e) (hmatches : d.Matches profile.style.sortAttributes e)
    (hrangeless : ∀ element ∈ d.elements,
      IgnoreRange.existsAmong profile.style.markers element.comments = false) :
    ∃ r s printed, f.format t = .ok r ∧ f.format u = .ok s ∧ r.formatted = marked t printed ∧
      s.formatted = marked u printed := by
  obtain ⟨rfl, hembedders, hindentation⟩ := of_make hmake
  obtain ⟨page, lineEnd, hpage, hlineEnd⟩ := hvalid.exists_page
  obtain ⟨v, hv, hsource, rfl⟩ := exists_spelling hread
  obtain ⟨w, hw, hsource', rfl⟩ := exists_spelling hread'
  obtain ⟨r, hformat, hformatted⟩ := format_eq hindentation hpage hlineEnd hembedders hv hsource
  obtain ⟨s, hformat', hformatted'⟩ := format_eq hindentation hpage hlineEnd hembedders hw hsource'
  rw [← Whole.doc_eq_of_matches hstrict hv hw hmatches hrangeless] at hformatted'
  exact ⟨r, s, _, hformat, hformat', hformatted, hformatted'⟩

/-- Attributes are sorted, and all whitespace counts. -/
def sorting : Profile where
  printer := Values.set Setting.default .sortAttributes (.bool true)

/-- An attribute with a name and a value of one character each. -/
def briefAttr (lead : Text) (name value : Char) : Attr := ⟨lead, [name], [], [], ['"', value, '"']⟩

/-- An element with its attributes in one order and an end tag. -/
def wordyRoot : Item := .full ⟨['a'], [briefAttr [' ', '\n'] 'y' '2', briefAttr ['\t'] 'x' '1'], [' ']⟩ [] ['\n']

/-- The same element with its attributes in the other order and without an end tag. -/
def terseRoot : Item := .empty ⟨['a'], [briefAttr [' '] 'x' '1', briefAttr [' '] 'y' '2'], []⟩

theorem wellFormed_roots : wordyRoot.WellFormed ∧ terseRoot.WellFormed := by
  have hname : ∀ c, Name.isStart c = true → Name.IsName [c] := fun c hc => ⟨c, [], rfl, hc, by simp⟩
  have hattr : ∀ {lead : Text} {name value : Char}, lead.all isBlank = true → lead ≠ [] →
      Name.isStart name = true → value ≠ '"' ∧ (value != '<') = true → (briefAttr lead name value).WellFormed := by
    intro lead name value hlead hne hstart hvalue
    exact ⟨List.all_eq_true.1 hlead, hne, hname name hstart, blanks_nil, blanks_nil, '"', [value], rfl, rfl,
      by simpa using hvalue⟩
  rw [wordyRoot, terseRoot, Item.WellFormed, Item.WellFormed]
  refine ⟨⟨⟨hname _ rfl, ?_, List.all_eq_true.1 rfl⟩, .intro, List.all_eq_true.1 rfl⟩, hname _ rfl, ?_, blanks_nil⟩
  · simp only [List.mem_cons, List.not_mem_nil, or_false, forall_eq_or_imp, forall_eq]
    exact ⟨hattr rfl (by simp) rfl (by decide), hattr rfl (by simp) rfl (by decide)⟩
  · simp only [List.mem_cons, List.not_mem_nil, or_false, forall_eq_or_imp, forall_eq]
    exact ⟨hattr rfl (by simp) rfl (by decide), hattr rfl (by simp) rfl (by decide)⟩

/-- Both can be read, what is read matches, and both are formatted to the same text. -/
theorem format_eq_of_matches_roots :
    ∃ f d e r s printed, make sorting none [] = .ok f ∧ sorting.style.sensitivity = .strict ∧
      read (Whole.ofRoot wordyRoot []).text = .ok d ∧ read (Whole.ofRoot terseRoot []).text = .ok e ∧
      d.Matches sorting.style.sortAttributes e ∧
      (∀ element ∈ d.elements, IgnoreRange.existsAmong sorting.style.markers element.comments = false) ∧
      f.format (Whole.ofRoot wordyRoot []).text = .ok r ∧ f.format (Whole.ofRoot terseRoot []).text = .ok s ∧
      r.formatted = marked (Whole.ofRoot wordyRoot []).text printed ∧
      s.formatted = marked (Whole.ofRoot terseRoot []).text printed := by
  have hv := @Whole.wellFormed_ofRoot wordyRoot trivial wellFormed_roots.1 _ blanks_nil
  have hw := @Whole.wellFormed_ofRoot terseRoot trivial wellFormed_roots.2 _ blanks_nil
  have hsource : Text.normalize (Whole.ofRoot wordyRoot []).text = (Whole.ofRoot wordyRoot []).text := by
    decide +kernel
  have hsource' : Text.normalize (Whole.ofRoot terseRoot []).text = (Whole.ofRoot terseRoot []).text := by
    decide +kernel
  have hread : read (Whole.ofRoot wordyRoot []).text = .ok (Whole.ofRoot wordyRoot []).locate := by
    rw [read, hsource, read_text hv]
  have hread' : read (Whole.ofRoot terseRoot []).text = .ok (Whole.ofRoot terseRoot []).locate := by
    rw [read, hsource', read_text hw]
  have hmatches : (Whole.ofRoot wordyRoot []).locate.Matches true (Whole.ofRoot terseRoot []).locate := by
    rw [Document.Matches, document_outline_locate hv, document_outline_locate hw]
    exact .cons (.root (.element (.inr ⟨rfl, by decide, .swap ..⟩) .nil)) .nil
  have hrangeless : ∀ element ∈ (Whole.ofRoot wordyRoot []).locate.elements,
      IgnoreRange.existsAmong sorting.style.markers element.comments = false := by
    have helements : (Whole.ofRoot wordyRoot []).locate.elements =
        (wordyRoot.locate (Source.ofText (Whole.ofRoot wordyRoot []).text) 0).elements := by
      rw [Document.elements_eq, topNodes_locate hv]
      exact List.append_nil _
    intro element helement
    rw [helements, wordyRoot, Item.locate, Item.locateAll, elements_empty, List.mem_singleton] at helement
    rw [helement]
    exact @existsAmong_commentsAt (Source.ofText []) _ [] .intro 0
  obtain ⟨f, hmake⟩ : ∃ f, make sorting none [] = .ok f := ⟨_, rfl⟩
  obtain ⟨r, s, printed, hformat, hformat', hformatted, hformatted'⟩ :=
    format_eq_of_matches (Profile.valid_of_layout rfl) hmake rfl hread hread' hmatches hrangeless
  exact ⟨f, _, _, r, s, printed, hmake, rfl, hread, hread', hmatches, hrangeless, hformat, hformat', hformatted,
    hformatted'⟩

end Formatter

end XmlTidy
