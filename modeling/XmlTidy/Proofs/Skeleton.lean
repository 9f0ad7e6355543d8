import XmlTidy.Proofs.Formatting

/-!
What formatting keeps of a document. Two documents have the same skeleton if they have the same top-level nodes
in the same order and the same tree of elements with the same attributes and the same contents, where blanks
between the contents do not count, text counts by its tokens, and attribute values by what is left when
escaped quotes are expanded. The result of formatting a text can be read, and it has the skeleton of the
text.
-/

namespace XmlTidy

/-! ### Skeletons -/

/-- What an attribute says: its name, and its value with escaped quotes expanded. -/
def Attribute.meaning (a : Attribute) : Text × Text := (a.name, a.inner.expandQuotes)

/-- The same attributes, in the same order unless they may be sorted. -/
def SameAttributes (sorted : Bool) (as bs : List Attribute) : Prop :=
  if sorted then (as.map Attribute.meaning : Multiset (Text × Text)) = bs.map Attribute.meaning
  else as.map Attribute.meaning = bs.map Attribute.meaning

namespace Node

def isBlankRun : Node → Bool
  | .leaf (.charData run) => run.blank
  | _ => false

/-- What is more than blanks among nodes. -/
def solids (nodes : List Node) : List Node := nodes.filter (! ·.isBlankRun)

/-- Nodes with the same skeleton. -/
inductive SameSkeleton (sorted : Bool) : Node → Node → Prop where
  | text {run run' : CharData} (hrun : run.blank = false) (hrun' : run'.blank = false)
      (h : run.image.tokens = run'.image.tokens) :
      SameSkeleton sorted (.leaf (.charData run)) (.leaf (.charData run'))
  | cdata {token token' : Token} (h : token.image = token'.image) :
      SameSkeleton sorted (.leaf (.cdata token)) (.leaf (.cdata token'))
  | comment {token token' : Token} (h : token.image = token'.image) :
      SameSkeleton sorted (.leaf (.comment token)) (.leaf (.comment token'))
  | instruction {token token' : Token} (h : token.image = token'.image) :
      SameSkeleton sorted (.leaf (.instruction token)) (.leaf (.instruction token'))
  | reference {ref ref' : Reference} (hkind : ref.kind = ref'.kind) (h : ref.image = ref'.image) :
      SameSkeleton sorted (.leaf (.reference ref)) (.leaf (.reference ref'))
  | element {tag tag' : Tag} {children children' : List Node} (hname : tag.name = tag'.name)
      (hattributes : SameAttributes sorted tag.attributes tag'.attributes)
      (h : List.Forall₂ (SameSkeleton sorted) (solids children) (solids children')) :
      SameSkeleton sorted (.element tag children) (.element tag' children')

end Node

/-- External identifiers with the same literals. -/
structure ExternalId.SameLiterals (e e' : ExternalId) : Prop where
  keyword : e.keyword = e'.keyword
  publicLiteral : e.publicLiteral = e'.publicLiteral
  systemLiteral : e.systemLiteral = e'.systemLiteral

/-- Top-level nodes with the same skeleton. -/
inductive TopNode.SameSkeleton (sorted : Bool) : TopNode → TopNode → Prop where
  | prolog {p p' : Prolog} (h : SameAttributes false p.attributes p'.attributes) :
      SameSkeleton sorted (.prolog p) (.prolog p')
  | doctype {d d' : Doctype} (hname : d.name = d'.name)
      (hexternal : Option.Rel ExternalId.SameLiterals d.externalId d'.externalId)
      (hsubset : d.internalSubset = d'.internalSubset) : SameSkeleton sorted (.doctype d) (.doctype d')
  | misc {m m' : Misc} (hkind : m.kind = m'.kind) (h : m.image = m'.image) :
      SameSkeleton sorted (.misc m) (.misc m')
  | root {node node' : Node} (h : node.SameSkeleton sorted node') : SameSkeleton sorted (.root node) (.root node')

/-- Documents with the same skeleton. -/
def Document.SameSkeleton (sorted : Bool) (d d' : Document) : Prop :=
  List.Forall₂ (TopNode.SameSkeleton sorted) d.topNodes d'.topNodes

namespace Spelled

/-! ### Attributes -/

/-- What an attribute with a name and a literal says. -/
def meaningOf (pair : Text × Text) : Text × Text := (pair.1, (Attribute.innerOf pair.2).expandQuotes)

theorem map_meaning_locateAll (src : Source) (n : Nat) (attrs : List Attr) :
    (Attr.locateAll src n attrs).map Attribute.meaning = (attrs.map Attr.pair).map meaningOf := by
  rw [← map_pair_locateAll src n, List.map_map]
  rfl

theorem map_meaningOf_requote (style : QuoteStyle) (pairs : List (Text × Text)) :
    (pairs.map fun (name, value) => (name, requote style value)).map meaningOf = pairs.map meaningOf := by
  simp [meaningOf, expandQuotes_requote]

/-- A tag keeps what its attributes say. -/
theorem Open.Reshaped.sameAttributes {style : Style} {o o' : Open} (h : o.Reshaped style o') (src src' : Source)
    (n n' : Nat) :
    SameAttributes style.sortAttributes (o.locate src n) (o'.locate src' n') := by
  have hpairs : o'.attributes.map Attr.pair = stylePairs style (o.attributes.map Attr.pair) := h.pairs
  simp only [SameAttributes, Open.locate, map_meaning_locateAll, hpairs]
  split
  · have hperm := (stylePairs_perm style (o.attributes.map Attr.pair)).map meaningOf
    rw [map_meaningOf_requote] at hperm
    exact Multiset.coe_eq_coe.2 hperm.symm
  · next hsort => rw [stylePairs, if_neg hsort, map_meaningOf_requote]

theorem sameAttributes_self (sorted : Bool) (src src' : Source) (n n' : Nat) (attrs : List Attr) :
    SameAttributes sorted (Attr.locateAll src n attrs) (Attr.locateAll src' n' attrs) := by
  rw [SameAttributes, map_meaning_locateAll, map_meaning_locateAll]
  split <;> rfl

/-! ### Items -/

section Items

variable {src src' : Source}

theorem isBlankRun_locate (src : Source) (n : Nat) (item : Item) :
    (item.locate src n).isBlankRun = item.isBlankRun := by
  cases item with
  | leaf cls image => cases cls <;> rfl
  | empty tag => rw [Item.locate]; rfl
  | full tag children endTail => rw [Item.locate]; rfl

/-- What is more than blanks among located items are located items, each behind the text of those before it. -/
theorem forall₂_solids_locateAll (src : Source) (n : Nat) (items : List Item) :
    List.Forall₂ (fun item node => ∃ before after, items = before ++ item :: after ∧
        node = item.locate src (n + (Item.textAll before).length))
      (solids items) (Node.solids (Item.locateAll src n items)) := by
  induction items generalizing n with
  | nil => exact .nil
  | cons item rest ih =>
      have hrest := (ih (n + item.text.length)).imp (S := fun item' node => ∃ before after,
          item :: rest = before ++ item' :: after ∧ node = item'.locate src (n + (Item.textAll before).length)) <| by
        rintro item' _ ⟨before, after, rfl, rfl⟩
        exact ⟨item :: before, after, rfl, by rw [Item.textAll, List.length_append, Nat.add_assoc]⟩
      rw [solids] at hrest ⊢
      rw [Item.locateAll, Node.solids] at *
      cases hblank : item.isBlankRun with
      | true =>
          rwa [List.filter_cons_of_neg (by simp [hblank]),
            List.filter_cons_of_neg (by simp [isBlankRun_locate, hblank])]
      | false =>
          rw [List.filter_cons_of_pos (by simp [hblank]),
            List.filter_cons_of_pos (by simp [isBlankRun_locate, hblank])]
          exact .cons ⟨[], rest, rfl, rfl⟩ hrest

/-- What related items have in common where they stand, their nodes have in common. -/
theorem forall₂_locateAll_at {R : Item → Item → Prop} {S : Node → Node → Prop} {items items' : List Item}
    (h : List.Forall₂ R (solids items) (solids items')) (n n' : Nat)
    (hRS : ∀ before item after, items = before ++ item :: after → item ∈ solids items →
      ∀ before' item' after', items' = before' ++ item' :: after' → R item item' →
        S (item.locate src (n + (Item.textAll before).length)) (item'.locate src' (n' + (Item.textAll before').length))) :
    List.Forall₂ S (Node.solids (Item.locateAll src n items)) (Node.solids (Item.locateAll src' n' items')) := by
  have hnodes := forall₂_solids_locateAll src n items
  have hnodes' := forall₂_solids_locateAll src' n' items'
  generalize Node.solids (Item.locateAll src n items) = nodes at hnodes ⊢
  generalize Node.solids (Item.locateAll src' n' items') = nodes' at hnodes' ⊢
  generalize solids items = is at *
  generalize solids items' = is' at *
  induction h generalizing nodes nodes' with
  | nil =>
      cases hnodes
      cases hnodes'
      exact .nil
  | cons hitem _ ih =>
      obtain ⟨_, _, ⟨before, after, hsplit, rfl⟩, hrest, rfl⟩ := List.forall₂_cons_left_iff.1 hnodes
      obtain ⟨_, _, ⟨before', after', hsplit', rfl⟩, hrest', rfl⟩ := List.forall₂_cons_left_iff.1 hnodes'
      exact .cons (hRS _ _ _ hsplit (by simp) _ _ _ hsplit' hitem)
        (ih _ _ (fun b a c hb ha => hRS b a c hb (by simp [ha])) hrest hrest')

/-- What related items have in common, wherever they stand, their nodes have in common. -/
theorem forall₂_locateAll {R : Item → Item → Prop} {S : Node → Node → Prop} {items items' : List Item}
    (h : List.Forall₂ R (solids items) (solids items'))
    (hRS : ∀ item ∈ solids items, ∀ item', R item item' → ∀ m m', S (item.locate src m) (item'.locate src' m'))
    (n n' : Nat) :
    List.Forall₂ S (Node.solids (Item.locateAll src n items)) (Node.solids (Item.locateAll src' n' items')) :=
  forall₂_locateAll_at h n n' fun _ item _ _ hmem _ item' _ _ hitem => hRS item hmem item' hitem _ _

theorem mem_of_mem_solids {item : Item} {items : List Item} (h : item ∈ solids items) :
    item ∈ items ∧ item.isBlankRun = false := by
  simpa [solids] using h

theorem sameSkeleton_leaf (sorted : Bool) {cls : LeafClass} (hcls : cls ≠ .blank) (image : Text) (n n' : Nat) :
    Node.SameSkeleton sorted ((Item.leaf cls image).locate src n) ((Item.leaf cls image).locate src' n') := by
  cases cls with
  | blank => exact absurd rfl hcls
  | text => exact .text rfl rfl rfl
  | cdata => exact .cdata rfl
  | comment => exact .comment rfl
  | instruction => exact .instruction rfl
  | reference kind => exact .reference rfl rfl

/-- Solid items keep their order when some items are replaced by others that are like them. -/
theorem forall₂_solids {R : Item → Item → Prop} {items items' : List Item}
    (h : List.Forall₂ (fun a b => a.Alike b ∧ R a b) items items') :
    List.Forall₂ R (solids items) (solids items') := by
  induction h with
  | nil => exact .nil
  | @cons item item' rest rest' hitem _ ih =>
      rw [solids, solids] at *
      cases hblank : item.isBlankRun with
      | true =>
          rwa [List.filter_cons_of_neg (by simp [hblank]),
            List.filter_cons_of_neg (by simp [hitem.1.isBlankRun_eq, hblank])]
      | false =>
          rw [List.filter_cons_of_pos (by simp [hblank]),
            List.filter_cons_of_pos (by simp [hitem.1.isBlankRun_eq, hblank])]
          exact .cons hitem.2 ih

/-- The children of an element that are kept are printed in their order. -/
theorem Piece.forall₂_reshaped {style : Style} {items : List Item} {ps : List Piece}
    (h : List.Forall₂ (Piece.Reshaped (Item.Reshaped style)) (pieces style.markers true items) ps) :
    List.Forall₂ (fun a b => a.Alike b ∧ a.Reshaped style b) items (ps.flatMap Piece.items) := by
  have := @forall₂_flatMap _ _ _ (fun a b : Item => a.Alike b ∧ a.Reshaped style b) h
    (fun item _ => ⟨.inl rfl, .same item⟩) fun item _ item' hitem => ⟨hitem.alike, hitem⟩
  rwa [flatMap_pieces] at this

/-- An item that is more than blanks has the skeleton of what it is printed as. -/
theorem Item.Reshaped.sameSkeleton {style : Style} {item item' : Item} (h : item.Reshaped style item')
    (hitem : item.isBlankRun = false) (n n' : Nat) :
    Node.SameSkeleton style.sortAttributes (item.locate src n) (item'.locate src' n') := by
  induction item using Item.induct generalizing item' n n' with
  | leaf cls image =>
      cases h
      refine sameSkeleton_leaf _ ?_ image n n'
      rintro rfl
      exact Bool.noConfusion hitem
  | empty tag =>
      cases h with
      | same =>
          rw [Item.locate, Item.locate]
          exact .element rfl (sameAttributes_self ..) .nil
      | empty htag =>
          rw [Item.locate, Item.locate]
          exact .element htag.name.symm (htag.sameAttributes ..) .nil
  | full tag children endTail ih =>
      have hsolid : ∀ child ∈ solids children, ∀ child', child.Reshaped style child' → ∀ m m',
          Node.SameSkeleton style.sortAttributes (child.locate src m) (child'.locate src' m') := by
        intro child hchild child' h m m'
        obtain ⟨hmem, hblank⟩ := mem_of_mem_solids hchild
        exact ih child hmem h hblank m m'
      cases h with
      | same =>
          rw [Item.locate, Item.locate]
          refine .element rfl (sameAttributes_self ..)
            (forall₂_locateAll (List.forall₂_same.2 fun _ _ => ?_) hsolid _ _)
          exact .same _
      | emptied htag hblank =>
          have hnil := forall₂_solids_locateAll src (n + (tag.text.length + 1)) children
          rw [hblank] at hnil
          rw [Item.locate, Item.locate]
          refine .element htag.name.symm (htag.sameAttributes ..) ?_
          rw [List.forall₂_nil_left_iff.1 hnil]
          exact .nil
      | kept htag _ _ hpieces =>
          rw [Item.locate, Item.locate]
          exact .element htag.name.symm (htag.sameAttributes ..)
            (forall₂_locateAll (forall₂_solids (Piece.forall₂_reshaped hpieces)) hsolid _ _)
      | reflowed htag _ _ _ hflowed =>
          rw [Item.locate, Item.locate]
          refine .element htag.name.symm (htag.sameAttributes ..) (forall₂_locateAll hflowed ?_ _ _)
          intro child hchild child' hchild' m m'
          cases hchild' with
          | text h => exact .text rfl rfl h.symm
          | other _ h => exact hsolid child hchild child' h m m'

end Items

/-! ### Documents -/

theorem Declaration.Reshaped.sameAttributes {style : Style} {d d' : Declaration} (h : d.Reshaped style d')
    (src src' : Source) (n n' : Nat) :
    SameAttributes false (d.locate src n).attributes (d'.locate src' n').attributes := by
  have hstyled : d.styled style = (d.attributes.map Attr.pair).map fun (name, value) =>
      (name, requote style.quotes value) := by
    rw [Declaration.styled, List.map_map]
    rfl
  simp only [SameAttributes, Declaration.locate, map_meaning_locateAll, h.pairs, hstyled, map_meaningOf_requote]
  simp

theorem External.Reshaped.sameLiterals {e e' : External} (h : e.Reshaped e') (src src' : Source) (n n' : Nat) :
    (e.locate src n).SameLiterals (e'.locate src' n') where
  keyword := by rw [External.locate, External.locate, h.keyword]
  publicLiteral := h.publicLiteral.symm
  systemLiteral := h.systemLiteral.symm

theorem TypeDecl.Reshaped.sameExternal {d d' : TypeDecl} (h : d.Reshaped d') (src src' : Source) (n n' : Nat) :
    Option.Rel ExternalId.SameLiterals (d.locate src n).externalId (d'.locate src' n').externalId := by
  have hexternal := h.external
  simp only [TypeDecl.locate]
  cases hd : d.external with
  | none =>
      rw [hd] at hexternal
      cases hd' : d'.external with
      | none => exact .none
      | some e' => rw [hd'] at hexternal; cases hexternal
  | some e =>
      rw [hd] at hexternal
      cases hd' : d'.external with
      | none => rw [hd'] at hexternal; cases hexternal
      | some e' =>
          rw [hd'] at hexternal
          cases hexternal with
          | some he => exact .some (he.sameLiterals ..)

theorem Top.Reshaped.sameSkeleton {style : Style} {top top' : Top} (h : top.Reshaped style top')
    (htop : top.WellFormed) (src src' : Source) (n n' : Nat) :
    TopNode.SameSkeleton style.sortAttributes (top.node src n) (top'.node src' n') := by
  cases h with
  | misc kind image => exact .misc rfl rfl
  | doctype h => exact .doctype h.name.symm (h.sameExternal ..) h.subset.symm
  | @root item item' h =>
      refine .root (h.sameSkeleton ?_ n n')
      cases item with
      | leaf cls image => exact htop.1.elim
      | _ => rfl

theorem forall₂_topNodesAt {style : Style} {src src' : Source} {S : TopNode → TopNode → Prop}
    {tops tops' : List (Text × Top)}
    (h : List.Forall₂ (Top.Reshaped style) (tops.map Prod.snd) (tops'.map Prod.snd))
    (hS : ∀ top ∈ tops, ∀ top', top.2.Reshaped style top' → ∀ m m', S (top.2.node src m) (top'.node src' m'))
    (n n' : Nat) : List.Forall₂ S (topNodesAt src n tops) (topNodesAt src' n' tops') := by
  induction tops generalizing tops' n n' with
  | nil =>
      obtain rfl : tops' = [] := by simpa using h
      exact .nil
  | cons top tops ih =>
      obtain ⟨_, _, htop, hrest, hcons⟩ := List.forall₂_cons_left_iff.1 h
      cases tops' with
      | nil => simp at hcons
      | cons top' tops' =>
          rw [List.map_cons, List.cons.injEq] at hcons
          obtain ⟨rfl, rfl⟩ := hcons
          exact .cons (hS top (by simp) _ htop _ _) (ih hrest (fun next hnext => hS next (by simp [hnext])) _ _)

/-- What each node has in common with what it is printed as, the nodes of a document have in common. -/
theorem Whole.Reshaped.forall₂_topNodes {style : Style} {w w' : Whole} (h : w.Reshaped style w')
    (hw : w.WellFormed) (hw' : w'.WellFormed) {S : TopNode → TopNode → Prop}
    (hdeclaration : ∀ {d d' : Declaration}, d.Reshaped style d' → ∀ src src',
      S (.prolog (d.locate src 0)) (.prolog (d'.locate src' 0)))
    (htop : ∀ {top top' : Top}, top.WellFormed → top.Reshaped style top' → ∀ src src' m m',
      S (top.node src m) (top'.node src' m')) :
    List.Forall₂ S w.locate.topNodes w'.locate.topNodes := by
  rw [topNodes_locate hw, topNodes_locate hw', Whole.nodes, Whole.nodes]
  refine List.rel_append ?_ (forall₂_topNodesAt h.tops ?_ _ _)
  · have hrel := h.declaration
    generalize w.declaration = declaration at hrel ⊢
    generalize w'.declaration = declaration' at hrel ⊢
    cases hrel with
    | none => exact .nil
    | some hd => exact .cons (hdeclaration hd ..) .nil
  · exact fun top hmem top' hreshaped => htop (hw.tops top hmem).2 hreshaped _ _

/-- A document has the skeleton of what it is printed as. -/
theorem Whole.Reshaped.sameSkeleton {style : Style} {w w' : Whole} (h : w.Reshaped style w')
    (hw : w.WellFormed) (hw' : w'.WellFormed) : w.locate.SameSkeleton style.sortAttributes w'.locate :=
  h.forall₂_topNodes hw hw' (fun hd _ _ => .prolog (hd.sameAttributes ..))
    fun htop hreshaped _ _ _ _ => hreshaped.sameSkeleton htop ..

theorem prolog_addTops (src : Source) (n : Nat) (draft : Draft) (tops : List (Text × Top)) :
    (Whole.addTops src n draft tops).prolog = draft.prolog := by
  induction tops generalizing n draft with
  | nil => rfl
  | cons first rest ih =>
      obtain ⟨gap, top⟩ := first
      rw [Whole.addTops, ih]
      cases top <;> rfl

theorem prolog_locate (w : Whole) : w.locate.prolog = w.declaration.map (·.locate (Source.ofText w.text) 0) :=
  prolog_addTops ..

/-- A declaration with attributes is printed as one. -/
theorem Whole.Reshaped.wellFormed_of_attributes {style : Style} {w w' : Whole} (h : w.Reshaped style w')
    (hw : w.WellFormed) (hprolog : ∀ p ∈ w.locate.prolog, p.attributes ≠ []) : w'.WellFormed := by
  refine h.wellFormed hw fun d' hd' hnil => absurd hnil ?_
  have hdeclaration := h.declaration
  rw [prolog_locate] at hprolog
  rw [Option.mem_def.1 hd'] at hdeclaration
  generalize w.declaration = declaration at hdeclaration hprolog
  cases hdeclaration with
  | @some d _ hd =>
      have hne : d.attributes ≠ [] := by
        intro hattributes
        refine hprolog _ rfl ?_
        simp only [Declaration.locate, hattributes]
        rfl
      intro hnil
      have hpairs := hd.pairs
      rw [hnil, Declaration.styled] at hpairs
      exact hne (List.map_eq_nil_iff.1 hpairs.symm)

/-- What a document is printed as can be read only if it is well formed: a declaration that was left without
attributes would not be read. -/
theorem Whole.Reshaped.wellFormed_of_read {style : Style} {w w' : Whole} (h : w.Reshaped style w')
    (hw : w.WellFormed) {d : Document} (hread : Document.read w'.text = .ok d) : w'.WellFormed := by
  obtain ⟨v, hv, hvtext, -⟩ := exists_spelling hread
  refine h.wellFormed hw fun decl hdecl hattributes htail => ?_
  have htext : w'.text = Cursor.prologStart ++ '?' :: ('>' :: (Whole.topsText w'.tops ++ w'.tail)) := by
    rw [Whole.text, Whole.declarationText, Option.mem_def.1 hdecl]
    simp [Declaration.text, hattributes, htail, Attr.textAll]
  exact Cursor.text_ne_bare hv _ (hvtext.symm.trans htext)

end Spelled

/-! ### Formatting -/

/-- What is read back from a result. -/
theorem Formatter.Formatted.read_eq {f : Formatter} {t : Text} {w w' : Spelled.Whole} {eol : LineEnd} {r : Result}
    (h : Formatted f t w w' eol r) (hw' : w'.WellFormed) : read r.formatted = .ok w'.locate := by
  rw [read, h.normalize, read_text hw']

/-- Formatting keeps the skeleton of a document: a text that can be read is formatted, and the result can be
read and has the skeleton of the text. -/
theorem Formatter.read_format_sameSkeleton {profile : Profile} (hvalid : profile.Valid)
    {correlationId : Option String} {f : Formatter} (hmake : make profile correlationId [] = .ok f) {t : Text}
    {d : Document} (hread : read t = .ok d) (hprolog : ∀ p ∈ d.prolog, p.attributes ≠ []) :
    ∃ r d', f.format t = .ok r ∧ read r.formatted = .ok d' ∧
      d.SameSkeleton profile.style.sortAttributes d' := by
  obtain ⟨w, w', lineEnd, r, rfl, h⟩ := exists_formatted hvalid hmake hread
  have hw' := h.reshaped.wellFormed_of_attributes h.wellFormed hprolog
  refine ⟨r, w'.locate, h.format, h.read_eq hw', ?_⟩
  rw [← (of_make hmake).1]
  exact h.reshaped.sameSkeleton h.wellFormed hw'

/-! ### An example -/

/-- A profile is valid if its layout section holds the defaults. -/
theorem Profile.valid_of_layout {p : Profile} (h : p.layout = Setting.default) : p.Valid where
  checked := by
    refine ⟨Setting.default, ?_⟩
    rw [h, checkLayout]
    refine congrArg Except.ok ?_
    funext setting
    cases setting <;> rfl
  width := ⟨80, by rw [h]; rfl⟩
  tabWidth := ⟨2, by rw [h]; rfl⟩
  lineEnd := ⟨"lf", by rw [h]; rfl⟩

/-- A document that is nothing but its root. -/
def Spelled.Whole.ofRoot (item : Item) (tail : Text) : Whole := ⟨none, [([], .root item)], tail⟩

theorem Spelled.Whole.wellFormed_ofRoot {item : Item} (helement : item.IsElement) (hitem : item.WellFormed)
    {tail : Text} (htail : Blanks tail) : (ofRoot item tail).WellFormed := by
  refine ⟨by simp [ofRoot], ?_, List.pairwise_singleton .., htail⟩
  simp only [ofRoot, List.mem_singleton, forall_eq]
  exact ⟨blanks_nil, helement, hitem⟩

/-- A declaration, attributes out of order, and text between references and a comment. -/
def Formatter.mixedText : Text :=
  "<?xml version='1.0'?><a k='\"1' b=\"it's\"> one&amp;two <!-- three --> <b/></a>".toList

/-- Sorting and requoting attributes and reflowing text keeps the skeleton of a text with all of them. -/
theorem Formatter.read_format_sameSkeleton_mixed :
    ∃ d r d', read mixedText = .ok d ∧ format { profile := .canonical } mixedText = .ok r ∧
      read r.formatted = .ok d' ∧ d.SameSkeleton true d' := by
  obtain ⟨d, hread, hprolog⟩ := @exists_ok_of_any _ _ (read mixedText)
    (fun d => d.prolog.all fun p => !p.attributes.isEmpty) (by decide +kernel)
  have hprolog' : ∀ p ∈ d.prolog, p.attributes ≠ [] := by
    intro p hp
    rw [Option.mem_def.1 hp] at hprolog
    simpa using hprolog
  obtain ⟨r, d', hformat, hread', hskeleton⟩ :=
    @read_format_sameSkeleton .canonical (Profile.valid_of_layout rfl) none _ rfl _ _ hread hprolog'
  exact ⟨d, r, d', hread, hformat, hread', hskeleton⟩

end XmlTidy
