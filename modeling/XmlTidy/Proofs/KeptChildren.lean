import XmlTidy.Proofs.Elements
import XmlTidy.Proofs.Skeleton

/-!
Where whitespace counts, formatting does not touch it. If the whitespace inside an element may not be reflowed, or
the style preserves whitespace around text and the element holds text, then the element that stands in its
place in the result has the same children: the same runs of blanks and text, character for character, and
the same tokens, references and elements between them.
-/

namespace XmlTidy

/-! ### Children and what they show -/

/-- What a child shows of itself: the class and the image of a leaf, or the name of an element. -/
inductive Face where
  | leaf (cls : Spelled.LeafClass) (image : Text)
  | element (name : Text)
deriving DecidableEq, Repr

def Node.face : Node → Face
  | .leaf l => .leaf (.of l) l.image
  | .element tag _ => .element tag.name

namespace Element

def comments (e : Element) : List Token := e.children.filterMap Node.comment?

/-- Whether some run of character data among the children is more than blanks. -/
def hasText (e : Element) : Bool := (e.children.filterMap Node.charData?).any (! ·.blank)

/-- Whether the whitespace inside an element counts. -/
def SpaceCounts (style : Style) (e : Element) : Prop :=
  isReflowable style e.tag.name e.tag.attributes e.comments = false ∨
    (style.sensitivity = .preserve ∧ e.hasText = true)

instance (style : Style) (e : Element) : Decidable (e.SpaceCounts style) :=
  inferInstanceAs (Decidable (_ ∨ _))

/-- Elements of which the second has the children of the first if whitespace counts there. -/
def Keeps (style : Style) (e e' : Element) : Prop :=
  e.SpaceCounts style → e'.children.map Node.face = e.children.map Node.face

end Element

namespace Spelled

def Item.face : Item → Face
  | .leaf cls image => .leaf cls image
  | .empty tag | .full tag _ _ => .element tag.name

theorem face_locate (src : Source) (n : Nat) (item : Item) : (item.locate src n).face = item.face := by
  cases item with
  | leaf cls image => cases cls <;> rfl
  | empty tag => rw [Item.locate]; rfl
  | full tag children endTail => rw [Item.locate]; rfl

theorem map_face_locateAll (src : Source) (n : Nat) (items : List Item) :
    (Item.locateAll src n items).map Node.face = items.map Item.face := by
  induction items generalizing n with
  | nil => rfl
  | cons item rest ih => rw [Item.locateAll, List.map_cons, List.map_cons, face_locate, ih]

theorem Item.Reshaped.face {style : Style} {item item' : Item} (h : item.Reshaped style item') :
    item'.face = item.face := by
  cases h with
  | same => rfl
  | empty htag => exact congrArg Face.element htag.name
  | emptied htag => exact congrArg Face.element htag.name
  | kept htag => exact congrArg Face.element htag.name
  | reflowed htag => exact congrArg Face.element htag.name

theorem map_face_of_forall₂ {style : Style} {items items' : List Item}
    (h : List.Forall₂ (fun a b => a.Alike b ∧ a.Reshaped style b) items items') :
    items'.map Item.face = items.map Item.face := by
  induction h with
  | nil => rfl
  | cons hitem _ ih => rw [List.map_cons, List.map_cons, hitem.2.face, ih]

/-- Whitespace counts in an element exactly if its children are printed as they stand. -/
theorem spaceCounts_iff {style : Style} {o : Open} {tag : Tag} (htag : TagOf o tag) {children : List Item}
    (hchildren : Item.WellFormedAll children) (src : Source) (n : Nat) :
    Element.SpaceCounts style ⟨tag, Item.locateAll src n children⟩ ↔ o.keeps style children = true := by
  have hreflows : isReflowable style tag.name tag.attributes
      (Element.comments ⟨tag, Item.locateAll src n children⟩) = o.reflows style children :=
    htag.isReflowable_eq style hchildren
  have htext : Element.hasText ⟨tag, Item.locateAll src n children⟩ = children.any Item.isText :=
    hasText_locateAll src n children (src.span 0 0)
  simp [Element.SpaceCounts, hreflows, htext, Open.keeps, Open.keepsText]

/-! ### Elements -/

theorem elements_leaf {node : Node} (h : node.isBlankRun = true) : node.elements = [] := by
  cases node with
  | leaf l => rw [Node.elements]
  | element tag children => cases h

theorem flatMap_elements_solids (nodes : List Node) :
    nodes.flatMap Node.elements = (Node.solids nodes).flatMap Node.elements := by
  induction nodes with
  | nil => rfl
  | cons node nodes ih =>
      rw [Node.solids] at ih ⊢
      cases hblank : node.isBlankRun with
      | true => rw [List.filter_cons_of_neg (by simp [hblank]), List.flatMap_cons, elements_leaf hblank, ih]; rfl
      | false => rw [List.filter_cons_of_pos (by simp [hblank]), List.flatMap_cons, List.flatMap_cons, ih]

theorem forall₂_flatMap_of {α β : Type} {R : β → β → Prop} {f : α → List β} {as bs : List α}
    (h : List.Forall₂ (fun a b => List.Forall₂ R (f a) (f b)) as bs) :
    List.Forall₂ R (as.flatMap f) (bs.flatMap f) := by
  induction h with
  | nil => exact .nil
  | cons hab _ ih =>
      rw [List.flatMap_cons, List.flatMap_cons]
      exact List.rel_append hab ih

section Elements

variable {src src' : Source} {style : Style}

/-- What holds of an element and of those below it. -/
theorem forall₂_elements {R : Element → Element → Prop} {tag tag' : Tag} {n n' : Nat} {items items' : List Item}
    (hself : R ⟨tag, Item.locateAll src n items⟩ ⟨tag', Item.locateAll src' n' items'⟩)
    (h : List.Forall₂ (fun a b : Node => List.Forall₂ R a.elements b.elements)
      (Node.solids (Item.locateAll src n items)) (Node.solids (Item.locateAll src' n' items'))) :
    List.Forall₂ R (Node.element tag (Item.locateAll src n items)).elements
      (Node.element tag' (Item.locateAll src' n' items')).elements := by
  rw [elements_locateAll, elements_locateAll, flatMap_elements_solids,
    flatMap_elements_solids (Item.locateAll src' n' items')]
  exact .cons hself (forall₂_flatMap_of h)

/-- The elements of an item keep their children in what the item is printed as, where whitespace counts. -/
theorem Item.Reshaped.keeps {item item' : Item} (h : item.Reshaped style item') (hitem : item.WellFormed)
    (n n' : Nat) :
    List.Forall₂ (Element.Keeps style) (item.locate src n).elements (item'.locate src' n').elements := by
  induction item using Item.induct generalizing item' n n' with
  | leaf cls image =>
      cases h
      rw [elements_locate_leaf, elements_locate_leaf]
      exact .nil
  | empty tag =>
      cases h with
      | same =>
          rw [Item.locate, Item.locate, elements_empty, elements_empty]
          exact .cons (fun _ => rfl) .nil
      | empty htag =>
          rw [Item.locate, Item.locate, elements_empty, elements_empty]
          exact .cons (fun _ => rfl) .nil
  | full tag children endTail ih =>
      rw [Item.WellFormed] at hitem
      have hbelow : ∀ child ∈ solids children, ∀ child', child.Reshaped style child' → ∀ m m',
          List.Forall₂ (Element.Keeps style) (child.locate src m).elements (child'.locate src' m').elements := by
        intro child hchild child' h m m'
        have hmem := (mem_of_mem_solids hchild).1
        exact ih child hmem h (wellFormed_of_mem hitem.2.1 hmem) m m'
      cases h with
      | same =>
          rw [Item.locate, Item.locate]
          refine forall₂_elements (fun _ => ?_) (forall₂_locateAll (List.forall₂_same.2 fun _ _ => .same _) hbelow _ _)
          rw [map_face_locateAll, map_face_locateAll]
      | emptied htag hblank hreflows =>
          have hnil := forall₂_solids_locateAll src (n + (tag.text.length + 1)) children
          rw [hblank, List.forall₂_nil_left_iff] at hnil
          rw [Item.locate, Item.locate, elements_locateAll, elements_empty, flatMap_elements_solids, hnil]
          refine .cons (fun hcounts => ?_) .nil
          rw [spaceCounts_iff ⟨rfl, map_pair_locateAll ..⟩ hitem.2.1] at hcounts
          rcases hreflows with rfl | hkeeps
          · rfl
          · rw [hkeeps] at hcounts
            cases hcounts
      | kept htag _ _ hpieces =>
          rw [Item.locate, Item.locate]
          have hreshaped := Piece.forall₂_reshaped hpieces
          refine forall₂_elements (fun _ => ?_) (forall₂_locateAll (forall₂_solids hreshaped) hbelow _ _)
          rw [map_face_locateAll, map_face_locateAll, map_face_of_forall₂ hreshaped]
      | reflowed htag hkeeps _ _ hflowed =>
          rw [Item.locate, Item.locate]
          refine forall₂_elements (fun hcounts => ?_) (forall₂_locateAll hflowed ?_ _ _)
          · rw [spaceCounts_iff ⟨rfl, map_pair_locateAll ..⟩ hitem.2.1, hkeeps] at hcounts
            cases hcounts
          · intro child hchild child' hchild' m m'
            cases hchild' with
            | text =>
                rw [elements_locate_leaf, elements_locate_leaf]
                exact .nil
            | other _ h => exact hbelow child hchild child' h m m'

end Elements

/-! ### Documents -/

theorem Top.Reshaped.keeps {style : Style} {top top' : Top} (h : top.Reshaped style top') (htop : top.WellFormed)
    (src src' : Source) (n n' : Nat) :
    List.Forall₂ (Element.Keeps style) (top.node src n).elements (top'.node src' n').elements := by
  cases h with
  | misc => exact .nil
  | doctype => exact .nil
  | root h => exact h.keeps htop.2 n n'

/-- The elements of a document keep their children in what it is printed as, where whitespace counts. -/
theorem Whole.Reshaped.keeps {style : Style} {w w' : Whole} (h : w.Reshaped style w') (hw : w.WellFormed)
    (hw' : w'.WellFormed) : List.Forall₂ (Element.Keeps style) w.locate.elements w'.locate.elements := by
  have hnodes : List.Forall₂ (fun a b : TopNode => List.Forall₂ (Element.Keeps style) a.elements b.elements)
      w.locate.topNodes w'.locate.topNodes :=
    h.forall₂_topNodes hw hw' (fun _ _ _ => .nil) fun htop hreshaped _ _ _ _ => hreshaped.keeps htop ..
  rw [Document.elements_eq, Document.elements_eq]
  exact forall₂_flatMap_of hnodes

end Spelled

/-! ### Formatting -/

/-- Where whitespace counts, formatting keeps it: every element in which it counts has the same children, in the
same order, as the element in its place in the result. -/
theorem Formatter.read_format_keeps {profile : Profile} (hvalid : profile.Valid)
    {correlationId : Option String} {f : Formatter} (hmake : make profile correlationId [] = .ok f) {t : Text}
    {d : Document} (hread : read t = .ok d) (hprolog : ∀ p ∈ d.prolog, p.attributes ≠ []) :
    ∃ r d', f.format t = .ok r ∧ read r.formatted = .ok d' ∧
      List.Forall₂ (fun e e' : Element => e.SpaceCounts profile.style →
        e'.children.map Node.face = e.children.map Node.face) d.elements d'.elements := by
  obtain ⟨w, w', lineEnd, r, rfl, h⟩ := exists_formatted hvalid hmake hread
  have hw' := h.reshaped.wellFormed_of_attributes h.wellFormed hprolog
  refine ⟨r, w'.locate, h.format, h.read_eq hw', ?_⟩
  rw [← (of_make hmake).1]
  exact h.reshaped.keeps h.wellFormed hw'

/-- A preserved element with blanks at the ends of its lines, and an element in it that is reflowed. -/
def Formatter.spacedText : Text :=
  "<a xml:space='preserve'> x  \n y <b> <c  /> </b> </a>".toList

/-- Whitespace counts in the root of such a text, and is kept there. -/
theorem Formatter.read_format_keeps_spaced :
    ∃ d r d', read spacedText = .ok d ∧ (∃ e ∈ d.elements, e.SpaceCounts Profile.canonical.style) ∧
      format { profile := .canonical } spacedText = .ok r ∧ read r.formatted = .ok d' ∧
      List.Forall₂ (fun e e' : Element => e.SpaceCounts Profile.canonical.style →
        e'.children.map Node.face = e.children.map Node.face) d.elements d'.elements := by
  obtain ⟨d, hread, htest⟩ := @exists_ok_of_any _ _ (read spacedText)
    (fun d : Document => d.prolog.isNone &&
      d.root.any fun e : Element => decide (e.SpaceCounts Profile.canonical.style))
    (by decide +kernel)
  rw [Bool.and_eq_true, Option.isNone_iff_eq_none, Option.any_eq_true] at htest
  obtain ⟨hnone, e, he, hcounts⟩ := htest
  have hprolog : ∀ p ∈ d.prolog, p.attributes ≠ [] := by
    rw [hnone]
    simp
  have hmem : e ∈ d.elements := by
    simp [Document.elements, he, Element.toNode, Node.elements]
  obtain ⟨r, d', hformat, hread', hkeeps⟩ :=
    @read_format_keeps .canonical (Profile.valid_of_layout rfl) none _ rfl _ _ hread hprolog
  exact ⟨d, r, d', hread, ⟨e, hmem, of_decide_eq_true hcounts⟩, hformat, hread', hkeeps⟩

end XmlTidy
