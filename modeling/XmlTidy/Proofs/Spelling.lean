import XmlTidy.Markup.Read
import XmlTidy.Proofs.Lexical

/-!
Documents as they are spelled. A spelling is a tree that keeps every character of a text, blanks inside
tags included, and no places: `text` puts it back together, and `locate` gives the nodes that it stands
for when it stands at an offset of a source. `WellFormed` says when reading the text of a spelling
can only give that spelling back: names end where they end, two runs of one class never
touch, and tokens reach to their first closing delimiter.
-/

namespace XmlTidy

namespace Spelled

/-- An attribute with the blanks in front of it and around its equals sign. -/
structure Attr where
  lead : Text
  name : Text
  before : Text
  behind : Text
  value : Text
deriving DecidableEq, Repr

namespace Attr

def text (a : Attr) : Text :=
  a.lead ++ (a.name ++ (a.before ++ '=' :: (a.behind ++ a.value)))

structure WellFormed (a : Attr) : Prop where
  lead_blanks : Blanks a.lead
  lead_ne_nil : a.lead ≠ []
  name : Name.IsName a.name
  before_blanks : Blanks a.before
  behind_blanks : Blanks a.behind
  value : Literal.IsLiteral (· != '<') a.value

/-- The attribute that a spelling stands for when its blanks start at an offset. -/
def locate (src : Source) (offset : Nat) (a : Attr) : Attribute :=
  ⟨a.name, a.value, src.span (offset + a.lead.length) (offset + a.text.length)⟩

/-- Several attributes, one behind the other. -/
def textAll (attrs : List Attr) : Text :=
  attrs.flatMap text

def locateAll (src : Source) : Nat → List Attr → List Attribute
  | _, [] => []
  | offset, a :: as => a.locate src offset :: locateAll src (offset + a.text.length) as

end Attr

/-- A start tag up to its closing bracket. -/
structure Open where
  name : Text
  attributes : List Attr
  tail : Text
deriving DecidableEq, Repr

namespace Open

def text (o : Open) : Text :=
  '<' :: (o.name ++ (Attr.textAll o.attributes ++ o.tail))

structure WellFormed (o : Open) : Prop where
  name : Name.IsName o.name
  attributes : ∀ a ∈ o.attributes, a.WellFormed
  tail_blanks : Blanks o.tail

/-- The attributes of a tag that starts at an offset. -/
def locate (src : Source) (offset : Nat) (o : Open) : List Attribute :=
  Attr.locateAll src (offset + 1 + o.name.length) o.attributes

/-- The tag of an element without content. -/
def emptyTag (src : Source) (offset : Nat) (o : Open) : Tag where
  name := o.name
  attributes := o.locate src offset
  selfClosing := true
  endName := none
  span := src.span offset (offset + (o.text.length + 2))
  contentSpan := none

/-- The frame of an element whose start tag has been read. -/
def frame (src : Source) (offset : Nat) (o : Open) : Frame :=
  ⟨o.name, o.locate src offset, offset, offset + (o.text.length + 1), []⟩

end Open

/-- The classes of leaves; character data has two. -/
inductive LeafClass where
  | blank
  | text
  | cdata
  | comment
  | instruction
  | reference (kind : ReferenceKind)
deriving DecidableEq, Repr

namespace LeafClass

def leaf (cls : LeafClass) (image : Text) (span : Span) : Leaf :=
  match cls with
  | .blank => .charData ⟨image, true, span⟩
  | .text => .charData ⟨image, false, span⟩
  | .cdata => .cdata ⟨image, span⟩
  | .comment => .comment ⟨image, span⟩
  | .instruction => .instruction ⟨image, span⟩
  | .reference kind => .reference ⟨image, kind, span⟩

/-- The class of a leaf. -/
def of : Leaf → LeafClass
  | .charData run => if run.blank then .blank else .text
  | .cdata _ => .cdata
  | .comment _ => .comment
  | .instruction _ => .instruction
  | .reference ref => .reference ref.kind

/-- Whether an image belongs to a class. -/
def Image : LeafClass → Text → Prop
  | .blank, image => image ≠ [] ∧ Blanks image
  | .text, image => image ≠ [] ∧ Stops isBlank image ∧ ∀ c ∈ image, Cursor.isTextChar c = true
  | .cdata, image =>
      Text.startsWith Cursor.sectionStart image = true ∧ Text.EndsAt [']', ']', '>'] image
  | .comment, image =>
      Text.startsWith Cursor.commentStart image = true ∧ Text.EndsAt ['-', '-', '>'] image
  | .instruction, image =>
      Text.startsWith ['<', '?'] image = true ∧ Text.EndsAt ['?', '>'] image ∧
        ∃ target, Name.Leads target (image.drop 2) ∧ Cursor.isReserved target = false
  | .reference kind, image => Reference.IsReference kind image

end LeafClass

/-- A child of an element: a leaf, an element without content, or one with content, whose end tag may
hold blanks. -/
inductive Item where
  | leaf (cls : LeafClass) (image : Text)
  | empty (tag : Open)
  | full (tag : Open) (children : List Item) (endTail : Text)
deriving Repr

namespace Item

/-- The end tag of an element. -/
def endTag (name endTail : Text) : Text :=
  '<' :: '/' :: (name ++ (endTail ++ ['>']))

mutual
def text : Item → Text
  | .leaf _ image => image
  | .empty tag => tag.text ++ ['/', '>']
  | .full tag children endTail => tag.text ++ '>' :: (textAll children ++ endTag tag.name endTail)

def textAll : List Item → Text
  | [] => []
  | item :: rest => item.text ++ textAll rest
end

/-- Runs of character data that touch are a run of blanks and the text behind it. -/
def Apart : Item → Item → Prop
  | .leaf .blank _, .leaf .blank _ => False
  | .leaf .text _, .leaf .blank _ => False
  | .leaf .text _, .leaf .text _ => False
  | _, _ => True

mutual
def WellFormed : Item → Prop
  | .leaf cls image => cls.Image image
  | .empty tag => tag.WellFormed
  | .full tag children endTail => tag.WellFormed ∧ WellFormedAll children ∧ Blanks endTail

/-- Children that are well formed and keep apart. -/
def WellFormedAll : List Item → Prop
  | [] => True
  | item :: rest =>
      item.WellFormed ∧ (∀ next ∈ rest.head?, item.Apart next) ∧ WellFormedAll rest
end

mutual
/-- The node that a spelling stands for at an offset. -/
def locate (src : Source) (offset : Nat) : Item → Node
  | .leaf cls image => .leaf (cls.leaf image (src.span offset (offset + image.length)))
  | .empty tag => .element (tag.emptyTag src offset) []
  | .full tag children endTail =>
      let start := offset + (tag.text.length + 1)
      let stop := start + (textAll children).length
      .element
        { name := tag.name
          attributes := tag.locate src offset
          selfClosing := false
          endName := some tag.name
          span := src.span offset (stop + (endTag tag.name endTail).length)
          contentSpan := some (src.span start stop) } (locateAll src start children)

def locateAll (src : Source) (offset : Nat) : List Item → List Node
  | [] => []
  | item :: rest => item.locate src offset :: locateAll src (offset + item.text.length) rest
end

/-- Whether a spelling is that of an element. -/
def IsElement : Item → Prop
  | .leaf _ _ => False
  | _ => True

end Item

/-! ### Documents -/

/-- An XML declaration. -/
structure Declaration where
  attributes : List Attr
  tail : Text
deriving DecidableEq, Repr

namespace Declaration

def text (d : Declaration) : Text :=
  Cursor.prologStart ++ (Attr.textAll d.attributes ++ (d.tail ++ ['?', '>']))

/-- A blank follows the target, be it in front of an attribute or of the end. -/
structure WellFormed (d : Declaration) : Prop where
  attributes : ∀ a ∈ d.attributes, a.WellFormed
  tail_blanks : Blanks d.tail
  tail_ne_nil : d.attributes = [] → d.tail ≠ []

def locate (src : Source) (offset : Nat) (d : Declaration) : Prolog where
  attributes := Attr.locateAll src (offset + Cursor.prologStart.length) d.attributes
  span := src.span offset (offset + d.text.length)

end Declaration

/-- An external identifier: a keyword, and literals with the blanks in front of them. -/
inductive External where
  | systemId (gap literal : Text)
  | publicId (gap literal : Text) (system : Option (Text × Text))
deriving DecidableEq, Repr

namespace External

def keyword : External → Cursor.ExternalKeyword
  | .systemId .. => .systemId
  | .publicId .. => .publicId

/-- A literal that may be missing, behind its blanks. -/
def optionText : Option (Text × Text) → Text
  | none => []
  | some (gap, literal) => gap ++ literal

def literals : External → Text
  | .systemId gap literal => gap ++ literal
  | .publicId gap literal system => gap ++ (literal ++ optionText system)

def text (e : External) : Text :=
  e.keyword.image ++ e.literals

/-- A literal behind at least one blank. -/
structure Spaced (gap literal : Text) : Prop where
  blanks : Blanks gap
  ne_nil : gap ≠ []
  literal : Literal.IsLiteral (fun _ => true) literal

def WellFormed : External → Prop
  | .systemId gap literal => Spaced gap literal
  | .publicId gap literal system => Spaced gap literal ∧ ∀ s ∈ system, Spaced s.1 s.2

def publicLiteral : External → Option Text
  | .systemId .. => none
  | .publicId _ literal _ => some literal

def systemLiteral : External → Option Text
  | .systemId _ literal => some literal
  | .publicId _ _ system => system.map Prod.snd

def locate (src : Source) (offset : Nat) (e : External) : ExternalId :=
  ⟨e.keyword.image, e.publicLiteral, e.systemLiteral, src.span offset (offset + e.text.length)⟩

end External

/-- What may stand behind the opening bracket of an internal subset, up to the bracket that closes it. -/
inductive SubsetBody : Text → Prop where
  | close : SubsetBody [']']
  | comment {image body : Text} (himage : LeafClass.Image .comment image) (hbody : SubsetBody body) :
      SubsetBody (image ++ body)
  | literal {q : Char} {inner body : Text} (hq : Literal.isQuote q = true)
      (hinner : Text.EndsAt [q] inner) (hbody : SubsetBody body) : SubsetBody (q :: (inner ++ body))
  | other {c : Char} {body : Text} (hq : Literal.isQuote c = false) (hc : c ≠ ']')
      (hstart : Text.startsWith Cursor.commentStart (c :: body) = false) (hbody : SubsetBody body) :
      SubsetBody (c :: body)

/-- A document type declaration with all of its blanks; those in front of an external identifier come
with it. -/
structure TypeDecl where
  lead : Text
  name : Text
  external : Option (Text × External)
  before : Text
  subset : Option Text
  tail : Text
deriving DecidableEq, Repr

namespace TypeDecl

def externalText (d : TypeDecl) : Text :=
  match d.external with
  | none => []
  | some (gap, e) => gap ++ e.text

def subsetText (d : TypeDecl) : Text :=
  d.subset.getD []

def text (d : TypeDecl) : Text :=
  Cursor.doctypeStart ++ (d.lead ++ (d.name ++ (d.externalText ++ (d.before ++
    (d.subsetText ++ (d.tail ++ ['>']))))))

structure WellFormed (d : TypeDecl) : Prop where
  lead_blanks : Blanks d.lead
  lead_ne_nil : d.lead ≠ []
  name : Name.IsName d.name
  external : ∀ e ∈ d.external, Blanks e.1 ∧ e.1 ≠ [] ∧ e.2.WellFormed
  before_blanks : Blanks d.before
  subset : ∀ s ∈ d.subset, ∃ body, s = '[' :: body ∧ SubsetBody body
  tail_blanks : Blanks d.tail

/-- The offset of the external identifier, relative to the declaration. -/
def externalStart (d : TypeDecl) (gap : Text) : Nat :=
  Cursor.doctypeStart.length + d.lead.length + d.name.length + gap.length

def locate (src : Source) (offset : Nat) (d : TypeDecl) : Doctype where
  name := d.name
  externalId := d.external.map fun (gap, e) => e.locate src (offset + d.externalStart gap)
  internalSubset := d.subset
  span := src.span offset (offset + d.text.length)

end TypeDecl

/-- A node at the top level of a document, the XML declaration apart. -/
inductive Top where
  | misc (kind : MiscKind) (image : Text)
  | doctype (decl : TypeDecl)
  | root (item : Item)
deriving Repr

namespace Top

/-- The class of leaves that a miscellaneous node looks like. -/
def leafClass : MiscKind → LeafClass
  | .comment => .comment
  | .instruction => .instruction

def text : Top → Text
  | .misc _ image => image
  | .doctype decl => decl.text
  | .root item => item.text

def WellFormed : Top → Prop
  | .misc kind image => (leafClass kind).Image image
  | .doctype decl => decl.WellFormed
  | .root item => item.IsElement ∧ item.WellFormed

/-- Whether one node may stand before another: there is one root and one document type declaration, and
the declaration comes first. -/
def Before : Top → Top → Prop
  | .doctype _, .doctype _ => False
  | .root _, .doctype _ => False
  | .root _, .root _ => False
  | _, _ => True

/-- The draft with a node that starts at an offset. -/
def addTo (src : Source) (offset : Nat) (draft : Draft) : Top → Draft
  | .misc kind image => draft.addMisc kind ⟨image, src.span offset (offset + image.length)⟩
  | .doctype decl => { draft with doctype := some (decl.locate src offset) }
  | .root item => { draft with root := (item.locate src offset).element? }

end Top

/-- A document: the declaration, the other nodes with the blanks in front of them, and the blanks at
the end. -/
structure Whole where
  declaration : Option Declaration
  tops : List (Text × Top)
  tail : Text
deriving Repr

namespace Whole

def topsText (tops : List (Text × Top)) : Text :=
  tops.flatMap fun (gap, top) => gap ++ top.text

def declarationText (w : Whole) : Text :=
  match w.declaration with
  | none => []
  | some d => d.text

def text (w : Whole) : Text :=
  w.declarationText ++ (topsText w.tops ++ w.tail)

structure WellFormed (w : Whole) : Prop where
  declaration : ∀ d ∈ w.declaration, d.WellFormed
  tops : ∀ top ∈ w.tops, Blanks top.1 ∧ top.2.WellFormed
  order : (w.tops.map Prod.snd).Pairwise Top.Before
  tail_blanks : Blanks w.tail

/-- The draft with all nodes of a list that starts at an offset. -/
def addTops (src : Source) : Nat → Draft → List (Text × Top) → Draft
  | _, draft, [] => draft
  | offset, draft, (gap, top) :: rest =>
      addTops src (offset + gap.length + top.text.length)
        (top.addTo src (offset + gap.length) draft) rest

def draft (src : Source) (w : Whole) : Draft :=
  addTops src w.declarationText.length { prolog := w.declaration.map (·.locate src 0) } w.tops

/-- The document that a spelling stands for. -/
def locate (w : Whole) : XmlTidy.Document :=
  let src := Source.ofText w.text
  (w.draft src).toDocument (src.span 0 w.text.length)

end Whole

end Spelled

end XmlTidy
