import XmlTidy.Markup.Span
import XmlTidy.Text.Name

/-!
The tree of a marked-up text. Content is a list of nodes: leaves, which stand for their own text, and
elements, which hold content of their own. A node may also be put together by hand, so nothing here
says that the spans agree with a text, that children stand in the order of their offsets, or that
an element is closed; reading a text guarantees all of that.
-/

namespace XmlTidy

/-- A comment, a character data section or a processing instruction, delimiters included. -/
structure Token where
  image : Text
  span : Span
deriving DecidableEq, Repr

/-- An attribute; `value` is the literal with its quotes. -/
structure Attribute where
  name : Text
  value : Text
  span : Span
deriving DecidableEq, Repr

namespace Attribute

/-- The quote that a literal begins with, if it has any character. -/
def quote (a : Attribute) : Text :=
  a.value.take 1

/-- What stands between the first and the last character of a literal. -/
def innerOf (literal : Text) : Text :=
  literal.tail.dropLast

def inner (a : Attribute) : Text :=
  innerOf a.value

end Attribute

/-- A run of character data: either blanks only, or text. -/
structure CharData where
  image : Text
  blank : Bool
  span : Span
deriving DecidableEq, Repr

/-- A run has exactly one of the two classes. -/
def CharData.ofClasses (text whitespace : Option Text) (span : Span) :
    Except NodeFault CharData :=
  match text, whitespace with
  | some image, none => .ok ⟨image, false, span⟩
  | none, some image => .ok ⟨image, true, span⟩
  | _, _ => .error .characterClass

structure Reference where
  image : Text
  kind : ReferenceKind
  span : Span
deriving DecidableEq, Repr

inductive Leaf where
  | charData (run : CharData)
  | cdata (token : Token)
  | comment (token : Token)
  | instruction (token : Token)
  | reference (ref : Reference)
deriving DecidableEq, Repr

namespace Leaf

def image : Leaf → Text
  | .charData run => run.image
  | .cdata token | .comment token | .instruction token => token.image
  | .reference ref => ref.image

def span : Leaf → Span
  | .charData run => run.span
  | .cdata token | .comment token | .instruction token => token.span
  | .reference ref => ref.span

end Leaf

/-- An element apart from its children. It has content exactly when `contentSpan` is given; the name
in its end tag is `endName`. -/
structure Tag where
  name : Text
  attributes : List Attribute
  selfClosing : Bool
  endName : Option Text
  span : Span
  contentSpan : Option Span
deriving DecidableEq, Repr

def Tag.isClosed (tag : Tag) : Bool :=
  tag.selfClosing || tag.endName.isSome

inductive Node where
  | leaf (l : Leaf)
  | element (tag : Tag) (children : List Node)
deriving Repr

namespace Node

def span : Node → Span
  | .leaf l => l.span
  | .element tag _ => tag.span

def charData? : Node → Option CharData
  | .leaf (.charData run) => some run
  | _ => none

def cdata? : Node → Option Token
  | .leaf (.cdata token) => some token
  | _ => none

def comment? : Node → Option Token
  | .leaf (.comment token) => some token
  | _ => none

def instruction? : Node → Option Token
  | .leaf (.instruction token) => some token
  | _ => none

def reference? : Node → Option Reference
  | .leaf (.reference ref) => some ref
  | _ => none

end Node

structure Element where
  tag : Tag
  children : List Node
deriving Repr

def Element.toNode (e : Element) : Node :=
  .element e.tag e.children

def Node.element? : Node → Option Element
  | .element tag children => some ⟨tag, children⟩
  | .leaf _ => none

/-- The children of an element with the span they take up. -/
structure Content where
  children : List Node
  span : Span
deriving Repr

def Element.content? (e : Element) : Option Content :=
  e.tag.contentSpan.map fun span => ⟨e.children, span⟩

namespace Content

def charData (c : Content) : List CharData := c.children.filterMap Node.charData?
def cdata (c : Content) : List Token := c.children.filterMap Node.cdata?
def comments (c : Content) : List Token := c.children.filterMap Node.comment?
def instructions (c : Content) : List Token := c.children.filterMap Node.instruction?
def references (c : Content) : List Reference := c.children.filterMap Node.reference?
def elements (c : Content) : List Element := c.children.filterMap Node.element?

def isEmpty (c : Content) : Bool :=
  c.children.isEmpty

/-- Whether some run of character data is more than blanks. -/
def hasText (c : Content) : Bool :=
  c.charData.any (! ·.blank)

end Content

/-! ### Documents -/

/-- What names the external subset: a keyword with its literals. -/
structure ExternalId where
  keyword : Text
  publicLiteral : Option Text
  systemLiteral : Option Text
  span : Span
deriving DecidableEq, Repr

/-- A document type declaration; the internal subset is kept as written. -/
structure Doctype where
  name : Text
  externalId : Option ExternalId
  internalSubset : Option Text
  span : Span
deriving DecidableEq, Repr

/-- An XML declaration with its pseudo-attributes. -/
structure Prolog where
  attributes : List Attribute
  span : Span
deriving DecidableEq, Repr

inductive MiscKind where
  | comment
  | instruction
deriving DecidableEq, Repr

/-- A comment or a processing instruction outside of the root element. -/
structure Misc where
  image : Text
  kind : MiscKind
  span : Span
deriving DecidableEq, Repr

structure Document where
  prolog : Option Prolog
  doctype : Option Doctype
  misc : List Misc
  root : Option Element
  span : Span
deriving Repr

/-- Stable order by a numeric key. -/
def sortedBy {α κ : Type} [LE κ] [DecidableLE κ] (key : α → κ) (l : List α) : List α :=
  l.mergeSort fun a b => key a ≤ key b

mutual
/-- The elements of a subtree, each before its children, and the children of one element in the order
of their offsets. -/
def Node.elements : Node → List Element
  | .leaf _ => []
  | .element tag children =>
      ⟨tag, children⟩ :: ((sortedBy Prod.fst (Node.elementsIn children)).map Prod.snd).flatten

/-- The elements of each subtree, with the offset at which the subtree starts. -/
def Node.elementsIn : List Node → List (Nat × List Element)
  | [] => []
  | node :: rest => (node.span.first, node.elements) :: Node.elementsIn rest
end

/-- All elements of a document, in document order. -/
def Document.elements (d : Document) : List Element :=
  match d.root with
  | some root => root.toNode.elements
  | none => []

end XmlTidy
