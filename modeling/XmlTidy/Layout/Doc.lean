import XmlTidy.Json.Basic
import XmlTidy.Text.Basic

/-!
Layout documents: what is to be printed, without saying where its lines end. Text is printed as it is;
a group puts all of its own lines on one line or none; a fill alternates contents and separators
and breaks only the separators it has to; a line is a blank (a soft line nothing) when it is not
broken. A hard line always breaks, and a literal line breaks without indentation.

A document may also hold a stray value, which is no document. Printing reports it if it gets there.
-/

namespace XmlTidy

/-- A value that is no document: a scalar, or a value of any other type. Printing sees of it the name of its
type and whether it counts as set. -/
inductive Stray where
  | scalar (s : Scalar)
  | other (typeName : String) (isVoid : Bool)
deriving DecidableEq, Repr

namespace Stray

instance : Coe Scalar Stray := ⟨.scalar⟩

/-- The scalar that a value is shown as. A value of another type is shown as null. -/
def toScalar : Stray → Scalar
  | .scalar s => s
  | .other .. => .null

instance : CoeOut Stray Scalar := ⟨toScalar⟩

/-- The name under which messages speak of a value. -/
def typeName : Stray → String
  | .scalar s => s.typeName
  | .other name _ => name

def isVoid : Stray → Bool
  | .scalar s => s.isVoid
  | .other _ void => void

end Stray

structure Line where
  hard : Bool
  soft : Bool
  literal : Bool
deriving DecidableEq, Repr

inductive Doc where
  | text (t : Text)
  | concat (parts : List Doc)
  | group (contents : Doc) (forced : Bool)
  | fill (parts : List Doc)
  | indent (contents : Doc)
  | line (l : Line)
  | ifBreak (broken flat : Doc)
  | breakParent
  | stray (value : Stray)
deriving Inhabited, Repr, BEq

namespace Doc

/-- The name under which messages speak of a document. -/
def typeName : Doc → String
  | .text _ => "str"
  | .concat _ => "list"
  | .group .. => "Group"
  | .fill _ => "Fill"
  | .indent _ => "Indent"
  | .line _ => "Line"
  | .ifBreak .. => "IfBreak"
  | .breakParent => "BreakParent"
  | .stray value => value.typeName

/-- Whether a branch of an `ifBreak` is passed over: an empty text, an empty concatenation or a stray
value that does not count as set. -/
def isVoid : Doc → Bool
  | .text t => t.isEmpty
  | .concat parts => parts.isEmpty
  | .stray value => value.isVoid
  | _ => false

/-! ### Building documents -/

/-- Text given as a string. -/
def lit (s : String) : Doc := .text s.toList

def spaceLine : Doc := .line ⟨false, false, false⟩

def softLine : Doc := .line ⟨false, true, false⟩

/-- A line break that all enclosing groups have to follow. -/
def hardLine : Doc := .concat [.line ⟨true, false, false⟩, .breakParent]

/-- A line break without indentation that all enclosing groups have to follow. -/
def literalLine : Doc := .concat [.line ⟨true, false, true⟩, .breakParent]

def grouped (contents : Doc) : Doc := .group contents false

/-- The documents with a separator between each two. -/
def join (separator : Doc) (docs : List Doc) : List Doc :=
  docs.intersperse separator

theorem mem_join {separator doc : Doc} {docs : List Doc} (h : doc ∈ join separator docs) :
    doc = separator ∨ doc ∈ docs := by
  rw [join] at h
  induction docs with
  | nil => cases h
  | cons first docs ih =>
      cases docs with
      | nil => exact .inr h
      | cons second docs =>
          rw [List.intersperse_cons_cons, List.mem_cons, List.mem_cons] at h
          rcases h with rfl | rfl | h
          · exact .inr List.mem_cons_self
          · exact .inl rfl
          · exact (ih h).imp_right (List.mem_cons_of_mem _)

/-- A text whose newlines are printed as `lineBreak`. -/
def ofLines (lineBreak : Doc) (t : Text) : Doc :=
  if t.hasNewline then .concat (join lineBreak (t.lines.map .text)) else .text t

/-- A text that is printed as it stands, whatever the indentation around it. -/
def verbatim (t : Text) : Doc :=
  ofLines literalLine t

/-! ### Forced breaks -/

mutual
/-- Marks every group that has to break: those created so, and those that contain a `breakParent` or
another such group. The second part says whether something in the document forces the groups around
it to break. -/
def propagate : Doc → Doc × Bool
  | .concat parts => let (parts, forces) := propagateAll parts; (.concat parts, forces)
  | .fill parts => let (parts, forces) := propagateAll parts; (.fill parts, forces)
  | .indent contents => let (contents, forces) := propagate contents; (.indent contents, forces)
  | .group contents forced =>
      let (contents, forces) := propagate contents
      (.group contents (forces || forced), forces || forced)
  | .ifBreak broken flat =>
      let (broken, forces₁) := propagate broken
      let (flat, forces₂) := propagate flat
      (.ifBreak broken flat, forces₁ || forces₂)
  | .breakParent => (.breakParent, true)
  | .text t => (.text t, false)
  | .line l => (.line l, false)
  | .stray value => (.stray value, false)

def propagateAll : List Doc → List Doc × Bool
  | [] => ([], false)
  | doc :: docs =>
      let (doc, forces₁) := propagate doc
      let (docs, forces₂) := propagateAll docs
      (doc :: docs, forces₁ || forces₂)
end

/-- The document with every group marked that has to break. -/
def settled (doc : Doc) : Doc := (propagate doc).1

mutual
/-- The marks of all groups, an outer group before those inside it and otherwise from left to right. -/
def groupMarks : Doc → List Bool
  | .concat parts | .fill parts => groupMarksAll parts
  | .indent contents => groupMarks contents
  | .group contents forced => forced :: groupMarks contents
  | .ifBreak broken flat => groupMarks broken ++ groupMarks flat
  | .text _ | .line _ | .breakParent | .stray _ => []

def groupMarksAll : List Doc → List Bool
  | [] => []
  | doc :: docs => groupMarks doc ++ groupMarksAll docs
end

/-! ### Size and depth -/

mutual
/-- The size of a document: the measure by which printing it ends. -/
def size : Doc → Nat
  | .concat parts | .fill parts => 1 + sizeAll parts
  | .indent contents | .group contents _ => 1 + size contents
  | .ifBreak broken flat => 1 + size broken + size flat
  | .text _ | .line _ | .breakParent | .stray _ => 1

def sizeAll : List Doc → Nat
  | [] => 0
  | doc :: docs => 1 + size doc + sizeAll docs
end

mutual
/-- How deep a document is indented inside. -/
def depth : Doc → Nat
  | .concat parts | .fill parts => depthAll parts
  | .indent contents => depth contents + 1
  | .group contents _ => depth contents
  | .ifBreak broken flat => max (depth broken) (depth flat)
  | .text _ | .line _ | .breakParent | .stray _ => 0

def depthAll : List Doc → Nat
  | [] => 0
  | doc :: docs => max (depth doc) (depthAll docs)
end

end Doc

end XmlTidy
