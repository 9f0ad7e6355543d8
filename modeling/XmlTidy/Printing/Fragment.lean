import XmlTidy.Markup.Node
import XmlTidy.Printing.Segment
import XmlTidy.Settings.Style

/-!
Fragments: the children of an element, each laid out, with what the rules of element layout look at. They
are ordered by offset. Character data is either preserved, and then runs that touch on one line are
one fragment, or it is trimmed and segmented, and then a run of blanks is only a hint.
-/

namespace XmlTidy

inductive FragmentKind where
  | cdata
  | comment
  | charData
  | element
  | instruction
  | reference
  | verbatim
deriving DecidableEq, Repr

/-- A child, laid out. `isBlank` marks a run of blanks that is kept as a hint only, `hasNewline` says
whether such a run holds a newline, `preserved` marks character data printed as it was written,
`isClosed` belongs to elements, and `endsBlank` says whether a text had blanks at its end. -/
structure Fragment where
  kind : FragmentKind
  offset : Int
  printed : Doc
  startLine : Int
  endLine : Int
  isBlank : Bool := false
  hasNewline : Bool := false
  preserved : Bool := false
  isClosed : Bool := true
  endsBlank : Bool := false
deriving Repr

namespace Fragment

/-- Whether a fragment flows with the text around it. -/
def isInline (f : Fragment) : Bool :=
  f.kind = .charData || f.kind = .reference

def ofSpan (kind : FragmentKind) (span : Span) (printed : Doc) : Fragment where
  kind := kind
  offset := span.first
  printed := printed
  startLine := span.start.line
  endLine := span.stop.line

def ofToken (kind : FragmentKind) (token : Token) : Fragment :=
  ofSpan kind token.span (.text token.image)

def ofReference (ref : Reference) : Fragment :=
  ofSpan .reference ref.span (.text ref.image)

def ofElement (tag : Tag) (printed : Doc) : Fragment :=
  { ofSpan .element tag.span printed with isClosed := tag.isClosed }

/-! ### Character data -/

/-- A run as it was written. -/
def ofPreserved (run : CharData) : Fragment :=
  { ofSpan .charData run.span (.verbatim run.image) with preserved := true }

/-- A fragment with a run that goes on where it ends. -/
def extend (f : Fragment) (run : CharData) : Fragment :=
  { f with
    endLine := run.span.stop.line
    printed := .grouped (.concat [f.printed, .verbatim run.image]) }

/-- A run that may be reflowed. -/
def ofReflowed (run : CharData) : Fragment :=
  if run.blank then
    { ofSpan .charData run.span (.text run.image) with
      isBlank := true
      hasNewline := run.image.hasNewline }
  else
    { ofSpan .charData run.span (segmentsLayout (segments run.image.trim)) with
      endsBlank := run.image.endsBlank }

end Fragment

/-- Whether a span starts right behind another one on the same line. -/
def Span.touches (previous current : Span) : Bool :=
  current.start.line = previous.stop.line && current.start.column = previous.stop.column + 1

/-- The preserved runs as fragments. `open?` is the fragment that the next run may extend, with the span
of its last run. -/
def preservedRuns (open? : Option (Fragment × Span)) : List CharData → List Fragment
  | [] => (open?.map Prod.fst).toList
  | run :: rest =>
      match open? with
      | none => preservedRuns (some (.ofPreserved run, run.span)) rest
      | some (f, previous) =>
          if previous.touches run.span then preservedRuns (some (f.extend run, run.span)) rest
          else f :: preservedRuns (some (.ofPreserved run, run.span)) rest

def charDataFragments (preserve : Bool) (runs : List CharData) : List Fragment :=
  if preserve then preservedRuns none runs else runs.map .ofReflowed

/-- The fragments of content, given those of its elements. Runs are preserved when asked for, and when
the style preserves whitespace around text and there is text. -/
def Content.fragments (style : Style) (preserve : Bool) (content : Content)
    (elements : List Fragment) : List Fragment :=
  let preserve := preserve || (style.sensitivity = .preserve && content.hasText)
  sortedBy Fragment.offset
    (content.cdata.map (.ofToken .cdata) ++ content.comments.map (.ofToken .comment) ++
      charDataFragments preserve content.charData ++ elements ++
      content.instructions.map (.ofToken .instruction) ++ content.references.map .ofReference)

end XmlTidy
