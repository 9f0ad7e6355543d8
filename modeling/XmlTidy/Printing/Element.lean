import XmlTidy.Printing.Attribute
import XmlTidy.Printing.Cluster
import XmlTidy.Printing.Embed
import XmlTidy.Printing.IgnoreRange
import XmlTidy.Printing.Report

/-!
The layout of elements: the open tag with its attributes, the children, and the close tag. Where
whitespace counts, the children stand as they were written; elsewhere they are clustered. One pass over
a tree gives its layout and the report on it, so that the elements reported on are those laid out.
-/

namespace XmlTidy

/-- What laying out a tree needs to know. The source is the text that the tree was read from. -/
structure Job where
  style : Style := {}
  source : Text := []
  embedders : Registry := []
  correlationId : Option String := none

/-! ### Tags -/

namespace Tag

/-- The open tag up to the last attribute. -/
def head (style : Style) (tag : Tag) : List Doc :=
  let start := [.text ['<'], .text tag.name]
  if tag.attributes.isEmpty then start
  else
    let attributes := if style.sortAttributes then sortAttributes tag.attributes else tag.attributes
    let separator := if style.oneAttributePerLine then Doc.hardLine else Doc.spaceLine
    let printed := attributes.map (·.layout style.quotes)
    start ++ [.indent (.concat [.spaceLine, .concat (Doc.join separator printed)])]

/-- What stands before the slash of a tag without content. -/
def slashSpace (style : Style) : Doc :=
  if style.bracketSameLine then
    if style.selfClosingSpace then .text [' '] else .text []
  else if style.selfClosingSpace then .spaceLine
  else .softLine

def selfClosed (style : Style) (tag : Tag) : Doc :=
  .grouped (.concat (tag.head style ++ [slashSpace style, .text ['/', '>']]))

/-- The open tag, with the comments that stay on its line. -/
def opened (style : Style) (tag : Tag) (attached : List Doc) : Doc :=
  let bracketSpace := if style.bracketSameLine then Doc.text [] else Doc.softLine
  let bare := Doc.grouped (.concat (tag.head style ++ [bracketSpace, .text ['>']]))
  if attached.isEmpty then bare else .grouped (.concat (bare :: attached))

def closed (tag : Tag) : Doc :=
  match tag.endName with
  | none => .text []
  | some name => .grouped (.concat [.text ['<', '/'], .text name, .text ['>']])

end Tag

/-! ### Content -/

namespace Job

def ranges (job : Job) (content : Content) : List IgnoreRange × Option Token :=
  IgnoreRange.scan job.style.markers content.comments

/-- The fragments of content with its ignore ranges put in place. -/
def fragments (job : Job) (preserve : Bool) (content : Content) (elements : List Fragment) :
    List Fragment :=
  IgnoreRange.splice job.source (job.ranges content).1
    (content.fragments job.style preserve elements)

/-- Content as it was written. -/
def contentLayout (job : Job) (content : Content) (elements : List Fragment) : Doc :=
  .grouped (.concat ((job.fragments true content elements).map Fragment.printed))

/-- An element whose whitespace may be reflowed. -/
def reflowedLayout (job : Job) (tag : Tag) (content : Content) (elements : List Fragment) : Doc :=
  let fragments := job.fragments false content elements
  let items := fragments.filter (! ·.isBlank)
  let texts := content.charData.filter (! ·.blank)
  if job.style.sensitivity = .preserve && fragments.any (·.preserved) then
    .grouped (.concat
      [tag.opened job.style [], .concat (fragments.map Fragment.printed), tag.closed])
  else
    match items with
    | [] => tag.selfClosed job.style
    | item :: others =>
        if others.isEmpty && texts.length = 1 then
          .grouped (.concat
            [tag.opened job.style [], .indent (.concat [.softLine, item.printed]), .softLine,
              tag.closed])
        else
          let clustering := Clustering.ofFragments fragments
          .grouped (.concat
            [tag.opened job.style clustering.attached,
              .indent (.concat (clustering.ordered.map Cluster.layout)), .hardLine, tag.closed])

/-- What an embedded formatter makes of content that holds only character data; `none` if there is no
formatter or no such content. -/
def embedding? (job : Job) (tag : Tag) (content : Content) : Option (Except EmbedFailure Text) :=
  match Members.find? job.embedders (String.ofList tag.name) with
  | none => none
  | some embedder =>
      if content.elements.isEmpty && content.comments.isEmpty && content.instructions.isEmpty &&
          content.references.isEmpty then
        some (embedder job.style (job.source.slice content.span.first (content.span.last + 1)))
      else none

def embedded? (job : Job) (tag : Tag) (content : Content) : Option Doc :=
  match job.embedding? tag content with
  | some (.ok formatted) => embeddedLayout? formatted
  | _ => none

def reflows (job : Job) (tag : Tag) (content : Content) : Bool :=
  isReflowable job.style tag.name tag.attributes content.comments

/-- The content of a tag that is to be laid out, if there is any. -/
def content? (tag : Tag) (children : List Node) : Option Content :=
  if tag.selfClosing || children.isEmpty then none
  else tag.contentSpan.map fun span => ⟨children, span⟩

/-- An element, given the fragments of the elements among its children. -/
def elementLayout (job : Job) (tag : Tag) (children : List Node) (elements : List Fragment) : Doc :=
  match content? tag children with
  | none => tag.selfClosed job.style
  | some content =>
      match job.embedded? tag content with
      | some doc =>
          .grouped (.concat
            [tag.opened job.style [], .indent (.concat [.hardLine, doc]), .hardLine, tag.closed])
      | none =>
          if job.reflows tag content then job.reflowedLayout tag content elements
          else
            .grouped (.concat
              [tag.opened job.style [], .indent (job.contentLayout content elements), tag.closed])

end Job

/-! ### Reports -/

namespace Job

def componentName : String := "node_printer"

def diagnostic (job : Job) (severity : Severity) (message : String) (position : Position)
    (details : Json) : Diagnostic where
  severity := severity
  message := message
  component := componentName
  position := position.toJson
  details := details
  correlationId := job.correlationId

/-- On putting ignore ranges in place. -/
def rangesReport (job : Job) (content : Content) : Report :=
  let (ranges, unpaired) := job.ranges content
  { ranges := ranges.length
    notices := if ranges.isEmpty then [] else [.splicingRanges]
    diagnostics :=
      match unpaired with
      | none => []
      | some token =>
          [job.diagnostic .info "Ignore start marker has no matching end marker" token.span.start
            .null] }

/-- On collecting the fragments of content, given the report on its elements. -/
def contentReport (job : Job) (preserve : Bool) (content : Content) (elements : Report) : Report :=
  let collected :=
    (content.fragments job.style preserve []).length + content.elements.length
  elements ++ { fragments := collected } ++ job.rangesReport content

/-- On an embedded formatter that failed. -/
def failureReport (job : Job) (tag : Tag) (failure : EmbedFailure) : Report where
  notices := [.embedderFailed]
  diagnostics :=
    [job.diagnostic .warning
      ("Embedded formatter for <" ++ String.ofList tag.name ++ "> failed: " ++ failure.message)
      tag.span.start (.obj [("exception_type", .str failure.kind)])]

def embeddingReport (job : Job) (tag : Tag) (content : Content) : Report :=
  match job.embedding? tag content with
  | some (.error failure) => job.failureReport tag failure
  | _ => {}

/-- On an element, given the report on the elements among its children. -/
def elementReport (job : Job) (tag : Tag) (children : List Node) (elements : Report) : Report :=
  let this : Report := { elements := 1 }
  match content? tag children with
  | none => this
  | some content =>
      match job.embedded? tag content with
      | some _ => this
      | none =>
          this ++ job.embeddingReport tag content ++
            job.contentReport (!job.reflows tag content) content elements

end Job

/-! ### Trees -/

/-- Something that was laid out, and the report on it. -/
structure Laid (α : Type) where
  result : α
  report : Report

/-- An element, given what became of the elements among its children. -/
def Job.element (job : Job) (tag : Tag) (children : List Node) (elements : Laid (List Fragment)) : Laid Doc where
  result := job.elementLayout tag children elements.result
  report := job.elementReport tag children elements.report

def Leaf.layout : Leaf → Doc
  | .charData run => .verbatim run.image
  | .cdata token | .comment token | .instruction token => .text token.image
  | .reference ref => .text ref.image

mutual
def Node.lay (job : Job) : Node → Laid Doc
  | .leaf l => ⟨l.layout, {}⟩
  | .element tag children => job.element tag children (Node.layElements job children)

/-- The fragments of the elements in a list of nodes. -/
def Node.layElements (job : Job) : List Node → Laid (List Fragment)
  | [] => ⟨[], {}⟩
  | node :: rest =>
      match node with
      | .leaf _ => Node.layElements job rest
      | .element tag children =>
          let first := job.element tag children (Node.layElements job children)
          let others := Node.layElements job rest
          ⟨.ofElement tag first.result :: others.result, first.report ++ others.report⟩
end

namespace Node

def layout (job : Job) (node : Node) : Doc := (node.lay job).result

def report (job : Job) (node : Node) : Report := (node.lay job).report

def elementFragments (job : Job) (nodes : List Node) : List Fragment := (layElements job nodes).result

def reportAll (job : Job) (nodes : List Node) : Report := (layElements job nodes).report

variable (job : Job) (tag : Tag) (children rest : List Node) (l : Leaf)

@[simp] theorem layout_leaf : (leaf l).layout job = l.layout := by rw [layout, lay]

@[simp] theorem layout_element :
    (element tag children).layout job = job.elementLayout tag children (elementFragments job children) := by
  rw [layout, lay, Job.element, elementFragments]

@[simp] theorem report_leaf : (leaf l).report job = {} := by rw [report, lay]

@[simp] theorem report_element :
    (element tag children).report job = job.elementReport tag children (reportAll job children) := by
  rw [report, lay, Job.element, reportAll]

@[simp] theorem elementFragments_nil : elementFragments job [] = [] := by rw [elementFragments, layElements]

@[simp] theorem elementFragments_leaf :
    elementFragments job (leaf l :: rest) = elementFragments job rest := by
  rw [elementFragments, layElements, elementFragments]

@[simp] theorem elementFragments_element :
    elementFragments job (element tag children :: rest) =
      .ofElement tag (job.elementLayout tag children (elementFragments job children)) ::
        elementFragments job rest := by
  rw [elementFragments, layElements, Job.element, elementFragments, elementFragments]

@[simp] theorem reportAll_nil : reportAll job [] = {} := by rw [reportAll, layElements]

@[simp] theorem reportAll_leaf : reportAll job (leaf l :: rest) = reportAll job rest := by
  rw [reportAll, layElements, reportAll]

/-- The report on the elements of a list goes on with each element that has a fragment. -/
@[simp] theorem reportAll_element :
    reportAll job (element tag children :: rest) =
      job.elementReport tag children (reportAll job children) ++ reportAll job rest := by
  rw [reportAll, layElements, Job.element, reportAll, reportAll]

end Node

end XmlTidy
