import XmlTidy.Printing.Element

/-!
The layout of documents: the top-level nodes in the order of their offsets, each on lines of its own,
and a line end behind the last. `Part` stands for whatever may be asked to be laid out by itself.
-/

namespace XmlTidy

def Prolog.layout (style : Style) (p : Prolog) : Doc :=
  let attributes :=
    if p.attributes.isEmpty then []
    else
      [Doc.indent (.concat
        [.spaceLine, .concat (Doc.join .spaceLine (p.attributes.map (·.layout style.quotes)))])]
  let space := if style.selfClosingSpace then Doc.spaceLine else Doc.softLine
  .grouped (.concat (.lit "<?xml" :: attributes ++ [space, .lit "?>"]))

def ExternalId.layout (e : ExternalId) : Doc :=
  let withLiteral (before : Doc) (literal : Text) : Doc :=
    .grouped (.concat [before, .indent (.concat [.spaceLine, .text literal])])
  match e.publicLiteral with
  | none => withLiteral (.text e.keyword) (e.systemLiteral.getD [])
  | some publicLiteral =>
      let publicPart := withLiteral (.text e.keyword) publicLiteral
      match e.systemLiteral with
      | none => publicPart
      | some systemLiteral => withLiteral publicPart systemLiteral

def Doctype.layout (d : Doctype) : Doc :=
  let externalId :=
    match d.externalId with
    | none => []
    | some e => [Doc.text [' '], e.layout]
  let subset :=
    match d.internalSubset with
    | none => []
    | some s => [Doc.text [' '], .verbatim s]
  .grouped (.concat
    ([.lit "<!DOCTYPE", .text [' '], .text d.name] ++ externalId ++ subset ++ [.text ['>']]))

namespace Document

/-- The top-level nodes with their offsets. -/
def located (job : Job) (d : Document) : List (Nat × Doc) :=
  (d.doctype.map fun decl => (decl.span.first, decl.layout)).toList ++
    (d.prolog.map fun p => (p.span.first, p.layout job.style)).toList ++
    d.misc.map (fun m => (m.span.first, .text m.image)) ++
    (d.root.map fun e => (e.tag.span.first, e.toNode.layout job)).toList

def layout (job : Job) (d : Document) : Doc :=
  .concat
    [.concat (Doc.join .hardLine ((sortedBy Prod.fst (d.located job)).map Prod.snd)), .hardLine]

def report (job : Job) (d : Document) : Report :=
  match d.root with
  | some e => e.toNode.report job
  | none => {}

end Document

/-! ### Parts -/

/-- Something that may be laid out by itself. `other` is anything else, under the name of its type. -/
inductive Part where
  | document (d : Document)
  | prolog (p : Prolog)
  | doctype (d : Doctype)
  | externalId (e : ExternalId)
  | misc (m : Misc)
  | element (e : Element)
  | content (c : Content)
  | attr (a : Attribute)
  | charData (c : CharData)
  | reference (r : Reference)
  | token (t : Token)
  | other (typeName : String)
deriving Repr

namespace Part

/-- The name under which messages speak of a part. -/
def typeName : Part → String
  | .document _ => "Document"
  | .prolog _ => "Prolog"
  | .doctype _ => "DocTypeDecl"
  | .externalId _ => "ExternalID"
  | .misc _ => "Misc"
  | .element _ => "Element"
  | .content _ => "Content"
  | .attr _ => "Attribute"
  | .charData _ => "CharData"
  | .reference _ => "Reference"
  | .token _ => "Token"
  | .other name => name

/-- The layout of a part; there is none for anything else. -/
def layout? (job : Job) : Part → Option Doc
  | .document d => some (d.layout job)
  | .prolog p => some (p.layout job.style)
  | .doctype d => some d.layout
  | .externalId e => some e.layout
  | .misc m => some (.text m.image)
  | .element e => some (e.toNode.layout job)
  | .content c => some (job.contentLayout c (Node.elementFragments job c.children))
  | .attr a => some (a.layout job.style.quotes)
  | .charData c => some (.verbatim c.image)
  | .reference r => some (.text r.image)
  | .token t => some (.text t.image)
  | .other _ => none

def report (job : Job) : Part → Report
  | .document d => d.report job
  | .element e => e.toNode.report job
  | .content c => job.contentReport true c (Node.reportAll job c.children)
  | _ => {}

end Part

/-- What is said of something that has no layout. -/
def unknownNodeMessage (typeName context : String) : String :=
  let message := "Unknown node type: " ++ typeName
  if context.isEmpty then message else message ++ " (" ++ context ++ ")"

end XmlTidy
