import XmlTidy.Format.Result
import XmlTidy.Markup.Read
import XmlTidy.Printing.Document
import XmlTidy.Settings.Page

/-!
Formatting a text: it is read as a document, the document is laid out, and the layout is printed for the
page of the profile. A byte order mark in front of the text is kept in front of the result.
-/

namespace XmlTidy

/-- Why a text cannot be formatted. -/
inductive FormatFault where
  | malformed (error : SyntaxError)
  | print (fault : PrintFault)
deriving DecidableEq, Repr

structure Formatter where
  profile : Profile := {}
  correlationId : Option String := none
  embedders : Registry := []

namespace Formatter

/-- A formatter for a profile that lines can be indented for, where there is room for so many blanks. -/
def make (profile : Profile) (correlationId : Option String) (embedders : Registry)
    (room : Int := Profile.countableBlanks) : Except PageFault Formatter := do
  profile.checkIndentation room
  return { profile, correlationId, embedders }

/-- What laying out the document of a source needs to know. -/
def job (formatter : Formatter) (source : Text) : Job where
  style := formatter.profile.style
  source := source
  embedders := formatter.embedders
  correlationId := formatter.correlationId

/-- The document of a text. -/
def read (t : Text) : Except SyntaxError Document := Document.read t.normalize

/-- The layout of a text, not yet printed. -/
def layout (formatter : Formatter) (t : Text) : Except SyntaxError Doc := do
  let d ← read t
  return d.layout (formatter.job t.normalize)

/-- The result with a byte order mark if the text had one. -/
def marked (t result : Text) : Text :=
  if t.hasMark then Text.byteOrderMark :: result else result

def format (formatter : Formatter) (t : Text) : Except FormatFault Result := do
  let job := formatter.job t.normalize
  let d ← (read t).mapError .malformed
  let printed ← (formatter.profile.print (d.layout job)).mapError .print
  let report := d.report job
  return {
    formatted := marked t printed
    input := t
    diagnostics := report.diagnostics
    notices := .parsedDocument :: report.notices ++ [.formattedDocument]
    metrics := report.metrics t.length
    correlationId := formatter.correlationId }

/-- Whether a text is formatted already. -/
def isFormatted (formatter : Formatter) (t : Text) : Except FormatFault Bool := do
  let r ← formatter.format t
  return !r.changed

end Formatter

end XmlTidy
