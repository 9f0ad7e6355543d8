import XmlTidy.Json.Basic
import XmlTidy.Markup.Span

/-!
What is told about a formatting pass: counts, diagnostics and log lines. Reports add up, in the order in
which things were done.
-/

namespace XmlTidy

inductive Severity where
  | debug
  | info
  | warning
  | error
deriving DecidableEq, Repr

namespace Severity

def key : Severity → String
  | .debug => "DEBUG"
  | .info => "INFO"
  | .warning => "WARNING"
  | .error => "ERROR"

def ofKey? (key : String) : Option Severity :=
  [Severity.debug, .info, .warning, .error].find? (·.key == key)

end Severity

/-- A remark on a pass. The position and the details are objects, or null. -/
structure Diagnostic where
  severity : Severity
  message : String
  component : String
  position : Json
  details : Json
  correlationId : Option String
deriving Repr, BEq

/-- Why a remark cannot be made. -/
inductive DiagnosticFault where
  | emptyMessage
  | emptyComponent
deriving DecidableEq, Repr

def DiagnosticFault.message : DiagnosticFault → String
  | .emptyMessage => "Diagnostic message cannot be empty"
  | .emptyComponent => "Diagnostic component cannot be empty"

/-- A remark says something, and says who makes it. -/
def Diagnostic.make (d : Diagnostic) : Except DiagnosticFault Diagnostic :=
  if d.message.isEmpty then .error .emptyMessage
  else if d.component.isEmpty then .error .emptyComponent
  else .ok d

/-- A position as the object that diagnostics carry. -/
def Position.toJson (p : Position) : Json :=
  .obj [("line", .int p.line), ("column", .int p.column)]

/-- What may be logged while formatting. -/
inductive Notice where
  | syntaxError
  | parsedDocument
  | splicingRanges
  | embedderFailed
  | formattingFile
  | formattedDocument
  | pathNotFound
  | fileFailed
deriving DecidableEq, Repr

structure Report where
  elements : Nat := 0
  fragments : Nat := 0
  ranges : Nat := 0
  diagnostics : List Diagnostic := []
  notices : List Notice := []
deriving Repr

namespace Report

/-- One report behind another. -/
def append (r s : Report) : Report where
  elements := r.elements + s.elements
  fragments := r.fragments + s.fragments
  ranges := r.ranges + s.ranges
  diagnostics := r.diagnostics ++ s.diagnostics
  notices := r.notices ++ s.notices

instance : Append Report := ⟨append⟩

end Report

end XmlTidy
