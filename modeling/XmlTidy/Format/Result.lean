import XmlTidy.Number.Signed
import XmlTidy.Printing.Report

/-!
The result of formatting a text: the new text, what was counted, and what was remarked. Times are in
milliseconds.
-/

namespace XmlTidy

namespace Scalar

/-- A scalar as a stored number. Truth values count as zero and one. -/
def signed : Scalar → Except NumberFault Signed
  | .null | .halved _ => .error .notNumber
  | .bool b => .ok (.finite false ⟨if b then 1 else 0, 1⟩)
  | .int n =>
      match Fraction.binary? ⟨n.natAbs, 1⟩ with
      | some b => .ok (.finite (n < 0) b.fraction)
      | none => .error .tooLarge
  | .real negative size =>
      match size.binary? with
      | some b => .ok (.finite negative b.fraction)
      | none => .ok (.infinite negative)
  | .infinite negative => .ok (.infinite negative)
  | .nan => .ok .nan

/-- Whether a scalar is a number that does not exceed zero. -/
def isSpent : Scalar → Except NumberFault Bool
  | .null | .halved _ => .error .notNumber
  | .int n => .ok (n ≤ 0)
  | s => do
      match ← s.signed with
      | .finite negative size => return negative || size.num = 0
      | .infinite negative => return negative
      | .nan => return false

end Scalar

structure Metrics where
  time : Scalar := .int 0
  characters : Int := 0
  elements : Int := 0
  fragments : Int := 0
  ranges : Int := 0
deriving Repr

/-- Characters per second. The rate is zero if no time passed. -/
def Metrics.rate (m : Metrics) : Except NumberFault Signed := do
  if ← m.time.isSpent then return .zero
  let characters ← (Scalar.int m.characters).signed
  return (characters.scaled 1000).div (← m.time.signed)

/-- What a report counted in a text of so many characters. -/
def Report.metrics (r : Report) (characters : Nat) : Metrics where
  characters := characters
  elements := r.elements
  fragments := r.fragments
  ranges := r.ranges

structure Result where
  formatted : Text
  input : Text
  diagnostics : List Diagnostic := []
  notices : List Notice := []
  metrics : Metrics := {}
  correlationId : Option String := none
deriving Repr

namespace Result

/-- Whether formatting changed the text. -/
def changed (r : Result) : Bool := r.formatted != r.input

/-- Adds a remark, which gets the correlation id of the result. -/
def add (r : Result) (d : Diagnostic) : Except DiagnosticFault Result := do
  let d ← Diagnostic.make { d with correlationId := r.correlationId }
  return { r with diagnostics := r.diagnostics ++ [d] }

/-- The remarks of a severity. -/
def ofSeverity (r : Result) (severity : Severity) : List Diagnostic :=
  r.diagnostics.filter (·.severity = severity)

end Result

/-- How many texts were formatted, and how many of them changed. -/
structure Tally where
  total : Nat := 0
  changed : Nat := 0
deriving DecidableEq, Repr

def Tally.count (tally : Tally) (r : Result) : Tally where
  total := tally.total + 1
  changed := if r.changed then tally.changed + 1 else tally.changed

end XmlTidy
