import XmlTidy.Markup.Span

/-!
The ways in which a text fails to be a document. A fault is the cause; `SyntaxError` says in
addition where it was met.
-/

namespace XmlTidy

inductive Fault where
  | unterminatedComment
  | unterminatedSection
  | unterminatedInstruction
  | missingTarget
  | misplacedDeclaration
  | unterminatedDeclaration
  | missingBlankInDeclaration
  | unexpectedDoctype
  | missingBlankAfterDoctype
  | missingDoctypeName
  | missingBlankAfterKeyword (keyword : Text)
  | missingPublicIdentifier
  | missingSystemLiteral
  | unterminatedSubsetLiteral
  | unterminatedSubset
  | unclosedDoctype
  | missingAttributeName
  | missingEquals
  | missingValue (name : Text)
  | missingElementName
  | unterminatedStartTag (name : Text)
  | missingBlankBeforeAttribute
  | unclosedElement (name : Text)
  | unexpectedDeclaration
  | malformedReference
  | missingEndName
  | mismatchedEndTag (expected found : Text)
  | unclosedEndTag
  | secondRoot
  | textOutsideRoot
deriving DecidableEq, Repr

def Fault.reason : Fault → String
  | .unterminatedComment => "Unterminated comment"
  | .unterminatedSection => "Unterminated CDATA section"
  | .unterminatedInstruction => "Unterminated processing instruction"
  | .missingTarget => "Expected processing instruction target"
  | .misplacedDeclaration => "XML declaration is only allowed at the start"
  | .unterminatedDeclaration => "Unterminated XML declaration"
  | .missingBlankInDeclaration => "Expected whitespace in XML declaration"
  | .unexpectedDoctype => "Unexpected DOCTYPE declaration"
  | .missingBlankAfterDoctype => "Expected whitespace after DOCTYPE"
  | .missingDoctypeName => "Expected doctype name"
  | .missingBlankAfterKeyword keyword => "Expected whitespace after " ++ String.ofList keyword
  | .missingPublicIdentifier => "Expected public identifier"
  | .missingSystemLiteral => "Expected system literal"
  | .unterminatedSubsetLiteral => "Unterminated literal in internal subset"
  | .unterminatedSubset => "Unterminated DOCTYPE internal subset"
  | .unclosedDoctype => "Expected '>' to close DOCTYPE"
  | .missingAttributeName => "Expected attribute name"
  | .missingEquals => "Expected '=' after attribute name"
  | .missingValue name => "Expected quoted value for attribute '" ++ String.ofList name ++ "'"
  | .missingElementName => "Expected element name"
  | .unterminatedStartTag name => "Unterminated start tag <" ++ String.ofList name ++ ">"
  | .missingBlankBeforeAttribute => "Expected whitespace before attribute"
  | .unclosedElement name => "Unclosed element <" ++ String.ofList name ++ ">"
  | .unexpectedDeclaration => "Unexpected markup declaration in content"
  | .malformedReference => "Malformed character or entity reference"
  | .missingEndName => "Expected end tag name"
  | .mismatchedEndTag expected found =>
      "Mismatched end tag: expected </" ++ String.ofList expected ++ ">, found </" ++
        String.ofList found ++ ">"
  | .unclosedEndTag => "Expected '>' to close end tag"
  | .secondRoot => "Only one root element is allowed"
  | .textOutsideRoot => "Unexpected text outside of the root element"

/-- A fault and the offset at which it is reported. -/
structure Failure where
  fault : Fault
  offset : Nat
deriving DecidableEq, Repr

/-- A reason with the place it belongs to. -/
def locatedMessage (reason : String) (line column : Int) : String :=
  reason ++ " (line " ++ toString line ++ ", column " ++ toString column ++ ")"

structure SyntaxError where
  fault : Fault
  position : Position
  offset : Nat
deriving DecidableEq, Repr

namespace SyntaxError

/-- An offset at the end of the text is placed on the last character. -/
def ofFailure (src : Source) (f : Failure) : SyntaxError :=
  ⟨f.fault, src.position (min f.offset (src.text.length - 1)), f.offset⟩

def reason (e : SyntaxError) : String :=
  e.fault.reason

def message (e : SyntaxError) : String :=
  locatedMessage e.reason e.position.line e.position.column

end SyntaxError

end XmlTidy
