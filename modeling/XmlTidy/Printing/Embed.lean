import XmlTidy.Json.Basic
import XmlTidy.Layout.Doc
import XmlTidy.Settings.Style

/-!
Embedded formatters: functions that lay out the text of elements with a given name, a stylesheet for
instance. A formatter may fail, and then the element is laid out as any other.
-/

namespace XmlTidy

/-- How an embedded formatter failed: the kind of failure and what it said. -/
structure EmbedFailure where
  kind : String
  message : String
deriving DecidableEq, Repr

abbrev Embedder := Style → Text → Except EmbedFailure Text

/-- Formatters by element name, in the order of their first registration. -/
abbrev Registry := Members Embedder

/-- Why a formatter cannot be registered. -/
inductive RegistryFault where
  | emptyName
  | notFormatter (name : String)
deriving DecidableEq, Repr

def RegistryFault.message : RegistryFault → String
  | .emptyName => "Embedder element name cannot be empty"
  | .notFormatter name => "Embedder for <" ++ name ++ "> must be callable"

namespace Registry

/-- Registers a formatter; `none` stands for a value that is not one. -/
def register (registry : Registry) (name : String) (embedder : Option Embedder) :
    Except RegistryFault Registry :=
  if name.isEmpty then .error .emptyName
  else
    match embedder with
    | none => .error (.notFormatter name)
    | some embedder => .ok (Members.insert name embedder registry)

/-- Removes a formatter, and says whether there was one. -/
def unregister (registry : Registry) (name : String) : Bool × Registry :=
  ((Members.find? registry name).isSome, Members.erase name registry)

end Registry

/-- The layout of what a formatter returned, unless it is blank. -/
def embeddedLayout? (formatted : Text) : Option Doc :=
  let body := Text.stripWhile (· == '\n') formatted
  if body.all Text.isWhiteSpace then none else some (.ofLines .hardLine body)

end XmlTidy
