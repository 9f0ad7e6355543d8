import XmlTidy.Text.Basic

/-!
What a formatter is told about printing markup: how attribute values are quoted, which whitespace
counts, and how tags are laid out.
-/

namespace XmlTidy

inductive QuoteStyle where
  | double
  | single
  | preserve
deriving DecidableEq, Repr

/-- How much of the whitespace inside elements counts: all of it, none of it, or that around text. -/
inductive Sensitivity where
  | strict
  | ignore
  | preserve
deriving DecidableEq, Repr

namespace QuoteStyle

def key : QuoteStyle → String
  | .double => "double"
  | .single => "single"
  | .preserve => "preserve"

def ofKey? (key : String) : Option QuoteStyle :=
  [QuoteStyle.double, .single, .preserve].find? (·.key == key)

end QuoteStyle

namespace Sensitivity

def key : Sensitivity → String
  | .strict => "strict"
  | .ignore => "ignore"
  | .preserve => "preserve"

/-- A second name of `ignore` is accepted. -/
def ofKey? (key : String) : Option Sensitivity :=
  if key = "ignorable" then some .ignore
  else [Sensitivity.strict, .ignore, .preserve].find? (·.key == key)

end Sensitivity

def defaultIgnoreStart : String := "<!-- prettier-ignore-start -->"

def defaultIgnoreEnd : String := "<!-- prettier-ignore-end -->"

/-- The comments `ignoreStart` and `ignoreEnd` delimit what is kept as written. -/
structure Style where
  quotes : QuoteStyle := .preserve
  sensitivity : Sensitivity := .strict
  sortAttributes : Bool := false
  oneAttributePerLine : Bool := false
  bracketSameLine : Bool := false
  selfClosingSpace : Bool := true
  ignoreStart : Text := defaultIgnoreStart.toList
  ignoreEnd : Text := defaultIgnoreEnd.toList
deriving DecidableEq, Repr

/-- The markers are told apart from each other and from nothing. -/
structure Style.Valid (style : Style) : Prop where
  start_ne_nil : style.ignoreStart ≠ []
  end_ne_nil : style.ignoreEnd ≠ []
  start_ne_end : style.ignoreStart ≠ style.ignoreEnd

end XmlTidy
