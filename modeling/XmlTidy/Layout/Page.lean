import XmlTidy.Text.Basic

/-!
The page that a document is laid out for: the width that lines should keep to, what one level of
indentation is, and how a line ends.
-/

namespace XmlTidy

inductive LineEnd where
  | lf
  | crlf
  | cr
deriving DecidableEq, Repr

def LineEnd.image : LineEnd → Text
  | .lf => ['\n']
  | .crlf => ['\r', '\n']
  | .cr => ['\r']

structure Page where
  width : Nat := 80
  tabWidth : Nat := 2
  useTabs : Bool := false
  lineEnd : LineEnd := .lf
  width_pos : 0 < width := by decide
  tabWidth_pos : 0 < tabWidth := by decide
deriving DecidableEq, Repr

/-- How lines are measured and indented. `left` tells the columns that are left on a line behind a
column, if they can be told, and `start` the column at which the text of a line at a depth of indentation
starts. -/
structure Ruler (α : Type) where
  left : α → Option α
  start : Nat → α
  indentation : Nat → Text

/-- The blanks at the start of a line at a depth of indentation, one tab or `tabWidth` spaces for each
level. -/
def blanks (useTabs : Bool) (tabWidth depth : Nat) : Text :=
  if useTabs then List.replicate depth '\t' else List.replicate (depth * tabWidth) ' '

namespace Page

def indentation (page : Page) (depth : Nat) : Text := blanks page.useTabs page.tabWidth depth

/-- On a page columns are counted, and each level of indentation takes `tabWidth` of them. -/
def ruler (page : Page) : Ruler Int where
  left column := some (page.width - column)
  start depth := depth * page.tabWidth
  indentation := page.indentation

end Page

end XmlTidy
