import XmlTidy.Layout.Doc
import XmlTidy.Markup.Node
import XmlTidy.Settings.Style

/-!
Printing attributes: requoting their values and putting them into a canonical order. The order has
`xmlns` first, then the names with a prefix, of which those prefixed with `xmlns` come first, then
the names without.
-/

namespace XmlTidy

/-- The literal between double quotes, with the double quotes inside it escaped. -/
def doubleQuoted (inner : Text) : Text :=
  '"' :: inner.replaceChar '"' ['&', 'q', 'u', 'o', 't', ';'] ++ ['"']

/-- The literal between single quotes, with the single quotes inside it escaped. -/
def singleQuoted (inner : Text) : Text :=
  '\'' :: inner.replaceChar '\'' ['&', 'a', 'p', 'o', 's', ';'] ++ ['\'']

/-- A literal in a style of quoting. -/
def requote (style : QuoteStyle) (literal : Text) : Text :=
  match style with
  | .preserve => literal
  | .double => doubleQuoted (Attribute.innerOf literal)
  | .single => singleQuoted (Attribute.innerOf literal)

def Attribute.layout (style : QuoteStyle) (a : Attribute) : Doc :=
  .concat [.text a.name, .text ['='], .text (requote style a.value)]

/-! ### Order -/

def namespaceName : Text := ['x', 'm', 'l', 'n', 's']

/-- The parts of a name before and after its first colon. -/
def splitPrefix? : Text → Option (Text × Text)
  | [] => none
  | c :: t =>
      if c = ':' then some ([], t)
      else (splitPrefix? t).map fun (before, after) => (c :: before, after)

/-- The order of two prefixes. -/
def comparePrefixes (p q : Text) : Ordering :=
  if p = q then .eq
  else if p = namespaceName then .lt
  else if q = namespaceName then .gt
  else p.compare q

def compareNames (a b : Text) : Ordering :=
  if a = b then .eq
  else if a = namespaceName then .lt
  else if b = namespaceName then .gt
  else
    match splitPrefix? a, splitPrefix? b with
    | some (p, x), some (q, y) => (comparePrefixes p q).then (x.compare y)
    | some _, none => .lt
    | none, some _ => .gt
    | none, none => a.compare b

/-- The attributes in canonical order; those of one name stay in their order. -/
def sortAttributes (attributes : List Attribute) : List Attribute :=
  attributes.mergeSort fun a b => (compareNames a.name b.name).isLE

end XmlTidy
