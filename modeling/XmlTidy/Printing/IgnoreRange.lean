import XmlTidy.Order.Bisection
import XmlTidy.Printing.Fragment

/-!
Ignore ranges: what stands between a start marker and the next end marker among the comments of one
content, markers included, is printed as it was written.
-/

namespace XmlTidy

/-- The offsets of the first and the last character, and the lines they stand on. -/
structure IgnoreRange where
  first : Int
  last : Int
  startLine : Int
  endLine : Int
deriving DecidableEq, Repr

/-- The comments that mark the start and the end of a range. -/
structure Markers where
  start : Text
  stop : Text
deriving DecidableEq, Repr

def Style.markers (style : Style) : Markers :=
  ⟨style.ignoreStart, style.ignoreEnd⟩

namespace IgnoreRange

def contains (r : IgnoreRange) (offset : Int) : Bool :=
  r.first ≤ offset && offset ≤ r.last

def between (start stop : Token) : IgnoreRange :=
  ⟨start.span.first, stop.span.last, start.span.start.line, stop.span.stop.line⟩

def sortTokens (comments : List Token) : List Token :=
  sortedBy (fun token => token.span.first) comments

/-- Pairs the markers among comments in order. A start marker waits in `pending` for an end marker, and a
later start marker takes its place. -/
def pair (markers : Markers) (pending : Option Token) : List Token → List IgnoreRange × Option Token
  | [] => ([], pending)
  | comment :: rest =>
      if comment.image = markers.start then pair markers (some comment) rest
      else if comment.image = markers.stop then
        match pending with
        | some start =>
            let (ranges, unpaired) := pair markers none rest
            (between start comment :: ranges, unpaired)
        | none => pair markers none rest
      else pair markers pending rest

/-- The ranges among comments in the order of their offsets, and the start marker left without an end. -/
def scan (markers : Markers) (comments : List Token) : List IgnoreRange × Option Token :=
  pair markers none (sortTokens comments)

/-- Whether a start marker is followed by an end marker. -/
def existsIn (markers : Markers) (started : Bool) : List Token → Bool
  | [] => false
  | comment :: rest =>
      if comment.image = markers.start then existsIn markers true rest
      else if comment.image = markers.stop && started then true
      else existsIn markers started rest

def existsAmong (markers : Markers) (comments : List Token) : Bool :=
  existsIn markers false (sortTokens comments)

/-! ### Splicing -/

/-- The range as a fragment of its own. -/
def fragment (source : Text) (r : IgnoreRange) : Fragment where
  kind := .verbatim
  offset := r.first
  printed := .verbatim (source.slice r.first (r.last + 1))
  startLine := r.startLine
  endLine := r.endLine

/-- Fragments, and their offsets side by side with them. -/
structure Spliced where
  fragments : List Fragment
  offsets : Array Int

namespace Spliced

def ofFragments (fragments : List Fragment) : Spliced :=
  ⟨fragments, (fragments.map Fragment.offset).toArray⟩

/-- Inserts a fragment, and its offset, in front of those that do not start before it. -/
def insert (s : Spliced) (f : Fragment) : Spliced :=
  let place := bisectLeft s.offsets f.offset
  ⟨s.fragments.insertIdx place f, s.offsets.insertIdxIfInBounds place f.offset⟩

end Spliced

/-- The fragments that splicing leaves in place. -/
def kept (ranges : List IgnoreRange) (fragments : List Fragment) : List Fragment :=
  fragments.filter fun f => !f.isBlank && !ranges.any (·.contains f.offset)

/-- Puts each range in the place of the fragments that start inside it. If there is a range, blanks
that are only hints are left out. -/
def splice (source : Text) (ranges : List IgnoreRange) (fragments : List Fragment) :
    List Fragment :=
  if ranges.isEmpty then fragments
  else
    ((ranges.map (fragment source)).foldl Spliced.insert
      (.ofFragments (kept ranges fragments))).fragments

end IgnoreRange

/-- Whether the whitespace inside an element may be dropped and reflowed. It counts under the strict
sensitivity, in `xsl:text`, under an `xml:space` other than `default`, and around an ignore range. -/
def isReflowable (style : Style) (name : Text) (attributes : List Attribute)
    (comments : List Token) : Bool :=
  style.sensitivity ≠ .strict &&
    name ≠ "xsl:text".toList &&
    !(attributes.any fun a => a.name = "xml:space".toList && a.inner ≠ "default".toList) &&
    !IgnoreRange.existsAmong style.markers comments

end XmlTidy
