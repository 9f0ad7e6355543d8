import XmlTidy.Layout.Doc
import XmlTidy.Text.WordChar

/-!
Running text, cut into segments. Each line is an alternation of words and spaces that starts and ends
with a word: a space is a whole run of blanks between two word characters, and everything else is
part of a word. Newlines stand between the lines. Laid out, a space becomes a line that a fill may
break, and a newline stays where it is.
-/

namespace XmlTidy

inductive SegmentKind where
  | word
  | space
  | newline
deriving DecidableEq, Repr

structure Segment where
  kind : SegmentKind
  value : Text
deriving DecidableEq, Repr

/-- The blanks that a line can hold. -/
def isGap (c : Char) : Bool :=
  c == ' ' || c == '\t' || c == '\r'

/-! ### Breakable spaces -/

/-- Whether a word starts or ends between two characters, of which either may be missing at an end of the
text. -/
def isBoundary (before behind : Option Char) : Bool :=
  before.any isWordChar != behind.any isWordChar

/-- Behind a blank, the further blanks up to a boundary, and what follows. As many are taken as lead to a
boundary; fewer are tried only if more do not. -/
def furtherBlanks? (last : Char) : Text → Option (Text × Text)
  | [] => if isBoundary (some last) none then some ([], []) else none
  | c :: t =>
      let longer := if isGap c then furtherBlanks? c t else none
      match longer with
      | some (gap, rest) => some (c :: gap, rest)
      | none => if isBoundary (some last) (some c) then some ([], c :: t) else none

/-- A breakable space at the front of a text that stands behind a character: blanks with a boundary at either
end. What follows it comes second. -/
def spaceAt? (before : Option Char) : Text → Option (Text × Text)
  | [] => none
  | c :: t =>
      if isBoundary before (some c) && isGap c then
        (furtherBlanks? c t).map fun (gap, rest) => (c :: gap, rest)
      else none

theorem length_of_furtherBlanks? {last : Char} {t gap rest : Text} (h : furtherBlanks? last t = some (gap, rest)) :
    rest.length ≤ t.length := by
  induction t generalizing last gap with
  | nil =>
      rw [furtherBlanks?] at h
      split at h <;> cases h
      exact Nat.le_refl _
  | cons c t ih =>
      rw [furtherBlanks?] at h
      split at h
      · next gap' rest' hlonger =>
          cases h
          split at hlonger
          · exact Nat.le_succ_of_le (ih hlonger)
          · cases hlonger
      · split at h <;> cases h
        exact Nat.le_refl _

theorem length_of_spaceAt? {before : Option Char} {t gap rest : Text} (h : spaceAt? before t = some (gap, rest)) :
    rest.length < t.length := by
  cases t with
  | nil => cases h
  | cons c t =>
      rw [spaceAt?] at h
      split at h
      · obtain ⟨⟨gap', rest'⟩, hblanks, heq⟩ := Option.map_eq_some_iff.1 h
        cases heq
        exact Nat.lt_succ_of_le (length_of_furtherBlanks? hblanks)
      · cases h

/-- Cuts a line at its breakable spaces, from left to right: what stands in front of a space, the space, and so
on. `front` is what stands in front so far, in reverse, and `before` the character before the rest. -/
def splitSpaces (before : Option Char) (front : Text) (t : Text) : List Text :=
  match t with
  | [] => [front.reverse]
  | c :: t' =>
      match _h : spaceAt? before (c :: t') with
      | some (gap, rest) => front.reverse :: gap :: splitSpaces gap.getLast? [] rest
      | none => splitSpaces (some c) (c :: front) t'
termination_by t.length
decreasing_by
  · exact length_of_spaceAt? _h
  · exact Nat.lt_succ_self _

/-- The pieces in even places are words, and those in odd places spaces. -/
def Segment.ofPiece (i : Nat) (piece : Text) : Segment :=
  ⟨if i % 2 = 0 then .word else .space, piece⟩

/-- The segments of a line. -/
def lineSegments (l : Text) : List Segment :=
  (splitSpaces none [] l).mapIdx Segment.ofPiece

/-- The segments of a text. -/
def segments (t : Text) : List Segment :=
  [(⟨.newline, ['\n']⟩ : Segment)].intercalate (t.lines.map lineSegments)

/-! ### Layout -/

/-- One fill per line, with literal lines between them; `current` holds the parts of the line so far in
reverse. -/
def segmentFills (current : List Doc) : List Segment → List Doc
  | [] => [.fill current.reverse]
  | ⟨.newline, _⟩ :: rest => .fill current.reverse :: .literalLine :: segmentFills [] rest
  | ⟨.space, _⟩ :: rest => segmentFills (.spaceLine :: current) rest
  | ⟨.word, value⟩ :: rest => segmentFills (.text value :: current) rest

def segmentsLayout (segments : List Segment) : Doc :=
  .grouped (.concat (segmentFills [] segments))

end XmlTidy
