import XmlTidy.Order.Bisection
import XmlTidy.Text.Basic

/-!
Where things stand in a text. A position is a line and a column, both counted from one; a span runs
from the offset of its first character to the offset of its last. `Source` keeps the offsets at which
the lines of a text start, so that a position is found by bisection and the text is not walked again;
what it finds is what walking the text would count.
-/

namespace XmlTidy

structure Position where
  line : Nat
  column : Int
deriving DecidableEq, Repr

namespace Position

def origin : Position := ⟨1, 1⟩

/-- The position after a character. -/
def next (p : Position) (c : Char) : Position :=
  if c = '\n' then ⟨p.line + 1, 1⟩ else ⟨p.line, p.column + 1⟩

/-- The position of an offset of a text: that after all characters before it. -/
def of (t : Text) (offset : Nat) : Position :=
  (t.take offset).foldl next origin

end Position

/-- The offsets of the first and the last character, and their positions. An empty span has
`last = first - 1` and the position of `first` at both ends. -/
structure Span where
  first : Nat
  last : Int
  start : Position
  stop : Position
deriving DecidableEq, Repr

/-- Why six numbers are no span, or a run of character data has no class. -/
inductive NodeFault where
  | lineNumber
  | offset
  | characterClass
deriving DecidableEq, Repr

def NodeFault.message : NodeFault → String
  | .lineNumber => "Line numbers must be >= 1"
  | .offset => "Offset must be >= 0"
  | .characterClass => "CharData needs exactly one of text or whitespace"

/-- The span with the given numbers. Lines are counted from one and offsets from zero. -/
def Span.ofNumbers (first last startLine startColumn endLine endColumn : Int) :
    Except NodeFault Span :=
  if startLine < 1 ∨ endLine < 1 then .error .lineNumber
  else if first < 0 then .error .offset
  else .ok ⟨first.toNat, last, ⟨startLine.toNat, startColumn⟩, ⟨endLine.toNat, endColumn⟩⟩

/-- A text with the offsets at which its lines start. -/
structure Source where
  text : Text
  lineStarts : Array Nat

namespace Source

/-- The offsets behind the newlines of a text that stands at an offset. -/
def newlineEnds (offset : Nat) : Text → List Nat
  | [] => []
  | c :: t => if c = '\n' then (offset + 1) :: newlineEnds (offset + 1) t else newlineEnds (offset + 1) t

def ofText (t : Text) : Source :=
  ⟨t, (0 :: newlineEnds 0 t).toArray⟩

/-- The line and the column of an offset, by the last line that starts in front of it or at it. -/
def position (src : Source) (offset : Nat) : Position :=
  let index := bisectRight src.lineStarts offset - 1
  ⟨index + 1, (offset : Int) - src.lineStarts.getD index 0 + 1⟩

/-- The span of the characters from `first` up to but not including `stop`. -/
def span (src : Source) (first stop : Nat) : Span :=
  ⟨first, (stop : Int) - 1, src.position first, src.position (max (stop - 1) first)⟩

/-! ### The table of line starts -/

theorem lt_of_mem_newlineEnds {t : Text} {offset stop : Nat} (h : stop ∈ newlineEnds offset t) : offset < stop := by
  induction t generalizing offset with
  | nil => cases h
  | cons c t ih =>
      rw [newlineEnds] at h
      split at h
      · rcases List.mem_cons.1 h with rfl | h
        · exact Nat.lt_succ_self offset
        · exact Nat.lt_of_succ_lt (ih h)
      · exact Nat.lt_of_succ_lt (ih h)

/-- Lines start in the order of the text. -/
theorem pairwise_newlineEnds (offset : Nat) (t : Text) : (newlineEnds offset t).Pairwise (· < ·) := by
  induction t generalizing offset with
  | nil => exact List.Pairwise.nil
  | cons c t ih =>
      rw [newlineEnds]
      split
      · exact List.pairwise_cons.2 ⟨fun _ h => lt_of_mem_newlineEnds h, ih _⟩
      · exact ih _

/-- The newlines that end in front of an offset or at it are those of the text up to there. -/
theorem filter_newlineEnds (offset n : Nat) (t : Text) :
    (newlineEnds offset t).filter (fun stop => !decide (offset + n < stop)) = newlineEnds offset (t.take n) := by
  induction t generalizing offset n with
  | nil => rw [List.take_nil, newlineEnds, List.filter_nil]
  | cons c t ih =>
      cases n with
      | zero =>
          rw [List.take_zero, newlineEnds.eq_1]
          refine List.filter_eq_nil_iff.2 fun stop h => ?_
          simpa using lt_of_mem_newlineEnds h
      | succ n =>
          have hsum : offset + (n + 1) = offset + 1 + n := by omega
          have hfirst : (!decide (offset + 1 + n < offset + 1)) = true := by
            rw [Bool.not_eq_true', decide_eq_false_iff_not]
            omega
          rw [List.take_succ_cons, newlineEnds, newlineEnds, hsum]
          split
          · rw [List.filter_cons, if_pos hfirst, ih]
          · exact ih (offset + 1) n

/-- Walking a text that goes on with a line: each newline counts for a line, and the last one starts it. -/
theorem foldl_next_eq (t : Text) (line offset start : Nat) :
    t.foldl Position.next ⟨line, (offset : Int) - start + 1⟩ =
      ⟨line + (newlineEnds offset t).length,
        ((offset + t.length : Nat) : Int) - (newlineEnds offset t).getLastD start + 1⟩ := by
  induction t generalizing line offset start with
  | nil => rfl
  | cons c t ih =>
      rw [List.foldl_cons, Position.next, newlineEnds]
      split
      · have hnext : (⟨line + 1, 1⟩ : Position) = ⟨line + 1, ((offset + 1 : Nat) : Int) - (offset + 1 : Nat) + 1⟩ := by
          rw [Int.sub_self, Int.zero_add]
        show t.foldl Position.next ⟨line + 1, 1⟩ = _
        rw [hnext, ih, List.length_cons, List.getLastD_cons, List.length_cons]
        congr 1 <;> omega
      · have hnext : (offset : Int) - start + 1 + 1 = ((offset + 1 : Nat) : Int) - start + 1 := by omega
        rw [hnext, ih, List.length_cons]
        congr 1
        omega

/-- Bisection splits the line starts at an offset. -/
theorem splitsAt_bisectRight (t : Text) (offset : Nat) :
    SplitsAt (fun start => !decide (offset < start)) (0 :: newlineEnds 0 t)
      (bisectRight (ofText t).lineStarts offset) := by
  refine splitsAt_bisect ?_
  refine (List.pairwise_cons.2 ⟨fun _ h => lt_of_mem_newlineEnds h, pairwise_newlineEnds 0 t⟩).imp ?_
  intro a b hab hb
  simp only [Bool.not_eq_true', decide_eq_false_iff_not] at hb ⊢
  omega

/-- In front of the place that is found stand the line starts of the text up to the offset. -/
theorem take_bisectRight (t : Text) (offset : Nat) :
    (0 :: newlineEnds 0 t).take (bisectRight (ofText t).lineStarts offset) =
      0 :: newlineEnds 0 (t.take offset) := by
  have hfilter := filter_newlineEnds 0 offset t
  rw [Nat.zero_add] at hfilter
  rw [← (splitsAt_bisectRight t offset).filter_eq, List.filter_cons_of_pos (by simp), hfilter]

/-- Looking a position up agrees with walking the text. -/
theorem position_ofText {t : Text} {offset : Nat} (h : offset ≤ t.length) :
    (ofText t).position offset = .of t offset := by
  have htake := take_bisectRight t offset
  have hplace : bisectRight (ofText t).lineStarts offset = (newlineEnds 0 (t.take offset)).length + 1 := by
    have hlength := congrArg List.length htake
    rwa [List.length_take_of_le (splitsAt_bisectRight t offset).le, List.length_cons] at hlength
  -- the last line that starts in front of the offset or at it is the last in front of the place
  have hlast : (ofText t).lineStarts.getD (newlineEnds 0 (t.take offset)).length 0 =
      (newlineEnds 0 (t.take offset)).getLastD 0 := by
    rw [hplace] at htake
    rw [Array.getD_eq_getD_getElem?, ofText, List.getElem?_toArray,
      ← List.getElem?_take_of_lt (Nat.lt_succ_self _), htake, List.getLastD_eq_getLast?, List.getLast?_eq_getElem?]
    cases newlineEnds 0 (t.take offset) with
    | nil => rfl
    | cons stop stops => simp
  have hwalk := foldl_next_eq (t.take offset) 1 0 0
  rw [List.length_take_of_le h, Nat.zero_add] at hwalk
  rw [position, hplace, Nat.add_sub_cancel, hlast, Position.of, Position.origin]
  show _ = (t.take offset).foldl Position.next ⟨1, ((0 : Nat) : Int) - (0 : Nat) + 1⟩
  rw [hwalk, Nat.add_comm]

end Source

end XmlTidy
