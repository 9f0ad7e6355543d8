import XmlTidy.Number.Binary

/-!
Measures: numbers that columns are counted in. They are integers as long as only integers go into them, and
stored numbers otherwise; then every sum and every difference is the stored number nearest to the
exact one. An integer that is too large to be stored cannot be combined with a stored number.
-/

namespace XmlTidy

/-- The number `num * 2 ^ exponent`, infinity with a sign, or what is no number. -/
inductive Stored where
  | finite (num exponent : Int)
  | infinite (negative : Bool)
  | nan
deriving DecidableEq, Repr

namespace Stored

/-- The stored number nearest to `num * 2 ^ exponent`, if that is not too large. -/
def round? (num exponent : Int) : Option Stored :=
  (Fraction.shift ⟨num.natAbs, 1⟩ exponent).binary?.map fun b =>
    .finite (if num < 0 then -(b.mantissa : Int) else b.mantissa) b.exponent

def round (num exponent : Int) : Stored := (round? num exponent).getD (.infinite (num < 0))

/-- A numerator for a smaller exponent. -/
def lower (num exponent least : Int) : Int := num * Nat.pow 2 (exponent - least).toNat

def add : Stored → Stored → Stored
  | .finite m e, .finite n f =>
      let least := min e f
      round (lower m e least + lower n f least) least
  | .infinite a, .infinite b => if a = b then .infinite a else .nan
  | .infinite a, .finite .. | .finite .., .infinite a => .infinite a
  | .nan, _ | _, .nan => .nan

def neg : Stored → Stored
  | .finite m e => .finite (-m) e
  | .infinite a => .infinite !a
  | .nan => .nan

/-- The order of stored numbers. What is no number stands in no relation. -/
def le : Stored → Stored → Bool
  | .finite m e, .finite n f => lower m e (min e f) ≤ lower n f (min e f)
  | .infinite a, .infinite b => a || !b
  | .infinite a, .finite .. => a
  | .finite .., .infinite b => !b
  | .nan, _ | _, .nan => false

end Stored

inductive Measure where
  | whole (n : Int)
  | real (x : Stored)
deriving DecidableEq, Repr

namespace Measure

/-- A measure as a stored number, if it can be one. -/
def stored? : Measure → Option Stored
  | .whole n => Stored.round? n 0
  | .real x => some x

def add? : Measure → Measure → Option Measure
  | .whole m, .whole n => some (.whole (m + n))
  | a, b => do return .real ((← a.stored?).add (← b.stored?))

def sub? : Measure → Measure → Option Measure
  | .whole m, .whole n => some (.whole (m - n))
  | a, b => do return .real ((← a.stored?).add (← b.stored?).neg)

/-- Measures are compared exactly. -/
def le : Measure → Measure → Bool
  | .whole m, .whole n => m ≤ n
  | .whole m, .real y => Stored.le (.finite m 0) y
  | .real x, .whole n => x.le (.finite n 0)
  | .real x, .real y => x.le y

instance : NatCast Measure := ⟨fun n => .whole n⟩

instance : OfNat Measure 0 := ⟨.whole 0⟩

/-- Sums that cannot be told are no numbers. Widths of texts never lead to one. -/
instance : Add Measure := ⟨fun a b => (a.add? b).getD (.real .nan)⟩

instance : Sub Measure := ⟨fun a b => (a.sub? b).getD (.real .nan)⟩

instance : LE Measure := ⟨fun a b => a.le b = true⟩

instance : DecidableLE Measure := fun a b => inferInstanceAs (Decidable (a.le b = true))

/-- A measure taken so many times, added up one by one. -/
def times (unit : Measure) : Nat → Measure
  | 0 => 0
  | n + 1 => unit.times n + unit

/-- A measure taken up to so many times, each sum built on the one before it. -/
def multiples (unit : Measure) : Nat → Array Measure
  | 0 => #[0]
  | n + 1 =>
      let sums := unit.multiples n
      sums.push (sums.back?.getD 0 + unit)

theorem multiples_eq (unit : Measure) (n : Nat) :
    unit.multiples n = ((List.range (n + 1)).map unit.times).toArray := by
  induction n with
  | zero => rfl
  | succ n ih =>
      have last : (unit.multiples n).back? = some (unit.times n) := by
        rw [ih, List.range_succ]
        simp
      rw [List.range_succ, List.map_append, multiples, last, ih]
      simp [times]

/-- Looking up a multiple that may be among those at hand gives what adding up gives. -/
theorem getD_multiples (unit : Measure) (n count : Nat) :
    (unit.multiples n)[count]?.getD (unit.times count) = unit.times count := by
  rw [multiples_eq, List.getElem?_toArray, List.getElem?_map]
  by_cases h : count < n + 1
  · rw [List.getElem?_range h]
    rfl
  · rw [List.getElem?_eq_none (by rw [List.length_range]; omega)]
    rfl

end Measure

end XmlTidy
