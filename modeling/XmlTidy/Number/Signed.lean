import XmlTidy.Number.Binary

/-!
Stored numbers with their sign, which zero has as well, together with infinity and with what is no number.
Products and quotients are stored, so that what is too large becomes infinite.
-/

namespace XmlTidy

/-- A stored number, infinity with a sign, or what is no number. -/
inductive Signed where
  | finite (negative : Bool) (size : Fraction)
  | infinite (negative : Bool)
  | nan
deriving DecidableEq, Repr

/-- Why a value gives no stored number: it is none, or it is an integer that is too large. -/
inductive NumberFault where
  | notNumber
  | tooLarge
deriving DecidableEq, Repr

namespace Signed

def zero : Signed := .finite false ⟨0, 1⟩

/-- The stored number nearest to a fraction with a sign. -/
def round (negative : Bool) (size : Fraction) : Signed :=
  match size.binary? with
  | some b => .finite negative b.fraction
  | none => .infinite negative

/-- A number taken so many times. -/
def scaled (factor : Nat) : Signed → Signed
  | .finite negative size => round negative (size.mul ⟨factor, 1⟩)
  | x => x

/-- The quotient by a number that is not zero. -/
def div : Signed → Signed → Signed
  | .finite a size, .finite b divisor => round (a != b) (size.div divisor)
  | .finite a _, .infinite b => .finite (a != b) ⟨0, 1⟩
  | .infinite a, .finite b _ => .infinite (a != b)
  | .infinite _, .infinite _ | .nan, _ | _, .nan => .nan

/-- A number with a fixed number of decimal places. -/
def fixed (places : Nat) : Signed → String
  | .finite negative size => (if negative then "-" else "") ++ size.fixed places
  | .infinite negative => if negative then "-inf" else "inf"
  | .nan => "nan"

end Signed

end XmlTidy
