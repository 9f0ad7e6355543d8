/-!
Fractions and decimals. A fraction is cut down to a number of decimal places when it is shown, and what
lies halfway goes to the even neighbour.
-/

namespace XmlTidy

/-- The integer nearest to a fraction of natural numbers; a half goes to the even neighbour. -/
def roundDiv (num den : Nat) : Nat :=
  let quotient := num / den
  let twice := 2 * (num % den)
  if twice < den then quotient
  else if den < twice then quotient + 1
  else quotient + quotient % 2

/-- A fraction of natural numbers, not necessarily in lowest terms. -/
structure Fraction where
  num : Nat
  den : Nat
deriving DecidableEq, Repr

namespace Fraction

/-- The number `mantissa * 10 ^ exponent`. -/
def ofDecimal (mantissa : Nat) (exponent : Int) : Fraction :=
  match exponent with
  | .ofNat e => ⟨mantissa * Nat.pow 10 e, 1⟩
  | .negSucc e => ⟨mantissa, Nat.pow 10 (e + 1)⟩

/-- The fraction times a power of two. -/
def shift (f : Fraction) : Int → Fraction
  | .ofNat e => ⟨f.num * Nat.pow 2 e, f.den⟩
  | .negSucc e => ⟨f.num, f.den * Nat.pow 2 (e + 1)⟩

def mul (f g : Fraction) : Fraction := ⟨f.num * g.num, f.den * g.den⟩

def div (f g : Fraction) : Fraction := ⟨f.num * g.den, f.den * g.num⟩

/-- The fraction with a fixed number of decimal places. -/
def fixed (places : Nat) (f : Fraction) : String :=
  let unit := Nat.pow 10 places
  let scaled := roundDiv (f.num * unit) f.den
  let digits := Nat.toDigits 10 (scaled % unit)
  toString (scaled / unit) ++ "." ++
    String.ofList (List.replicate (places - digits.length) '0' ++ digits)

def le (f g : Fraction) : Bool := f.num * g.den ≤ g.num * f.den

/-- How many decimal digits stand before the point. For fractions below one tenth it is the number of
zeros behind the point, counted negatively. -/
def places (f : Fraction) : Int :=
  let guess : Int := (Nat.toDigits 10 f.num).length - (Nat.toDigits 10 f.den).length
  if (Fraction.ofDecimal 1 guess).le f then guess + 1 else guess

end Fraction

/-- The number `digits * 10 ^ exponent`. -/
structure Decimal where
  digits : Nat
  exponent : Int
deriving DecidableEq, Repr

namespace Decimal

def fraction (d : Decimal) : Fraction := Fraction.ofDecimal d.digits d.exponent

/-- The same number without zeros at the end of its digits. -/
def trimmed (d : Decimal) : Decimal :=
  let zeros := ((Nat.toDigits 10 d.digits).reverse.takeWhile (· == '0')).length
  if d.digits = 0 then ⟨0, 0⟩ else ⟨d.digits / Nat.pow 10 zeros, d.exponent + zeros⟩

end Decimal

end XmlTidy
