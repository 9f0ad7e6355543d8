import XmlTidy.Number.Decimal

/-!
Numbers as they are stored: with at most 53 binary digits, no digit below `2 ^ -1074`, and less than
`2 ^ 1024`. `Fraction.binary?` takes a fraction to the nearest of them, where what lies halfway goes to the
even neighbour. `Binary.shortest` is the decimal with the fewest digits that is stored as a number, and
of those the nearest to it.
-/

namespace XmlTidy

/-- The number `mantissa * 2 ^ exponent`. -/
structure Binary where
  mantissa : Nat
  exponent : Int
deriving DecidableEq, Repr

def Binary.fraction (b : Binary) : Fraction := Fraction.shift ⟨b.mantissa, 1⟩ b.exponent

namespace Fraction

/-- The stored number nearest to a fraction, if that is not too large. -/
def binary? (f : Fraction) : Option Binary :=
  if f.num = 0 then some ⟨0, 0⟩
  else
    let guess : Int := (f.num.log2 : Int) - f.den.log2 - 53
    let scaled := f.shift (-guess)
    let exponent := max (-1074) (if scaled.num < Nat.pow 2 53 * scaled.den then guess else guess + 1)
    let kept := f.shift (-exponent)
    let mantissa := roundDiv kept.num kept.den
    let b : Binary :=
      if mantissa = Nat.pow 2 53 then ⟨Nat.pow 2 52, exponent + 1⟩ else ⟨mantissa, exponent⟩
    if 971 < b.exponent then none else some b

end Fraction

namespace Decimal

/-- Whether a decimal is stored as a given number. -/
def isStoredAs (d : Decimal) (b : Binary) : Bool := d.fraction.binary? == some b

/-- The stored number nearest to a decimal, if that is not too large. -/
def binary? (d : Decimal) : Option Binary :=
  let size : Int := (Nat.toDigits 10 d.digits).length + d.exponent
  if d.digits = 0 || size < -330 then some ⟨0, 0⟩
  else if 310 < size then none
  else d.fraction.binary?

end Decimal

namespace Binary

/-- Of the two decimals with so many digits next to a number, the nearer one that is stored as it. -/
def withDigits? (b : Binary) (count : Nat) : Option Decimal :=
  let f := b.fraction
  let exponent := f.places - count
  let scaled := f.mul (Fraction.ofDecimal 1 (-exponent))
  let low : Decimal := ⟨scaled.num / scaled.den, exponent⟩
  let high : Decimal := ⟨scaled.num / scaled.den + 1, exponent⟩
  let nearer := roundDiv scaled.num scaled.den
  [⟨nearer, exponent⟩, low, high].find? (·.isStoredAs b)

/-- The decimal with the fewest digits that is stored as a number. Seventeen digits always are enough. -/
def shortest (b : Binary) : Decimal :=
  if b.mantissa = 0 then ⟨0, 0⟩
  else (((List.range 17).findSome? fun n => b.withDigits? (n + 1)).getD ⟨0, 0⟩).trimmed

end Binary

end XmlTidy
