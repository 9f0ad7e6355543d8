import XmlTidy.Text.Width

/-!
A text as messages quote it: between single quotes, or between double quotes if it holds a single quote
and no double one. The quote itself and the backslash are escaped, and so is every character that
is not printable, by the shortest of three forms with two, four or eight hexadecimal digits. Among code
points there may be halves of surrogate pairs, which are no characters and are escaped as well.
-/

namespace XmlTidy

/-- The character of a code point. Half of a surrogate pair is none. -/
def charOfCode? (n : Nat) : Option Char :=
  if h : n.isValidChar then some (Char.ofNatAux n h) else none

namespace Quoted

/-- The control, format, private and separating characters, all but the space. -/
def hiddenRanges : List (Nat × Nat) :=
  [(0x0, 0x1F), (0x7F, 0xA0), (0xAD, 0xAD), (0x600, 0x605), (0x61C, 0x61C), (0x6DD, 0x6DD),
   (0x70F, 0x70F), (0x890, 0x891), (0x8E2, 0x8E2), (0x1680, 0x1680), (0x180E, 0x180E),
   (0x2000, 0x200F), (0x2028, 0x202F), (0x205F, 0x2064), (0x2066, 0x206F), (0x3000, 0x3000),
   (0xE000, 0xF8FF), (0xFEFF, 0xFEFF), (0xFFF9, 0xFFFB), (0x110BD, 0x110BD), (0x110CD, 0x110CD),
   (0x13430, 0x13438), (0x1BCA0, 0x1BCA3), (0x1D173, 0x1D17A), (0xE0001, 0xE0001),
   (0xE0020, 0xE007F), (0xF0000, 0xFFFFD), (0x100000, 0x10FFFD)]

def isPrintable (c : Char) : Bool :=
  !(inRanges hiddenRanges c || inRanges Width.gaps c)

def hexDigits (count n : Nat) : Text :=
  let ds := Nat.toDigits 16 n
  List.replicate (count - ds.length) '0' ++ ds

/-- One character between quotes of the given kind. -/
def escaped (quote c : Char) : Text :=
  if c = quote || c = '\\' then ['\\', c]
  else if c = '\n' then ['\\', 'n']
  else if c = '\r' then ['\\', 'r']
  else if c = '\t' then ['\\', 't']
  else if isPrintable c then [c]
  else if c.toNat < 0x100 then '\\' :: 'x' :: hexDigits 2 c.toNat
  else if c.toNat < 0x10000 then '\\' :: 'u' :: hexDigits 4 c.toNat
  else '\\' :: 'U' :: hexDigits 8 c.toNat

/-- Half of a surrogate pair. -/
def escapedHalf (n : Nat) : Text := '\\' :: 'u' :: hexDigits 4 n

/-- Code points between quotes. -/
def ofCodes (codes : List Nat) : Text :=
  let quote := if codes.contains '\''.toNat && !codes.contains '"'.toNat then '"' else '\''
  let shown (n : Nat) : Text :=
    match charOfCode? n with
    | some c => escaped quote c
    | none => escapedHalf n
  quote :: codes.flatMap shown ++ [quote]

end Quoted

/-- The text between quotes. -/
def Text.quoted (t : Text) : Text :=
  let quote := if t.contains '\'' && !t.contains '"' then '"' else '\''
  quote :: t.flatMap (Quoted.escaped quote) ++ [quote]

end XmlTidy
