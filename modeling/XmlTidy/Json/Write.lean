import XmlTidy.Json.Basic
import XmlTidy.Text.Quoted

/-!
Writing JSON text. Only the printable ASCII characters stand for themselves in a string; all others
are escaped, those beyond the sixteen-bit range as two units, and halves of pairs as one. With an indent
every item and member stands on a line of its own.
-/

namespace XmlTidy

namespace Json

def hexDigit (n : Nat) : Char :=
  if n < 10 then Char.ofNat ('0'.toNat + n) else Char.ofNat ('a'.toNat + (n - 10))

/-- One sixteen-bit unit as an escape sequence. -/
def escapedUnit (n : Nat) : String :=
  String.ofList ['\\', 'u', hexDigit (n / 4096 % 16), hexDigit (n / 256 % 16),
    hexDigit (n / 16 % 16), hexDigit (n % 16)]

def escapedChar (c : Char) : String :=
  if c = '"' then "\\\""
  else if c = '\\' then "\\\\"
  else if c = '\n' then "\\n"
  else if c = '\r' then "\\r"
  else if c = '\t' then "\\t"
  else if c = '\x08' then "\\b"
  else if c = '\x0c' then "\\f"
  else if ' ' ≤ c && c ≤ '~' then String.singleton c
  else if c.toNat < 0x10000 then escapedUnit c.toNat
  else
    escapedUnit (0xD800 + (c.toNat - 0x10000) / 0x400) ++
      escapedUnit (0xDC00 + (c.toNat - 0x10000) % 0x400)

def quoted (s : String) : String :=
  "\"" ++ String.join (s.toList.map escapedChar) ++ "\""

/-- A string that is no text. -/
def quotedCodes (codes : List Nat) : String :=
  let escaped (n : Nat) : String :=
    match charOfCode? n with
    | some c => escapedChar c
    | none => escapedUnit n
  "\"" ++ String.join (codes.map escaped) ++ "\""

/-! ### Numbers -/

/-- A number that is not an integer: positional from `10 ^ -4` up to `10 ^ 16`, with a point and at
least one digit on either side, and with an exponent of at least two digits otherwise. -/
def realText (negative : Bool) (size : Decimal) : String :=
  let digits := Nat.toDigits 10 size.digits
  let point : Int := size.exponent + digits.length
  let body :=
    if point < -3 || 16 < point then
      let shown := (point - 1).natAbs
      let places := if shown < 10 then "0" ++ toString shown else toString shown
      let tail := if digits.length = 1 then "" else "." ++ String.ofList (digits.drop 1)
      String.ofList (digits.take 1) ++ tail ++ "e" ++ (if point - 1 < 0 then "-" else "+") ++ places
    else if point ≤ 0 then
      "0." ++ String.ofList (List.replicate (-point).toNat '0' ++ digits)
    else if digits.length ≤ point then
      String.ofList (digits ++ List.replicate (point.toNat - digits.length) '0') ++ ".0"
    else String.ofList (digits.take point.toNat) ++ "." ++ String.ofList (digits.drop point.toNat)
  (if negative then "-" else "") ++ body

def scalarText : Scalar → String
  | .null => "null"
  | .bool true => "true"
  | .bool false => "false"
  | .int n => toString n
  | .real negative size => realText negative size
  | .infinite true => "-Infinity"
  | .infinite false => "Infinity"
  | .nan => "NaN"
  | .halved codes => quotedCodes codes

/-! ### Values -/

/-- What stands in front of an item at a depth: a line break and the indentation, if there is an
indent. -/
def lead (indent : Option Nat) (depth : Nat) : String :=
  match indent with
  | none => ""
  | some n => "\n" ++ String.ofList (List.replicate (n * depth) ' ')

/-- What stands between two items at a depth. -/
def between (indent : Option Nat) (depth : Nat) : String :=
  match indent with
  | none => ", "
  | some _ => "," ++ lead indent depth

mutual
def writeAt (indent : Option Nat) (depth : Nat) : Json → String
  | .scalar s => scalarText s
  | .str s => quoted s
  | .arr [] => "[]"
  | .arr items =>
      "[" ++ lead indent (depth + 1) ++
        String.intercalate (between indent (depth + 1)) (writeItems indent (depth + 1) items) ++
        lead indent depth ++ "]"
  | .obj [] => "\x7b\x7d"
  | .obj members =>
      "\x7b" ++ lead indent (depth + 1) ++
        String.intercalate (between indent (depth + 1)) (writeMembers indent (depth + 1) members) ++
        lead indent depth ++ "\x7d"

def writeItems (indent : Option Nat) (depth : Nat) : List Json → List String
  | [] => []
  | item :: items => writeAt indent depth item :: writeItems indent depth items

def writeMembers (indent : Option Nat) (depth : Nat) : List (String × Json) → List String
  | [] => []
  | (key, value) :: members =>
      (quoted key ++ ": " ++ writeAt indent depth value) :: writeMembers indent depth members
end

/-- A value as text, on one line or with an indent. -/
def write (indent : Option Nat) (value : Json) : String :=
  writeAt indent 0 value

end Json

end XmlTidy
