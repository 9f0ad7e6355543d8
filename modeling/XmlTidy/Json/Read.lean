import XmlTidy.Json.Basic
import XmlTidy.Text.Quoted

/-!
Reading JSON text. Besides the grammar of the format, the words `NaN`, `Infinity` and `-Infinity` are
numbers. An integer has at most 4300 digits, and any other number is read as the nearest one that can be
stored. Of two members with one key the later value counts. Half of a surrogate pair stands for no
character: a string that holds one is kept as its code points, and a key that holds one is refused.
-/

namespace XmlTidy

/-- Why a text is no JSON value. -/
inductive JsonFault where
  | malformed
  | longInteger (digits : Nat)
  | halvedKey
deriving DecidableEq, Repr

/-- How many digits an integer may be written with. -/
def integerDigitLimit : Nat := 4300

def JsonFault.message : JsonFault → String
  | .malformed => "no JSON value"
  | .longInteger digits =>
      "Exceeds the limit (" ++ toString integerDigitLimit ++
        " digits) for integer string conversion: value has " ++ toString digits ++
        " digits; use sys.set_int_max_str_digits() to increase the limit"
  | .halvedKey => "half of a surrogate pair in a key"

namespace Json

/-- A value at the front of a text, and what follows it. -/
abbrev Reader (α : Type) := Except JsonFault (α × Text)

def skipBlanks (t : Text) : Text := t.dropWhile isBlank

/-! ### Numbers -/

def digits (t : Text) : Text × Text :=
  (t.takeWhile Char.isDigit, t.dropWhile Char.isDigit)

def digitsValue (ds : Text) : Nat :=
  ds.foldl (fun n d => n * 10 + (d.toNat - '0'.toNat)) 0

/-- The integral part of a number: a zero, or digits that do not start with one. -/
def integral? : Text → Option (Text × Text)
  | '0' :: t => some (['0'], t)
  | t =>
      match digits t with
      | ([], _) => none
      | (ds, rest) => some (ds, rest)

/-- The digits behind the point, if a point and a digit follow. -/
def fraction (t : Text) : Text × Text :=
  match t with
  | '.' :: t' =>
      match digits t' with
      | ([], _) => ([], t)
      | (ds, rest) => (ds, rest)
  | _ => ([], t)

/-- The exponent, if one follows. -/
def exponent (t : Text) : Option Int × Text :=
  match t with
  | e :: t' =>
      if e = 'e' || e = 'E' then
        let (negative, t'') :=
          match t' with
          | '-' :: t'' => (true, t'')
          | '+' :: t'' => (false, t'')
          | _ => (false, t')
        match digits t'' with
        | ([], _) => (none, t)
        | (ds, rest) =>
            (some (if negative then -(digitsValue ds : Int) else digitsValue ds), rest)
      else (none, t)
  | [] => (none, t)

def readUnsigned (negative : Bool) (t : Text) : Reader Scalar :=
  match integral? t with
  | none => .error .malformed
  | some (whole, t₁) =>
      let (part, t₂) := fraction t₁
      let (exp, t₃) := exponent t₂
      match part, exp with
      | [], none =>
          if integerDigitLimit < whole.length then .error (.longInteger whole.length)
          else .ok (.int (if negative then -(digitsValue whole : Int) else digitsValue whole), t₃)
      | _, _ =>
          .ok (.ofDecimal negative ⟨digitsValue (whole ++ part), exp.getD 0 - part.length⟩, t₃)

def infinityWord : Text := "Infinity".toList

def readScalar (t : Text) : Reader Scalar :=
  match t with
  | '-' :: t' =>
      match Text.after? infinityWord t' with
      | some rest => .ok (.infinite true, rest)
      | none => readUnsigned true t'
  | _ =>
      match Text.after? "null".toList t, Text.after? "true".toList t,
          Text.after? "false".toList t, Text.after? "NaN".toList t,
          Text.after? infinityWord t with
      | some rest, _, _, _, _ => .ok (.null, rest)
      | _, some rest, _, _, _ => .ok (.bool true, rest)
      | _, _, some rest, _, _ => .ok (.bool false, rest)
      | _, _, _, some rest, _ => .ok (.nan, rest)
      | _, _, _, _, some rest => .ok (.infinite false, rest)
      | _, _, _, _, _ => readUnsigned false t

/-! ### Strings -/

def hexValue? (c : Char) : Option Nat :=
  if c.isDigit then some (c.toNat - '0'.toNat)
  else if 'a' ≤ c && c ≤ 'f' then some (c.toNat - 'a'.toNat + 10)
  else if 'A' ≤ c && c ≤ 'F' then some (c.toNat - 'A'.toNat + 10)
  else none

/-- Four hexadecimal digits. -/
def unit? : Text → Option (Nat × Text)
  | a :: b :: c :: d :: t =>
      match hexValue? a, hexValue? b, hexValue? c, hexValue? d with
      | some a, some b, some c, some d => some (((a * 16 + b) * 16 + c) * 16 + d, t)
      | _, _, _, _ => none
  | _ => none

/-- The code point of one or two units, behind a backslash and `u`. A unit of a surrogate pair without the
other one is a code point by itself. -/
def codePoint? (t : Text) : Option (Nat × Text) :=
  match unit? t with
  | none => none
  | some (high, t₁) =>
      if 0xD800 ≤ high && high ≤ 0xDBFF then
        match t₁ with
        | '\\' :: 'u' :: t₂ =>
            match unit? t₂ with
            | some (low, t₃) =>
                if 0xDC00 ≤ low && low ≤ 0xDFFF then
                  some (0x10000 + (high - 0xD800) * 0x400 + (low - 0xDC00), t₃)
                else some (high, t₁)
            | none => none
        | _ => some (high, t₁)
      else some (high, t₁)

/-- The code point of an escape sequence, behind the backslash. -/
def escape? : Text → Option (Nat × Text)
  | '"' :: t => some ('"'.toNat, t)
  | '\\' :: t => some ('\\'.toNat, t)
  | '/' :: t => some ('/'.toNat, t)
  | 'b' :: t => some (0x08, t)
  | 'f' :: t => some (0x0C, t)
  | 'n' :: t => some ('\n'.toNat, t)
  | 'r' :: t => some ('\r'.toNat, t)
  | 't' :: t => some ('\t'.toNat, t)
  | 'u' :: t => codePoint? t
  | _ => none

/-- The code points of a string up to its closing quote, behind those that were read already, in
reverse. -/
def codes? : Nat → List Nat → Text → Option (List Nat × Text)
  | 0, _, _ => none
  | _ + 1, _, [] => none
  | fuel + 1, reversed, c :: t =>
      if c = '"' then some (reversed.reverse, t)
      else if c = '\\' then
        match escape? t with
        | none => none
        | some (code, t₁) => codes? fuel (code :: reversed) t₁
      else if c.toNat < 0x20 then none
      else codes? fuel (c.toNat :: reversed) t

/-- The text that code points make up, if all of them are characters. -/
def textOfCodes? (codes : List Nat) : Option String :=
  (codes.mapM charOfCode?).map String.ofList

/-- The string that code points make up. -/
def ofCodes (codes : List Nat) : Json :=
  match textOfCodes? codes with
  | some s => .str s
  | none => .scalar (.halved codes)

/-- The code points of a string up to its closing quote. -/
def readCodes (fuel : Nat) (t : Text) : Reader (List Nat) :=
  match codes? fuel [] t with
  | none => .error .malformed
  | some found => .ok found

/-- A key up to its closing quote. -/
def readKey (fuel : Nat) (t : Text) : Reader String :=
  match readCodes fuel t with
  | .error e => .error e
  | .ok (codes, rest) =>
      match textOfCodes? codes with
      | some key => .ok (key, rest)
      | none => .error .halvedKey

/-! ### Values -/

mutual
/-- The value at the front of a text. Each step inwards takes one unit of fuel, and no value needs more
of it than it has characters. -/
def readValue : Nat → Text → Reader Json
  | 0, _ => .error .malformed
  | fuel + 1, t =>
      match t with
      | '"' :: t => (readCodes fuel t).map fun (codes, rest) => (ofCodes codes, rest)
      | '[' :: t =>
          match skipBlanks t with
          | ']' :: rest => .ok (.arr [], rest)
          | t => (readItems fuel [] t).map fun (items, rest) => (.arr items, rest)
      | '{' :: t =>
          match skipBlanks t with
          | '}' :: rest => .ok (.obj [], rest)
          | t => (readMembers fuel [] t).map fun (members, rest) => (.obj members, rest)
      | t => (readScalar t).map fun (s, rest) => (.scalar s, rest)

/-- The items of a list up to its closing bracket, behind those that were read already, in reverse. -/
def readItems : Nat → List Json → Text → Reader (List Json)
  | 0, _, _ => .error .malformed
  | fuel + 1, reversed, t =>
      match readValue fuel t with
      | .error e => .error e
      | .ok (item, t₁) =>
          match skipBlanks t₁ with
          | ']' :: rest => .ok ((item :: reversed).reverse, rest)
          | ',' :: t₂ => readItems fuel (item :: reversed) (skipBlanks t₂)
          | _ => .error .malformed

/-- The members of an object up to its closing brace, behind those that are known already. -/
def readMembers : Nat → Members Json → Text → Reader (Members Json)
  | 0, _, _ => .error .malformed
  | fuel + 1, known, t =>
      match t with
      | '"' :: t =>
          match readKey fuel t with
          | .error e => .error e
          | .ok (key, t₁) =>
              match skipBlanks t₁ with
              | ':' :: t₂ =>
                  match readValue fuel (skipBlanks t₂) with
                  | .error e => .error e
                  | .ok (value, t₃) =>
                      let known := known.insert key value
                      match skipBlanks t₃ with
                      | '}' :: rest => .ok (known, rest)
                      | ',' :: t₄ => readMembers fuel known (skipBlanks t₄)
                      | _ => .error .malformed
              | _ => .error .malformed
      | _ => .error .malformed
end

/-- Reads a whole text as one value. -/
def read (t : Text) : Except JsonFault Json :=
  match readValue (t.length + 1) (skipBlanks t) with
  | .ok (value, rest) => if skipBlanks rest = [] then .ok value else .error .malformed
  | .error e => .error e

end Json

end XmlTidy
