import XmlTidy.Json.Write

/-!
Values as messages show them: a text as it is, and inside of lists and objects between quotes. Halves of
surrogate pairs are escaped in either case.
-/

namespace XmlTidy

def Scalar.shown : Scalar → String
  | .null => "None"
  | .bool true => "True"
  | .bool false => "False"
  | .int n => toString n
  | .real negative size => Json.realText negative size
  | .infinite true => "-inf"
  | .infinite false => "inf"
  | .nan => "nan"
  | .halved codes => String.ofList (Quoted.ofCodes codes)

namespace Json

def quotedText (s : String) : String := String.ofList (Text.quoted s.toList)

mutual
def shownInside : Json → String
  | .scalar s => s.shown
  | .str s => quotedText s
  | .arr items => "[" ++ String.intercalate ", " (shownItems items) ++ "]"
  | .obj members => "\x7b" ++ String.intercalate ", " (shownMembers members) ++ "\x7d"

def shownItems : List Json → List String
  | [] => []
  | item :: items => shownInside item :: shownItems items

def shownMembers : List (String × Json) → List String
  | [] => []
  | (key, value) :: members =>
      (quotedText key ++ ": " ++ shownInside value) :: shownMembers members
end

/-- Code points without quotes. -/
def shownCodes (codes : List Nat) : String :=
  let shown (n : Nat) : Text :=
    match charOfCode? n with
    | some c => [c]
    | none => Quoted.escapedHalf n
  String.ofList (codes.flatMap shown)

def shown : Json → String
  | .str s => s
  | .scalar (.halved codes) => shownCodes codes
  | value => shownInside value

end Json

end XmlTidy
