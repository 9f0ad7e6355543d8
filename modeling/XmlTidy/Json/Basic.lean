import XmlTidy.Number.Binary

/-!
JSON values. An object keeps its members in the order in which they were first written, because that
order is seen again when the object is written. Scalars are a type of their own: they are also what
may stand by mistake where a layout document is wanted.
-/

namespace XmlTidy

/-- A value that is neither text nor a list nor an object. A `real` is a sign and the shortest decimal of a
stored number; zero has a sign as well. A `halved` string holds halves of surrogate pairs, which are no
characters, so that it is no text; it is known by its code points. -/
inductive Scalar where
  | null
  | bool (b : Bool)
  | int (n : Int)
  | real (negative : Bool) (size : Decimal)
  | infinite (negative : Bool)
  | nan
  | halved (codes : List Nat)
deriving DecidableEq, Repr

namespace Scalar

/-- The name under which messages speak of a scalar. -/
def typeName : Scalar → String
  | .null => "NoneType"
  | .bool _ => "bool"
  | .int _ => "int"
  | .real .. | .infinite _ | .nan => "float"
  | .halved _ => "str"

/-- A scalar that does not count as set: null, false, the zeros and what is empty. -/
def isVoid : Scalar → Bool
  | .null => true
  | .bool b => !b
  | .int n => n == 0
  | .real _ size => size.digits == 0
  | .infinite _ | .nan => false
  | .halved codes => codes.isEmpty

/-- The scalar that a decimal is stored as. -/
def ofDecimal (negative : Bool) (d : Decimal) : Scalar :=
  match d.binary? with
  | some b => .real negative b.shortest
  | none => .infinite negative

/-- A scalar that is a finite number, as an integer over a natural number. Truth values count as zero
and one. -/
def ratio? : Scalar → Option (Int × Nat)
  | .bool b => some (if b then 1 else 0, 1)
  | .int n => some (n, 1)
  | .real negative size =>
      size.binary?.map fun b =>
        let f := b.fraction
        (if negative then -(f.num : Int) else f.num, f.den)
  | .null | .infinite _ | .nan | .halved _ => none

/-- Whether two scalars are the same value. Numbers of different kinds may be. -/
def same (s t : Scalar) : Bool :=
  match s.ratio?, t.ratio? with
  | some (m, d), some (n, e) => m * e == n * d
  | _, _ => s == t

end Scalar

/-! ### Members in order -/

/-- Lists of members, each key at most once. -/
abbrev Members (α : Type) := List (String × α)

namespace Members

variable {α : Type}

def find? (members : Members α) (key : String) : Option α :=
  List.lookup key members

/-- Gives a key a value. A key that is already there stays in its place. -/
def insert (key : String) (value : α) : Members α → Members α
  | [] => [(key, value)]
  | (k, v) :: rest => if k = key then (k, value) :: rest else (k, v) :: insert key value rest

def erase (key : String) (members : Members α) : Members α :=
  members.filter (·.1 != key)

/-- The members of a list of pairs. A later value replaces an earlier one of the same key. -/
def ofList (pairs : List (String × α)) : Members α :=
  pairs.foldl (fun members (key, value) => members.insert key value) []

end Members

inductive Json where
  | scalar (s : Scalar)
  | str (s : String)
  | arr (items : List Json)
  | obj (members : List (String × Json))
deriving Inhabited, Repr

namespace Json

@[match_pattern]
def null : Json := .scalar .null

def bool (b : Bool) : Json := .scalar (.bool b)

def int (n : Int) : Json := .scalar (.int n)

/-- The name under which messages speak of the kind of a value. -/
def typeName : Json → String
  | .scalar s => s.typeName
  | .str _ => "str"
  | .arr _ => "list"
  | .obj _ => "dict"

/-- A value that does not count as set: a void scalar, or an empty text, list or object. -/
def isVoid : Json → Bool
  | .scalar s => s.isVoid
  | .str s => s.isEmpty
  | .arr items => items.isEmpty
  | .obj members => members.isEmpty

mutual
/-- Whether two values are the same. The order of members does not count. -/
def same : Json → Json → Bool
  | .scalar s, .scalar t => s.same t
  | .str s, .str t => s == t
  | .arr items, .arr others => sameItems items others
  | .obj members, .obj others => members.length == others.length && sameMembers members others
  | _, _ => false

def sameItems : List Json → List Json → Bool
  | [], [] => true
  | item :: items, other :: others => item.same other && sameItems items others
  | _, _ => false

/-- Whether all members are found among others. -/
def sameMembers : List (String × Json) → Members Json → Bool
  | [], _ => true
  | (key, value) :: members, others =>
      (match others.find? key with
        | some other => value.same other
        | none => false) && sameMembers members others
end

instance : BEq Json := ⟨same⟩

/-- Whether two values are equal. That which is not a number is not equal to itself. -/
def equals : Json → Json → Bool
  | .scalar .nan, _ => false
  | value, other => value.same other

end Json

end XmlTidy
