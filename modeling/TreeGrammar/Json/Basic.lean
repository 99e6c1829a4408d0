import TreeGrammar.Decimal.Binary

/-!
JSON values. The members of an object keep the order they are written in, and a number keeps the
digits it is written with.
-/
namespace TreeGrammar

/-- A JSON value. Besides the standard's values a number may be infinite or no number at all. -/
inductive Json where
  | null
  | bool (b : Bool)
  | int (n : Int)
  | real (x : Decimal)
  | infinite (negative : Bool)
  | nan
  | str (s : String)
  | arr (elements : List Json)
  | obj (members : List (String × Json))
deriving Inhabited

namespace Json

/-- The value of the first member of that name. -/
def member (name : String) : List (String × Json) → Option Json
  | [] => none
  | (key, value) :: rest => if key = name then some value else member name rest

/-- A member of an object. -/
def get? (name : String) : Json → Option Json
  | obj members => member name members
  | _ => none

/-- A number is zero if the binary number nearest to it is. -/
def isZero (x : Decimal) : Bool :=
  match x.toBinary with
  | some b => b.mantissa == 0
  | none => false

/-- Null, false, zero and whatever is empty count as false, all else as true. -/
def isTrue : Json → Bool
  | null => false
  | bool b => b
  | int n => n != 0
  | real x => !isZero x
  | infinite _ => true
  | nan => true
  | str s => s != ""
  | arr elements => !elements.isEmpty
  | obj members => !members.isEmpty

/-- Values without parts. Only these can be looked up among others. -/
def isScalar : Json → Bool
  | arr _ | obj _ => false
  | _ => true

mutual

/-- Whether all numbers in a value are finite. -/
def isFinite : Json → Bool
  | real x => x.toBinary.isSome
  | infinite _ | nan => false
  | arr elements => isFiniteAll elements
  | obj members => isFiniteMembers members
  | null | bool _ | int _ | str _ => true

/-- Whether all numbers in some values are finite. -/
def isFiniteAll : List Json → Bool
  | [] => true
  | value :: rest => isFinite value && isFiniteAll rest

/-- Whether all numbers in some members are finite. -/
def isFiniteMembers : List (String × Json) → Bool
  | [] => true
  | (_, value) :: rest => isFinite value && isFiniteMembers rest

end

/-- Puts a member last, or in the place of the member of that name. -/
def putMember (name : String) (value : Json) : List (String × Json) → List (String × Json)
  | [] => [(name, value)]
  | (key, old) :: rest =>
    if key = name then (key, value) :: rest else (key, old) :: putMember name value rest

/-- Members in the order their names first occur, each with the value its name occurs with last. -/
def lastOfEach (members : List (String × Json)) : List (String × Json) :=
  members.foldl (fun kept (name, value) => putMember name value kept) []

end Json

end TreeGrammar
