import TreeGrammar.Decimal.Signed
import TreeGrammar.Json.Basic

/-!
Values used as numbers. True and false count as one and zero; a number that is not written as a
whole number is the binary number nearest to it, and so is a sum with one. Other values are no
numbers.
-/
namespace TreeGrammar.Json

/-- The whole number that a value is. -/
def whole? : Json → Option Int
  | int n => some n
  | bool b => some (if b then 1 else 0)
  | _ => none

/-- The value of a binary number. -/
def ofSigned (s : Signed) : Json :=
  match Binary.nearest s.size with
  | none => infinite s.negative
  | some b => real (Decimal.ofBinary s.negative b)

/-- The sum of a value and a whole number, if the value is a number. -/
def plus (value : Json) (n : Int) : Option Json :=
  match value with
  | int m => some (int (m + n))
  | bool b => some (int ((if b then 1 else 0) + n))
  | real x =>
    match x.toSigned with
    | none => some (infinite x.negative)
    | some s => some (ofSigned (s.plus n))
  | infinite negative => some (infinite negative)
  | nan => some nan
  | _ => none

/-- Whether a value is at least the given whole number, if it is a number. -/
def atLeast (value : Json) (n : Nat) : Option Bool :=
  match value with
  | int m => some ((n : Int) ≤ m)
  | bool b => some (n ≤ if b then 1 else 0)
  | real x =>
    match x.toSigned with
    | none => some !x.negative
    | some s => some (s.atLeast n)
  | infinite negative => some !negative
  | nan => some false
  | _ => none

/-- Whether a value is a number greater than the given whole number. -/
def exceeds (value : Json) (n : Nat) : Bool :=
  match value with
  | int m => (n : Int) < m
  | bool b => n < if b then 1 else 0
  | real x =>
    match x.toSigned with
    | none => !x.negative
    | some s => s.exceeds n
  | infinite negative => !negative
  | _ => false

theorem plus_int (m n : Int) : plus (int m) n = some (int (m + n)) := rfl

theorem atLeast_int (m : Int) (n : Nat) : atLeast (int m) n = some (decide ((n : Int) ≤ m)) := rfl

end TreeGrammar.Json
