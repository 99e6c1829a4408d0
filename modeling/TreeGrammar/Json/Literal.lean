import TreeGrammar.Decimal.Shortest
import TreeGrammar.Json.Basic
import TreeGrammar.Text.Quoted

/-!
The literal form of values in messages and in code: `None`, `True`, quoted texts, the fewest digits
that name a number, lists in brackets and members in braces.
-/
namespace TreeGrammar

/-- How numbers that are not whole are written. -/
structure RealFormat where
  /-- The least power of ten of a first digit that is still written without an exponent. -/
  lowest : Int
  /-- The greatest one. -/
  highest : Int
  /-- The least count of digits of an exponent. -/
  exponentDigits : Nat
deriving DecidableEq, Repr

namespace RealFormat

/-- Numbers from 0.0001 up to 16 whole digits need no exponent. -/
def literal : RealFormat := ⟨-4, 15, 2⟩

/-- The digits of a number around its point, `n` times ten to the power `k`. -/
def positional (n : Nat) (k : Int) : List Char :=
  let digits := Nat.toDigits 10 n
  if 0 ≤ k then digits ++ List.replicate k.toNat '0' ++ ['.', '0']
  else
    let places := (-k).toNat
    if places < digits.length then
      digits.take (digits.length - places) ++ '.' :: digits.drop (digits.length - places)
    else ['0', '.'] ++ List.replicate (places - digits.length) '0' ++ digits

/-- A number with one digit before the point and an exponent. -/
def scientific (format : RealFormat) (n : Nat) (k : Int) : List Char :=
  let digits := Nat.toDigits 10 n
  let power := k + digits.length - 1
  let exponent := Nat.toDigits 10 power.natAbs
  let point := if digits.length = 1 then [] else ['.']
  digits.take 1 ++ point ++ digits.drop 1 ++ ['e', if power < 0 then '-' else '+'] ++
    List.replicate (format.exponentDigits - exponent.length) '0' ++ exponent

/-- The number that is written, without its sign. -/
def digits (format : RealFormat) (x : Decimal) : List Char :=
  match x.toBinary with
  | none => ['i', 'n', 'f']
  | some b =>
    if b.mantissa = 0 then ['0', '.', '0']
    else
      let (n, k) := b.shortest
      let power := k + Decimal.digitCount n - 1
      if format.lowest ≤ power ∧ power ≤ format.highest then positional n k
      else format.scientific n k

def render (format : RealFormat) (x : Decimal) : String :=
  String.ofList ((if x.negative then ['-'] else []) ++ format.digits x)

end RealFormat

namespace Json

mutual

def literal : Json → String
  | null => "None"
  | bool true => "True"
  | bool false => "False"
  | int n => toString n
  | real x => RealFormat.literal.render x
  | infinite negative => if negative then "-inf" else "inf"
  | nan => "nan"
  | str s => Text.quoted s
  | arr elements => "[" ++ ", ".intercalate (literals elements) ++ "]"
  | obj members => "\x7b" ++ ", ".intercalate (memberLiterals members) ++ "\x7d"

def literals : List Json → List String
  | [] => []
  | value :: rest => literal value :: literals rest

def memberLiterals : List (String × Json) → List String
  | [] => []
  | (name, value) :: rest => (Text.quoted name ++ ": " ++ literal value) :: memberLiterals rest

end

/-- A value for readers: a text as it is, any other value in literal form. -/
def shown : Json → String
  | str s => s
  | value => value.literal

end Json

end TreeGrammar
