import TreeGrammar.Decimal.Places
import TreeGrammar.Decimal.Shortest

/-! Fractions with a sign, which zero has too. -/
namespace TreeGrammar

/-- A sign and an absolute value. -/
structure Signed where
  negative : Bool
  size : Ratio
deriving DecidableEq, Repr

namespace Signed

/-- No time, no distance. -/
def zero : Signed := ⟨false, ⟨0, 1⟩⟩

/-- The sum of a fraction and a whole number. A sum of zero is positive. -/
def plus (s : Signed) (n : Int) : Signed :=
  let numerator := (if s.negative then -(s.size.num : Int) else s.size.num) + n * s.size.den
  ⟨numerator < 0, ⟨numerator.natAbs, s.size.den⟩⟩

/-- Whether a fraction is at least the given whole number. -/
def atLeast (s : Signed) (n : Nat) : Bool :=
  if s.negative then s.size.num == 0 && n == 0 else n * s.size.den ≤ s.size.num

/-- Whether a fraction is greater than the given whole number. -/
def exceeds (s : Signed) (n : Nat) : Bool :=
  !s.negative && n * s.size.den < s.size.num

/-- A fraction with the given number of places after the point. The sign stays where all digits
are zero. -/
def withPlaces (s : Signed) (places : Nat) : String :=
  (if s.negative then "-" else "") ++ s.size.withPlaces places

end Signed

/-- The binary number nearest to a decimal, unless it lies beyond the greatest one. -/
def Decimal.toSigned (x : Decimal) : Option Signed :=
  x.toBinary.map fun b => ⟨x.negative, b.toRatio⟩

/-- The fewest digits that name a binary number, as a decimal of the given sign. -/
def Decimal.ofBinary (negative : Bool) (b : Binary) : Decimal :=
  if b.mantissa = 0 then ⟨negative, 0, 0⟩ else ⟨negative, b.shortest.1, b.shortest.2⟩

end TreeGrammar
