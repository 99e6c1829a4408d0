/-!
Decimal numbers and the binary numbers nearest to them. A binary number has 53 bits, a value is
rounded to the nearest one, and of two equally near to the one whose last bit is clear. All
arithmetic is on whole numbers.
-/
namespace TreeGrammar

/-- A decimal number as it is written: its digits read as a whole number, times a power of ten. -/
structure Decimal where
  negative : Bool
  digits : Nat
  exponent : Int
deriving DecidableEq, Repr

/-- A fraction of whole numbers. -/
structure Ratio where
  num : Nat
  den : Nat
deriving DecidableEq, Repr

namespace Ratio

/-- A power of the given base, whose exponent may be negative. -/
def power (base : Nat) (k : Int) : Ratio :=
  if 0 ≤ k then ⟨base.pow k.toNat, 1⟩ else ⟨1, base.pow (-k).toNat⟩

/-- The whole number `n` times a fraction. -/
def times (n : Nat) (r : Ratio) : Ratio :=
  ⟨n * r.num, r.den⟩

/-- The quotient of two fractions. -/
def quotient (a b : Ratio) : Ratio :=
  ⟨a.num * b.den, a.den * b.num⟩

/-- Whether one fraction is less than another. -/
def less (a b : Ratio) : Bool :=
  a.num * b.den < b.num * a.den

/-- The whole number below. -/
def floor (a : Ratio) : Nat :=
  a.num / a.den

/-- The nearest whole number; a half goes to the even neighbour. -/
def round (a : Ratio) : Nat :=
  let q := a.num / a.den
  let r := a.num % a.den
  if 2 * r < a.den then q
  else if a.den < 2 * r then q + 1
  else if q % 2 = 0 then q
  else q + 1

end Ratio

/-- The number `mantissa` times a power of two. -/
structure Binary where
  mantissa : Nat
  exponent : Int
deriving DecidableEq, Repr

namespace Binary

/-- The least exponent of two. -/
def leastExponent : Int := -1074

/-- The greatest exponent of two that goes with a mantissa of 53 bits. -/
def greatestExponent : Int := 971

/-- A binary number as a fraction. -/
def toRatio (b : Binary) : Ratio :=
  Ratio.times b.mantissa (Ratio.power 2 b.exponent)

/-- The least whole number that has more bits than a mantissa. -/
def mantissaBound : Nat := Nat.pow 2 53

/-- The exponent of the greatest power of two that is not above a fraction other than zero. -/
def floorLog (r : Ratio) : Int :=
  let e : Int := (Nat.log2 r.num : Int) - Nat.log2 r.den
  if r.less (Ratio.power 2 e) then e - 1 else e

/-- The binary number nearest to a fraction, or none beyond the greatest one. -/
def nearest (r : Ratio) : Option Binary :=
  if r.num = 0 then some ⟨0, leastExponent⟩
  else
    let q := max (floorLog r - 52) leastExponent
    let m := (r.quotient (Ratio.power 2 q)).round
    let b : Binary := if m = mantissaBound then ⟨mantissaBound / 2, q + 1⟩ else ⟨m, q⟩
    if greatestExponent < b.exponent then none else some b

end Binary

namespace Decimal

/-- The number of decimal digits of a whole number. -/
def digitCount (n : Nat) : Nat :=
  (Nat.toDigits 10 n).length

/-- The absolute value as a fraction; a magnitude far outside the range of binary numbers is
brought near that range first, which changes nothing about the nearest one. -/
def magnitude (x : Decimal) : Ratio :=
  if x.digits = 0 then ⟨0, 1⟩
  else
    let top := x.exponent + digitCount x.digits
    if 400 < top then Ratio.power 10 400
    else if top < -400 then Ratio.power 10 (-400)
    else Ratio.times x.digits (Ratio.power 10 x.exponent)

/-- The binary number nearest to the absolute value, or none beyond the greatest one. -/
def toBinary (x : Decimal) : Option Binary :=
  Binary.nearest x.magnitude

end Decimal

end TreeGrammar
