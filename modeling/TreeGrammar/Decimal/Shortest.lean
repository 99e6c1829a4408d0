import TreeGrammar.Decimal.Binary

/-!
The fewest decimal digits that name a binary number: of all decimals that round to it those with
the fewest digits are taken, and of these the nearest.
-/
namespace TreeGrammar.Binary

/-- The exponent of the greatest power of ten that is not above a fraction other than zero. -/
def decimalLog (r : Ratio) : Int :=
  if r.den ≤ r.num then Decimal.digitCount r.floor - 1
  else
    let guess : Int := -Decimal.digitCount (r.den / r.num)
    if r.less (Ratio.power 10 (guess + 1)) then guess else guess + 1

/-- Four times the distance from a binary number to the lower end of what rounds to it, in units
of its last bit. -/
def gapBelow (b : Binary) : Nat :=
  if 2 * b.mantissa = mantissaBound ∧ leastExponent < b.exponent then 1 else 2

/-- Whether a fraction rounds to the given binary number. The ends round to even mantissas. -/
def roundsTo (b : Binary) (r : Ratio) : Bool :=
  let unit := Ratio.power 2 (b.exponent - 2)
  let low := Ratio.times (4 * b.mantissa - b.gapBelow) unit
  let high := Ratio.times (4 * b.mantissa + 2) unit
  if b.mantissa % 2 = 0 then !r.less low && !high.less r else low.less r && r.less high

/-- The multiple of ten to the power `step` that rounds to `b` and is nearest to it, as its
number of steps. -/
def onGrid (b : Binary) (step : Int) : Option Nat :=
  let unit := Ratio.power 10 step
  let steps := b.toRatio.quotient unit
  let below := steps.floor
  let hit (n : Nat) : Bool := b.roundsTo (Ratio.times n unit)
  match hit below, hit (below + 1) with
  | true, true => some steps.round
  | true, false => some below
  | false, true => some (below + 1)
  | false, false => none

/-- The first grid with a hit, trying one digit more each time. -/
def firstGrid (b : Binary) (log : Int) : Nat → Nat → Nat × Int
  | 0, count => ((b.toRatio.quotient (Ratio.power 10 (log - count))).round, log - count)
  | tries + 1, count =>
    match b.onGrid (log - count) with
    | some n => (n, log - count)
    | none => firstGrid b log tries (count + 1)

/-- A whole number without the zeros at its end, the power of ten counting them. -/
def dropZeros : Nat → Nat × Int → Nat × Int
  | 0, p => p
  | fuel + 1, (n, k) => if n % 10 = 0 ∧ n ≠ 0 then dropZeros fuel (n / 10, k + 1) else (n, k)

/-- The fewest digits that name a binary number other than zero, and the power of ten they are
multiplied by. -/
def shortest (b : Binary) : Nat × Int :=
  dropZeros 20 (b.firstGrid (decimalLog b.toRatio) 17 0)

end TreeGrammar.Binary
