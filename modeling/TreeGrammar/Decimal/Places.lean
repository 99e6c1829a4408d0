import TreeGrammar.Decimal.Binary

/-! Numbers with a fixed count of decimal places, rounded to the nearest, a half to the even. -/
namespace TreeGrammar.Ratio

/-- The digits of a whole number, with zeros in front up to the given count. -/
def paddedDigits (count n : Nat) : List Char :=
  let digits := Nat.toDigits 10 n
  List.replicate (count - digits.length) '0' ++ digits

/-- A fraction with the given number of places after the point. -/
def withPlaces (r : Ratio) (places : Nat) : String :=
  let scaled := (Ratio.times (Nat.pow 10 places) r).round
  let whole := Nat.toDigits 10 (scaled / Nat.pow 10 places)
  if places = 0 then String.ofList whole
  else String.ofList (whole ++ '.' :: paddedDigits places (scaled % Nat.pow 10 places))

end TreeGrammar.Ratio
