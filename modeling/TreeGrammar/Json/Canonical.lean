import TreeGrammar.Decimal.Shortest
import TreeGrammar.Json.Equality

/-!
Values that count as equal: numbers by their value, true and false as one and zero, members in any
order. Every value has a canonical form, and two values are alike if these are equal.
-/
namespace TreeGrammar.Json

/-- A number that is not written as a whole number, in canonical form: whole if its value is, else
with the fewest digits that name it. -/
def canonicalReal (x : Decimal) : Json :=
  match x.toBinary with
  | none => infinite x.negative
  | some b =>
    if b.mantissa = 0 then int 0
    else
      let r := b.toRatio
      if r.num % r.den = 0 then
        int (if x.negative then -(r.num / r.den : Nat) else (r.num / r.den : Nat))
      else real ⟨x.negative, b.shortest.1, b.shortest.2⟩

def sortMembers (members : List (String × Json)) : List (String × Json) :=
  members.mergeSort fun a b => decide (a.1 ≤ b.1)

mutual

def canonical : Json → Json
  | bool b => int (if b then 1 else 0)
  | real x => canonicalReal x
  | arr values => arr (canonicalAll values)
  | obj members => obj (sortMembers (canonicalMembers members))
  | null => null
  | int n => int n
  | infinite negative => infinite negative
  | nan => nan
  | str s => str s

def canonicalAll : List Json → List Json
  | [] => []
  | value :: rest => canonical value :: canonicalAll rest

def canonicalMembers : List (String × Json) → List (String × Json)
  | [] => []
  | (name, value) :: rest => (name, canonical value) :: canonicalMembers rest

end

/-- Whether two values count as equal. -/
def alike (a b : Json) : Bool :=
  decide (a.canonical = b.canonical)

theorem alike_iff (a b : Json) : alike a b = true ↔ a.canonical = b.canonical := by
  simp [alike]

theorem alike_refl (a : Json) : alike a a = true := by
  simp [alike]

/-- Texts are alike only if they are equal. -/
theorem alike_str (s t : String) : alike (str s) (str t) = decide (s = t) := by
  simp [alike, canonical]

/-- Only a text is like a text. -/
theorem alike_str_left_iff (s : String) (b : Json) : alike (str s) b = true ↔ b = str s := by
  cases b with
  | real x =>
    simp only [alike, canonical, canonicalReal]
    split
    · simp
    · split
      · simp
      · split <;> simp
  | str t => simp [alike, canonical, eq_comm]
  | _ => simp [alike, canonical]

theorem alike_str_right_iff (a : Json) (s : String) : alike a (str s) = true ↔ a = str s := by
  rw [alike_iff, eq_comm, ← alike_iff, alike_str_left_iff]

end TreeGrammar.Json
