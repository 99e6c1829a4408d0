import TreeGrammar.Json.Basic

/-! Equality of JSON values is decidable: they are compared part by part. -/
namespace TreeGrammar.Json

mutual

/-- Whether two values are built alike from equal parts. -/
def same : Json → Json → Bool
  | null, null => true
  | bool a, bool b => a == b
  | int a, int b => a == b
  | real a, real b => a == b
  | infinite a, infinite b => a == b
  | nan, nan => true
  | str a, str b => a == b
  | arr as, arr bs => sameAll as bs
  | obj as, obj bs => sameMembers as bs
  | _, _ => false

/-- Whether two lists of values are the same in length and order. -/
def sameAll : List Json → List Json → Bool
  | [], [] => true
  | a :: as, b :: bs => same a b && sameAll as bs
  | _, _ => false

/-- Whether two lists of members are the same in length and order. -/
def sameMembers : List (String × Json) → List (String × Json) → Bool
  | [], [] => true
  | (name, a) :: as, (other, b) :: bs => name == other && same a b && sameMembers as bs
  | _, _ => false

end

mutual

theorem same_iff : (a b : Json) → (same a b = true ↔ a = b)
  | null, b => by cases b <;> simp [same]
  | bool _, b => by cases b <;> simp [same]
  | int _, b => by cases b <;> simp [same]
  | real _, b => by cases b <;> simp [same]
  | infinite _, b => by cases b <;> simp [same]
  | nan, b => by cases b <;> simp [same]
  | str _, b => by cases b <;> simp [same]
  | arr as, b => by cases b <;> simp [same, sameAll_iff as]
  | obj as, b => by cases b <;> simp [same, sameMembers_iff as]

theorem sameAll_iff : (as bs : List Json) → (sameAll as bs = true ↔ as = bs)
  | [], bs => by cases bs <;> simp [sameAll]
  | a :: as, bs => by cases bs <;> simp [sameAll, same_iff a, sameAll_iff as]

theorem sameMembers_iff : (as bs : List (String × Json)) → (sameMembers as bs = true ↔ as = bs)
  | [], bs => by cases bs <;> simp [sameMembers]
  | (name, a) :: as, bs => by
    cases bs <;> simp [sameMembers, same_iff a, sameMembers_iff as, Prod.ext_iff]

end

instance : DecidableEq Json := fun a b => decidable_of_iff _ (same_iff a b)

end TreeGrammar.Json
