import TreeGrammar.Matcher.Basic

/-!
Repetitions. The nodes are cut into slices that the element uses up, shorter slices first; once
no further slice can be added the tail is tried on what is left, and if it fails the last slice is
made longer. What the tail and the element do depends on the slices alone, so a place from which
everything has failed is remembered and not tried again. Places are told apart by the number of
nodes from them to the end.
-/
namespace TreeGrammar.Matcher

variable {m : Type → Type} [Monad m] {ν : Type}

/-- The end of a search: a match, or the places from which there is none. -/
inductive Found (ν : Type) where
  | found (value : Value) (rest : List ν)
  | exhausted (dead : List Nat)

/-- Looks for a repetition. The slice that starts at the current place has the nodes `front`, and
`back` are the nodes after it; `values` are those of the elements before, last one first; `dead`
are the places from which there is no match. -/
def search (element tail : Matcher m ν) (least : Nat) :
    (front back : List ν) → (values : List Value) → (dead : List Nat) → m (Found ν)
  | front, [], values, dead =>
    if least ≤ values.length then do
      match ← tail front with
      | some (v, rest) => pure (.found (.pair (.list values.reverse) v) rest)
      | none => pure (.exhausted (front.length :: dead))
    else pure (.exhausted (front.length :: dead))
  | front, n :: back, values, dead =>
    if back.length ∈ dead then search element tail least (front ++ [n]) back values dead
    else do
      match ← element (front ++ [n]) with
      | some (v, []) =>
        match ← search element tail least [] back (v :: values) dead with
        | .found w rest => pure (.found w rest)
        | .exhausted dead => search element tail least (front ++ [n]) back values dead
      | _ => search element tail least (front ++ [n]) back values dead

/-- At least `least` elements, then the tail. The value is the list of the elements' values paired
with the value of the tail. -/
def repetition (least : Nat) (element tail : Matcher m ν) : Matcher m ν := fun nodes => do
  match ← search element tail least [] nodes [] [] with
  | .found v rest => pure (some (v, rest))
  | .exhausted _ => pure none

/-- Any number of elements, then the tail. -/
def star (element tail : Matcher m ν) : Matcher m ν :=
  repetition 0 element tail

/-- One or more elements, then the tail. -/
def plus (element tail : Matcher m ν) : Matcher m ν :=
  repetition 1 element tail

end TreeGrammar.Matcher
