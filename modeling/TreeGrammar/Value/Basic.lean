import TreeGrammar.Json.Literal
import TreeGrammar.Source

/-!
Results of matching: tuples for sequences, lists for repetitions, cases for alternatives, and what
is read off a leaf, its place and its text. A datum is a value that a caller's own matcher returns.
-/
namespace TreeGrammar

/-- The result of matching some nodes. -/
inductive Value where
  | tuple (values : List Value)
  | list (values : List Value)
  | case (index : Int) (value : Value)
  | loc (loc : Loc)
  | text (text : String)
  | datum (value : Json)
deriving Inhabited

namespace Value

/-- The result of a matcher that returns nothing of interest. -/
def unit : Value := tuple []

/-- Two results, one after the other. -/
def pair (first second : Value) : Value := tuple [first, second]

/-- The result of a leaf. -/
def leaf (place : Loc) (token : String) : Value := pair (loc place) (text token)

/-- The elements of a tuple, a single one being followed by a comma. -/
def tupleText : List String → String
  | [] => "()"
  | [element] => "(" ++ element ++ ",)"
  | elements => "(" ++ ", ".intercalate elements ++ ")"

mutual

def written : Value → String
  | tuple values => tupleText (writtenList values)
  | list values => "[" ++ ", ".intercalate (writtenList values) ++ "]"
  | case index value => "Case" ++ toString index ++ "(" ++ written value ++ ")"
  | loc place => place.written
  | text token => Text.quoted token
  | datum value => value.literal

def writtenList : List Value → List String
  | [] => []
  | value :: rest => written value :: writtenList rest

end

end Value

end TreeGrammar
