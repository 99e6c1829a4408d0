import TreeGrammar.Tree.Basic

/-!
Trees read from JSON. A node is an object with the members `type`, `startPosition`, `endPosition`,
`children`, `isNamed` and `isMissing`; the last three may be left out. The members are read in this
order, and the first that is not there is reported. Their values are kept as they are.
-/
namespace TreeGrammar

/-- Why a value is not read as a tree. -/
inductive TreeReadError where
  /-- A member that is needed is not there. -/
  | missingMember (name : String)
  /-- A value is of the wrong kind. -/
  | wrongShape

namespace Tree

/-- A member that has to be there. -/
def needed (name : String) : Json → Except TreeReadError Json
  | .obj members =>
    match Json.member name members with
    | some value => .ok value
    | none => .error (.missingMember name)
  | _ => .error .wrongShape

def positionOf (value : Json) : Except TreeReadError Position := do
  let row ← needed "row" value
  let column ← needed "column" value
  pure ⟨row, column⟩

/-- A mark, with a value for when it is left out. -/
def mark (name : String) (default : Bool) (members : List (String × Json)) : Json :=
  (Json.member name members).getD (.bool default)

mutual

def ofJson : Json → Except TreeReadError Tree
  | .obj members => do
    let kind ← needed "type" (.obj members)
    let start ← positionOf (← needed "startPosition" (.obj members))
    let finish ← positionOf (← needed "endPosition" (.obj members))
    let children ← childrenOf members
    pure (.node kind ⟨start, finish⟩ children (mark "isNamed" true members)
      (mark "isMissing" false members))
  | _ => .error .wrongShape

/-- The trees of the member that holds the children. -/
def childrenOf : List (String × Json) → Except TreeReadError (List Tree)
  | [] => .ok []
  | (name, value) :: rest => if name = "children" then listOf value else childrenOf rest

/-- The trees that a list writes. A value that counts as false is an empty list. -/
def listOf : Json → Except TreeReadError (List Tree)
  | .arr values => ofJsonList values
  | value => if value.isTrue then .error .wrongShape else .ok []

def ofJsonList : List Json → Except TreeReadError (List Tree)
  | [] => .ok []
  | value :: rest => do
    let tree ← ofJson value
    let others ← ofJsonList rest
    pure (tree :: others)

end

end Tree

end TreeGrammar
