import TreeGrammar.Grammar.Written
import TreeGrammar.Layout.Piece

/-!
Rules drawn as trees, a line for each node. A branch is drawn by what stands in front of a line:
first a column for each ancestor, a bar where more of its siblings follow, then the connector of
the node itself.
-/
namespace TreeGrammar

/-- The connector of a node. -/
def connector (last : Bool) : String :=
  if last then "└──" else "├──"

/-- The column under a node. -/
def column (last : Bool) : String :=
  if last then "   " else "│  "

namespace Body

mutual

/-- The lines of a body. Bodies without parts show their constructor form. -/
def drawing (columns : String) (last : Bool) : Body → List String
  | symbol name => [columns ++ connector last ++ written (symbol name)]
  | literal text => [columns ++ connector last ++ written (literal text)]
  | pattern text => [columns ++ connector last ++ written (pattern text)]
  | blank => [columns ++ connector last ++ written blank]
  | star body =>
    (columns ++ connector last ++ "Repeat") :: drawing (columns ++ column last) true body
  | plus body =>
    (columns ++ connector last ++ "Repeat1") :: drawing (columns ++ column last) true body
  | choice [] => [columns ++ connector last ++ written (choice [])]
  | choice (body :: rest) =>
    (columns ++ connector last ++ "Choice") ::
      (drawing (columns ++ column last) rest.isEmpty body ++
        drawings (columns ++ column last) rest)
  | seq [] => [columns ++ connector last ++ written (seq [])]
  | seq (body :: rest) =>
    (columns ++ connector last ++ "Seq") ::
      (drawing (columns ++ column last) rest.isEmpty body ++
        drawings (columns ++ column last) rest)

def drawings (columns : String) : List Body → List String
  | [] => []
  | body :: rest => drawing columns rest.isEmpty body ++ drawings columns rest

end

end Body

def Rule.drawing (rule : Rule) : List String :=
  (connector true ++ "Rule " ++ rule.name.shown) :: rule.body.drawing (column true) true

def Rule.drawn (rule : Rule) : String :=
  Piece.joinLines rule.drawing

end TreeGrammar
