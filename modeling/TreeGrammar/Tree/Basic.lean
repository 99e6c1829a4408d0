import TreeGrammar.Label
import TreeGrammar.Source

/-!
Concrete syntax trees: a node has a kind, a stretch of the source and children. A node may be
missing from the source, put in to repair it. Kinds are texts and the two marks truth values as a
rule, but whatever value a tree is given with is kept.
-/
namespace TreeGrammar

/-- A node of a concrete syntax tree. -/
inductive Tree where
  | node (kind : Label) (loc : Loc) (children : List Tree) (named missing : Json)
deriving Inhabited

namespace Tree

def kind : Tree → Label
  | node kind _ _ _ _ => kind

/-- The stretch of the source that a node covers. -/
def loc : Tree → Loc
  | node _ loc _ _ _ => loc

def children : Tree → List Tree
  | node _ _ children _ _ => children

/-- The mark of a node whose kind is a name of its grammar. -/
def named : Tree → Json
  | node _ _ _ named _ => named

/-- The mark of a node that was put in to repair the source. -/
def missing : Tree → Json
  | node _ _ _ _ missing => missing

mutual

def size : Tree → Nat
  | node _ _ children _ _ => sizes children + 1

def sizes : List Tree → Nat
  | [] => 0
  | tree :: rest => size tree + sizes rest

end

mutual

def written : Tree → String
  | node kind _ [] _ _ => "Node(" ++ kind.literal ++ ")"
  | node kind _ (child :: rest) _ _ =>
    "Node(" ++ kind.literal ++ ", [" ++
      ", ".intercalate (written child :: writtenList rest) ++ "])"

def writtenList : List Tree → List String
  | [] => []
  | tree :: rest => written tree :: writtenList rest

end

/-- What a reader sees of the nodes that come next: the place and kind of the first. -/
def shown : List Tree → Option String
  | [] => some "<end>"
  | tree :: _ => do pure ((← tree.loc.start.short) ++ ": " ++ tree.kind.shown)

end Tree

end TreeGrammar
