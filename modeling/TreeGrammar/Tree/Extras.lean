import TreeGrammar.Tree.Basic

/-!
Trees without the nodes that may occur anywhere, such as comments. The root always stays. The kinds
of the other nodes are looked up among the extras, so they cannot be lists and objects.
-/
namespace TreeGrammar.Tree

mutual

/-- A tree without the subtrees below its root whose kind is among the extras. -/
def withoutExtras (extras : List Label) : Tree → Tree
  | node kind loc children named missing =>
    node kind loc (keepOthers extras children) named missing

/-- The trees whose kind is not among the extras, each without the extras in it. -/
def keepOthers (extras : List Label) : List Tree → List Tree
  | [] => []
  | tree :: rest =>
    if Label.isAmong extras tree.kind then keepOthers extras rest
    else withoutExtras extras tree :: keepOthers extras rest

end

mutual

/-- Whether the nodes below the root of a tree have kinds that can be looked up. What lies below an
extra is not looked at. -/
def canLookUp (extras : List Label) : Tree → Bool
  | node _ _ children _ _ => canLookUpAll extras children

/-- Whether some nodes and those below them have kinds that can be looked up. -/
def canLookUpAll (extras : List Label) : List Tree → Bool
  | [] => true
  | tree :: rest =>
    tree.kind.isScalar && (Label.isAmong extras tree.kind || canLookUp extras tree) &&
      canLookUpAll extras rest

end

/-- A tree without extras, if its nodes and the extras can be compared. Where there are no extras
nothing is compared. -/
def stripped (extras : List Label) (tree : Tree) : Option Tree :=
  if extras.isEmpty then some tree
  else if extras.all Json.isScalar && canLookUp extras tree then some (withoutExtras extras tree)
  else none

end TreeGrammar.Tree
