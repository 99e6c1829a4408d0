import TreeGrammar.Tree.Basic

/-!
Outlines of trees. An outline gives kinds and the texts of leaves; laying it out on one line of
source, with a blank between two leaves, gives a source and its tree. An inner node covers what its
children cover, or nothing at the place reached if it has none.
-/
namespace TreeGrammar

/-- The kinds of a tree with the texts of its leaves. -/
inductive Outline where
  | leaf (kind : Label) (text : String)
  | inner (kind : Label) (children : List Outline)

namespace Outline

/-- What is laid out so far: the texts of the leaves, last one first, and the column reached. -/
structure Pen where
  texts : List String
  column : Nat

/-- The pen after a blank that separates leaves, if there is a leaf before. -/
def Pen.gap (pen : Pen) : Pen :=
  if pen.texts.isEmpty then pen else ⟨pen.texts, pen.column + 1⟩

/-- The place that is reached. -/
def Pen.place (pen : Pen) : Position :=
  .at 0 pen.column

/-- The stretch that some siblings cover, or nothing at the given place. -/
def cover (place : Position) (children : List Tree) : Loc :=
  ⟨(children.head?.map fun t => t.loc.start).getD place,
    (children.getLast?.map fun t => t.loc.finish).getD place⟩

mutual

/-- Lays out a tree after what the pen has written. -/
def place (pen : Pen) : Outline → Tree × Pen
  | leaf kind text =>
    let start := pen.gap
    let finish : Pen := ⟨text :: start.texts, start.column + (Text.encodeUtf8 text).length⟩
    (.node kind ⟨start.place, finish.place⟩ [] (.bool true) (.bool false), finish)
  | inner kind children =>
    let (trees, after) := placeAll pen children
    (.node kind (cover after.place trees) trees (.bool true) (.bool false), after)

/-- Lays out some siblings from left to right. -/
def placeAll (pen : Pen) : List Outline → List Tree × Pen
  | [] => ([], pen)
  | child :: rest =>
    let (tree, pen) := place pen child
    let (trees, pen) := placeAll pen rest
    (tree :: trees, pen)

end

/-- The text of the laid out leaves. -/
def Pen.text (pen : Pen) : String :=
  " ".intercalate pen.texts.reverse

/-- The source of an outline and its tree. -/
def layOut (outline : Outline) : Source × Tree :=
  let (tree, pen) := place ⟨[], 0⟩ outline
  (.ofText pen.text, tree)

end Outline

end TreeGrammar
