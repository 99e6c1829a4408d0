import TreeGrammar.Json.Literal

/-!
Indented text as a tree of pieces. A block is one level deeper than what stands around it, a
spliced list is at the same level, and a space is an empty line. A foreign piece is a value that
has no lines; laying it out is an error.
-/
namespace TreeGrammar

/-- A piece of indented text. -/
inductive Piece where
  | line (text : String)
  | space
  | block (pieces : List Piece)
  | splice (pieces : List Piece)
  | foreign (value : Json)
deriving Inhabited

/-- A value was laid out that is no piece. -/
structure ForeignPiece where
  value : Json

def ForeignPiece.message (e : ForeignPiece) : String :=
  "Not an indentation tree node: " ++ e.value.literal

namespace Piece

/-- The blanks in front of a line. A level below zero has none. -/
def indentation (level : Int) : String :=
  String.ofList (List.replicate (4 * level.toNat) ' ')

mutual

def lines (level : Int) : Piece → Except ForeignPiece (List String)
  | line text => .ok [indentation level ++ text]
  | space => .ok [""]
  | block pieces => linesOf (level + 1) pieces
  | splice pieces => linesOf level pieces
  | foreign value => .error ⟨value⟩

/-- The lines of some pieces at the given level. -/
def linesOf (level : Int) : List Piece → Except ForeignPiece (List String)
  | [] => .ok []
  | piece :: rest => do
    let first ← lines level piece
    let others ← linesOf level rest
    pure (first ++ others)

end

/-- Lines as one text, each ended by a line feed. -/
def joinLines (lines : List String) : String :=
  String.join (lines.map (· ++ "\n"))

def textOf (pieces : List Piece) : Except ForeignPiece String := do
  let lines ← linesOf 0 pieces
  pure (joinLines lines)

mutual

/-- A piece in the notation of its constructors. -/
def written : Piece → String
  | line text => "Line(" ++ Text.quoted text ++ ")"
  | space => "Space()"
  | block pieces => "Block([" ++ ", ".intercalate (writtenList pieces) ++ "])"
  | splice pieces => "Inline([" ++ ", ".intercalate (writtenList pieces) ++ "])"
  | foreign value => value.literal

/-- Some pieces in the notation of their constructors. -/
def writtenList : List Piece → List String
  | [] => []
  | piece :: rest => written piece :: writtenList rest

end

/-- A list of pieces in constructor notation. -/
def writtenAll (pieces : List Piece) : String :=
  "[" ++ ", ".intercalate (writtenList pieces) ++ "]"

end Piece

end TreeGrammar
