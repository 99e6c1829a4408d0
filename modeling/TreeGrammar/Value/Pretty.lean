import TreeGrammar.Text.Lines
import TreeGrammar.Value.Basic

/-!
Values laid out for readers, at most 80 columns wide where they can be broken: tuples and lists
between their elements, and texts at line ends and blanks. Cases and places stay on one line.
-/
namespace TreeGrammar

/-- The width that lines are to keep. -/
def pageWidth : Int := 80

/-- Line feed and the blanks of the next line. -/
def lineStart (indent : Nat) : String :=
  "\n" ++ String.ofList (List.replicate indent ' ')

/-- Words with the blanks after them; each part but the first starts with a word. `word` and
`blanks` are the part read so far, last character first. -/
def words (word blanks : List Char) : List Char → List (List Char)
  | [] => if word.isEmpty && blanks.isEmpty then [] else [(blanks ++ word).reverse]
  | c :: rest =>
    if Text.isBlank c then words word (c :: blanks) rest
    else if blanks.isEmpty then words (c :: word) [] rest
    else (blanks ++ word).reverse :: words [c] [] rest

def quotedLength (cs : List Char) : Int :=
  (Text.quoteChars cs).length

/-- Joins parts to chunks whose quoted form fits. `last` is the width for the last part. -/
def joinParts (width last : Int) (current : List Char) : List (List Char) → List (List Char)
  | [] => if current.isEmpty then [] else [current]
  | part :: rest =>
    let candidate := current ++ part
    if (if rest.isEmpty then last else width) < quotedLength candidate then
      if current.isEmpty then joinParts width last part rest
      else current :: joinParts width last part rest
    else joinParts width last candidate rest

/-- The chunks of the lines of a text: a line that fits is one chunk. -/
def chunks (width last : Int) : List (List Char) → List (List Char)
  | [] => []
  | line :: rest =>
    let limit := if rest.isEmpty then last else width
    (if quotedLength line ≤ limit then [line] else joinParts width limit [] (words [] [] line)) ++
      chunks width last rest

/-- A text that starts at column `indent` and leaves `allowance` columns free after its end. The
empty text is one chunk. -/
def prettyText (s : String) (indent allowance : Nat) : String :=
  let width := pageWidth - indent
  let parts := match s.toList with
    | [] => [[]]
    | cs => chunks width (width - allowance) (Text.splitLinesKeeping cs)
  (lineStart indent).intercalate (parts.map fun cs => String.ofList (Text.quoteChars cs))

namespace Value

mutual

/-- A value that starts at column `indent` and leaves `allowance` columns free after its end. -/
def pretty (value : Value) (indent allowance : Nat) : String :=
  let whole := value.written
  if (whole.length : Int) ≤ pageWidth - indent - allowance then whole
  else
    match value with
    | tuple [value] => "( " ++ pretty value (indent + 2) (allowance + 2) ++ ",)"
    | tuple values => "( " ++ prettyList values (indent + 2) (allowance + 1) ++ ")"
    | list values => "[ " ++ prettyList values (indent + 2) (allowance + 1) ++ "]"
    | text token => prettyText token indent allowance
    | _ => whole

/-- The elements of a tuple or list, a line for each. -/
def prettyList (values : List Value) (indent allowance : Nat) : String :=
  match values with
  | [] => ""
  | [value] => pretty value indent allowance
  | value :: rest =>
    pretty value indent 1 ++ "," ++ lineStart indent ++ prettyList rest indent allowance

end

end Value

end TreeGrammar
