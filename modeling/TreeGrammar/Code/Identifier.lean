import TreeGrammar.Code.Layout
import TreeGrammar.Text.Normal

/-!
The names that methods go by when a module is run. Two spellings of one name are the same, and
blanks after a name are no part of it. Where two rules have one name, the later method counts.
-/
namespace TreeGrammar.Code

/-- Blanks that may stand after a name in code. -/
def isGap (c : Char) : Bool :=
  c = ' ' || c = '\t' || c = '\x0c'

/-- The name that the method of a rule goes by. -/
def methodId (rule : Label) : String :=
  let letters := (methodName rule).toList.reverse.dropWhile isGap
  Text.normalForm (String.ofList letters.reverse)

end TreeGrammar.Code
