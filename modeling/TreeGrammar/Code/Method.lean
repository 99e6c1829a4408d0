import TreeGrammar.Code.Compile
import TreeGrammar.Code.Identifier
import TreeGrammar.Grammar.Written
import TreeGrammar.Text.Lines

/-!
Rules compiled to methods. A leaf rule returns the place and text of its node; any other rule
matches the children of its node, of which none may be left.
-/
namespace TreeGrammar.Code

/-- The method of a rule: the name of the rule, a comment, its statements, and the name that the
method goes by. -/
structure Method where
  rule : Label
  comment : String
  block : Block
  id : String := methodId rule
  id_eq : id = methodId rule := by rfl

/-- The comment of a method: the short form of its rule on one line. -/
def commentOf (rule : Rule) : Gen String :=
  match rule.short with
  | some text => pure (Text.onOneLine text)
  | none => throw .nameNotText

/-- The expression for the children of the nodes of a rule, with the definitions it needs. -/
def compileChildren (body : Body) : Gen Term := do
  (← Continuation.flatten (← compile (some .atEnd) body) .plain).toTerm

/-- The statements of the method of a rule. -/
def compileBlock (rule : Rule) : Gen Block :=
  if rule.isLeaf then pure (.ret (.leaf rule.name))
  else do
    let children ← compileChildren rule.body
    let t ← Term.joined (.node rule.name children.expr) children.defs
    pure ((Block.ret t.expr).after t.defs)

def compileRule (rule : Rule) : Gen Method := do
  let comment ← commentOf rule
  let block ← compileBlock rule
  pure { rule := rule.name, comment, block }

def Method.pieces (method : Method) : List Piece :=
  [.line "@logger",
    .line ("def " ++ methodName method.rule ++ "(self, nodes):"),
    .block (.line ("# " ++ method.comment) :: method.block.pieces)]

end TreeGrammar.Code
