import TreeGrammar.Code.Layout

/-!
Continuations: the matcher for the rest of a sequence, and how many results it returns. Sequences
are built from the right. The results are nested pairs, of which only the first `kept` count; the
last one may come from a matcher that returns nothing of interest, such as the check that no node
is left.
-/
namespace TreeGrammar.Code

/-- The making of code: names are numbered in turn, also where it fails later. -/
abbrev Gen (α : Type) := ExceptT CodeError (StateM Nat) α

/-- The matcher for the rest of a sequence. -/
structure Continuation where
  /-- How many results the matcher returns. -/
  captured : Int
  /-- How many of them are of interest. -/
  kept : Int
  code : Fragment

def Fragment.ofExpr (e : Expr) : Fragment :=
  .term ⟨e, []⟩

/-- The number of the next name. -/
def freshId : Gen Nat := do
  modify (· + 1)
  get

/-- Code as an expression. Statements become the body of a function. -/
def Fragment.toTerm : Fragment → Gen Term
  | .term t => pure t
  | .block b => do
    let name := Local.function (← freshId)
    pure ⟨.ref name, [.function name b]⟩

/-- The fault of an expression as the argument of an application, if there is one. -/
def Expr.fault? : Expr → Option CodeError
  | .seq element tail => applicationFault? "combine.parse_seq" [element.pieces, tail.pieces]
  | .star element tail => applicationFault? "combine.parse_repeat" [element.pieces, tail.pieces]
  | .plus element tail => applicationFault? "combine.parse_repeat1" [element.pieces, tail.pieces]
  | .node kind children =>
    applicationFault? "self._parse_rule" [[.line kind.literal], children.pieces]
  | _ => none

/-- An expression that joins the given ones, with the definitions of all. -/
def Term.joined (expr : Expr) (defs : List Def) : Except CodeError Term :=
  match expr.fault? with
  | some e => .error e
  | none => .ok ⟨expr, defs⟩

/-- Two matchers joined by a combinator. -/
def Term.join (combine : Expr → Expr → Expr) (a b : Term) : Except CodeError Term :=
  Term.joined (combine a.expr b.expr) (a.defs ++ b.defs)

/-- The function that a caller names, applied to matchers. -/
def Term.apply (func : String) (args : List Term) : Except CodeError Term :=
  let codes := args.map fun t => t.expr.pieces
  match applicationFault? func codes with
  | some e => .error e
  | none => .ok ⟨.given (application func codes), args.flatMap Term.defs⟩

namespace Continuation

/-- The end of a sequence whose rest is not looked at. -/
def done : Continuation :=
  ⟨0, 0, .ofExpr .success⟩

/-- The end of a sequence after which no node may be left. -/
def atEnd : Continuation :=
  ⟨0, 0, .ofExpr .finish⟩

/-- A continuation, or the end of the sequence. -/
def orDone (next : Option Continuation) : Continuation :=
  next.getD done

def mapCode (f : Fragment → Fragment) (next : Continuation) : Continuation :=
  { next with code := f next.code }

/-- One more result of interest in front. `add` puts its matcher in front of that of the rest; at
the end of a sequence the rest returns one result that is of no interest. -/
def prependOne (next : Option Continuation) (add : Fragment → Gen Fragment) : Gen Continuation :=
  match next with
  | none => do pure ⟨2, 1, ← add (.ofExpr .finish)⟩
  | some next =>
    if 0 ≤ next.kept ∧ next.kept ≤ next.captured then
      if next.captured = 0 then do pure ⟨2, 1, ← add next.code⟩
      else do pure ⟨next.captured + 1, next.kept + 1, ← add next.code⟩
    else throw .badCount

/-- A matcher in front, joined to the rest by a combinator. -/
def prependWith (combine : Expr → Expr → Expr) (element : Term) (next : Option Continuation) :
    Gen Continuation :=
  prependOne next fun tail => do pure (.term (← Term.join combine element (← tail.toTerm)))

/-- A matcher in front of a sequence. -/
def prependNext (element : Term) (next : Option Continuation) : Gen Continuation :=
  prependWith .seq element next

/-- The code that takes the first `count` results together to one tuple; nothing has to be done
where the pattern and the result have the same text. -/
def regroup (count : Int) (next : Continuation) (wrap : Wrap) : Gen Fragment := do
  let pattern ← nestedPairs count next.captured
  let result ← flatTuple count next.kept wrap
  if pattern.text = result.text then pure next.code
  else
    let t ← next.code.toTerm
    pure (.block ((Block.regroup t.expr pattern result).after t.defs))

/-- The first `count` results of a sequence taken together to one tuple. The results that are of
no interest are dropped unless some of interest follow. -/
def flattenHead (count : Int) (next : Option Continuation) (wrap : Wrap) :
    Gen (Option Continuation) := do
  let whole := orDone next
  if 0 ≤ count ∧ count ≤ whole.kept ∧ whole.kept ≤ whole.captured then
    if count = 0 then pure next
    else
      let code ← regroup count whole wrap
      if count < whole.kept then
        pure (some ⟨whole.captured - count + 1, whole.kept - count + 1, code⟩)
      else pure (some ⟨1, 1, code⟩)
  else throw .badCount

/-- The code of a whole sequence, its results of interest taken together to one tuple. -/
def flatten (next : Option Continuation) (wrap : Wrap) : Gen Fragment := do
  let count := match next with
    | none => 0
    | some next => next.kept
  pure (orDone (← flattenHead count next wrap)).code

end Continuation

end TreeGrammar.Code
