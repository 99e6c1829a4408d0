import TreeGrammar.Code.Tuple
import TreeGrammar.Label
import TreeGrammar.Layout.Piece

/-!
Emitted code. An expression stands for a matcher; a block is a list of statements that gives the
result of matching `nodes`. An expression may need definitions that come before the statement it
is used in. Text that a caller supplies is kept as it is.
-/
namespace TreeGrammar.Code

/-- A name that code defines for itself. -/
inductive Local where
  /-- A function for a block that is needed as an expression. -/
  | function (id : Nat)
  /-- What follows a choice. -/
  | tail (id : Nat)
  /-- An alternative of a choice. -/
  | case (id index : Nat)
deriving DecidableEq, Repr

def Local.name : Local → String
  | function id => "_parse_" ++ toString id
  | tail id => "_parse_tail_" ++ toString id
  | case id index => "_parse_case_" ++ toString id ++ "_" ++ toString index

/-- An expression for a matcher. -/
inductive Expr where
  /-- Uses no node. -/
  | success
  /-- Matches where no node is left. -/
  | finish
  /-- A name that is defined before. -/
  | ref (name : Local)
  /-- The matcher of a rule. -/
  | rule (name : Label)
  /-- Matches a node of the given kind and returns its place and text. -/
  | leaf (kind : Label)
  | seq (element tail : Expr)
  | star (element tail : Expr)
  | plus (element tail : Expr)
  /-- Matches a node of the given kind whose children another matcher accepts. -/
  | node (kind : Label) (children : Expr)
  /-- The text of a caller. -/
  | given (code : List Piece)

/-- Statements that return the result of matching `nodes`. -/
inductive Block where
  /-- Defines a function that matches `nodes`. -/
  | define (name : Local) (body next : Block)
  /-- Binds a name to a matcher. -/
  | bind (name : Local) (value : Expr) (next : Block)
  /-- Returns the result of a matcher if it has one. -/
  | attempt (matcher : Expr) (next : Block)
  /-- Returns the result of a matcher. -/
  | ret (matcher : Expr)
  /-- Returns the result of a matcher with its value put together anew. -/
  | regroup (matcher : Expr) (pattern : Pattern) (result : Regrouped)
  /-- Statements of a caller, and more. -/
  | insert (code : List Piece) (next : Block)
  /-- Statements of a caller. -/
  | given (code : List Piece)

/-- A definition that an expression needs. -/
inductive Def where
  | function (name : Local) (body : Block)
  /-- The text of a caller. -/
  | given (code : List Piece)

/-- An expression and the definitions it needs. -/
structure Term where
  expr : Expr
  defs : List Def

/-- A matcher in code, as an expression or as statements. -/
inductive Fragment where
  | term (term : Term)
  | block (block : Block)

/-- A block after some definitions. -/
def Block.after (defs : List Def) (block : Block) : Block :=
  defs.foldr (fun d next =>
    match d with
    | .function name body => .define name body next
    | .given code => .insert code next) block

/-- Code as statements. -/
def Fragment.toBlock : Fragment → Block
  | term t => (Block.ret t.expr).after t.defs
  | block b => b

/-- Statements that try matchers in turn and return the first result. -/
def Block.firstOf : List Expr → Except CodeError Block
  | [] => .error .emptyGroup
  | [matcher] => .ok (.ret matcher)
  | matcher :: rest => do pure (.attempt matcher (← firstOf rest))

end TreeGrammar.Code
