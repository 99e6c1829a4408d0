import TreeGrammar.Code.Meaning
import TreeGrammar.Matcher.Loop

/-!
The meaning of code whose repetitions are loops. Each loop gets as many rounds as are given for the
count of its nodes, and code that needs more of them comes to nothing. In all else it means what
code means.
-/
namespace TreeGrammar.Code

variable {m : Type → Type} [Monad m] [MonadExceptOf RunFault m] {ν : Type} (rounds : Nat → Nat)
  (host : Host (OptionT m) ν)

/-- The meaning of an expression within so many rounds for each loop. -/
def Expr.meaningWithin (env : Env (OptionT m) ν) : Expr → Matcher (OptionT m) ν
  | seq element tail => .seq (element.meaningWithin env) (tail.meaningWithin env)
  | star element tail =>
    .repetitionWithin rounds 0 (element.meaningWithin env) (tail.meaningWithin env)
  | plus element tail =>
    .repetitionWithin rounds 1 (element.meaningWithin env) (tail.meaningWithin env)
  | node kind children => host.nodeMatcher kind (children.meaningWithin env)
  | e => e.meaning host env

/-- The meaning of a block within so many rounds for each loop. -/
def Block.meaningWithin (env : Env (OptionT m) ν) : Block → Matcher (OptionT m) ν
  | define name body next =>
    next.meaningWithin (env.bind name (body.meaningWithin env))
  | bind name value next =>
    next.meaningWithin (env.bind name (value.meaningWithin rounds host env))
  | attempt matcher next => fun nodes => do
    match ← matcher.meaningWithin rounds host env nodes with
    | some found => pure (some found)
    | none => next.meaningWithin env nodes
  | ret matcher => matcher.meaningWithin rounds host env
  | regroup matcher pattern result => fun nodes => do
    match ← matcher.meaningWithin rounds host env nodes with
    | none => pure none
    | some (v, rest) => pure (some (← regrouped host.around pattern result v, rest))
  | insert _ next => next.meaningWithin env
  | given code => host.given code

end TreeGrammar.Code
