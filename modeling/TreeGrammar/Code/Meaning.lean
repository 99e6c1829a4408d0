import TreeGrammar.Code.Basic
import TreeGrammar.Matcher.Repetition

/-!
The meaning of code. An expression means a matcher, and so does a block: it says what is returned
for `nodes`. Names mean what they were bound to by the statements before. What nodes are, and what
the matchers of rules and the text of callers mean, is up to a host.
-/
namespace TreeGrammar.Code

/-- What goes wrong when code is run. -/
inductive RunFault where
  /-- A name is used that is not bound. -/
  | unbound (name : Local)
  /-- The matcher of a rule is used that does not exist. -/
  | noSuchRule (name : Label)
  /-- A value does not have the form of the pattern that takes it apart. -/
  | wrongForm
  /-- Text of a caller is run that has no meaning. -/
  | noMeaning
  /-- A label is used that holds a number without a form in code. -/
  | noNumber (label : Label)
  /-- A node has no place in its source. -/
  | noPlace (fault : PlaceFault)
  /-- The row of a node is shown, but it is not a number. -/
  | noRow
  /-- A kind of nodes or an extra cannot be looked up. -/
  | noLookup
deriving DecidableEq

/-- What the code of a module relies on. -/
structure Host (m : Type → Type) (ν : Type) where
  /-- The kind of a node. -/
  kind : ν → Label
  /-- The place and text of a node. -/
  leaf : ν → m Value
  /-- The children of a node. -/
  children : ν → List ν
  /-- The matcher of a rule. -/
  rule : Label → Matcher m ν
  /-- The meaning of the text of a caller. -/
  given : List Piece → Matcher m ν
  /-- The meaning of the text of a caller around an expression. -/
  around : Around

/-- The matchers that names are bound to. -/
abbrev Env (m : Type → Type) (ν : Type) := Local → Option (Matcher m ν)

/-- No names. -/
def Env.empty {m : Type → Type} {ν : Type} : Env m ν :=
  fun _ => none

/-- The names with one more. -/
def Env.bind {m : Type → Type} {ν : Type} (env : Env m ν) (name : Local) (f : Matcher m ν) :
    Env m ν :=
  fun other => if other = name then some f else env other

variable {m : Type → Type} [Monad m] [MonadExceptOf RunFault m] {ν : Type}

/-- The matcher of leaves of a kind. Numbers that are not finite have no form in code. -/
def Host.leafMatcher (host : Host m ν) (kind : Label) : Matcher m ν :=
  if kind.isFinite then
    .node fun n => do
      if (host.kind n).alike kind then pure (some (← host.leaf n)) else pure none
  else fun _ => throw (.noNumber kind)

/-- The matcher of nodes of a kind whose children another matcher accepts. -/
def Host.nodeMatcher (host : Host m ν) (kind : Label) (children : Matcher m ν) : Matcher m ν :=
  .node fun n => do
    if (host.kind n).alike kind then
      match ← children (host.children n) with
      | some (v, _) => pure (some v)
      | none => pure none
    else pure none

/-- The meaning of an expression. -/
def Expr.meaning (host : Host m ν) (env : Env m ν) : Expr → Matcher m ν
  | success => .success
  | finish => .finish
  | ref name => fun nodes =>
    match env name with
    | some f => f nodes
    | none => throw (.unbound name)
  | rule name => host.rule name
  | leaf kind => host.leafMatcher kind
  | seq element tail => .seq (element.meaning host env) (tail.meaning host env)
  | star element tail => .star (element.meaning host env) (tail.meaning host env)
  | plus element tail => .plus (element.meaning host env) (tail.meaning host env)
  | node kind children => host.nodeMatcher kind (children.meaning host env)
  | given code => host.given code

/-- A value taken apart by a pattern and put together anew. -/
def regrouped (around : Around) (pattern : Pattern) (result : Regrouped) (v : Value) : m Value :=
  match (pattern.bind v).bind fun parts => result.value around parts with
  | some w => pure w
  | none => throw .wrongForm

/-- The meaning of a block. -/
def Block.meaning (host : Host m ν) (env : Env m ν) : Block → Matcher m ν
  | define name body next => next.meaning host (env.bind name (body.meaning host env))
  | bind name value next => next.meaning host (env.bind name (value.meaning host env))
  | attempt matcher next => fun nodes => do
    match ← matcher.meaning host env nodes with
    | some found => pure (some found)
    | none => next.meaning host env nodes
  | ret matcher => matcher.meaning host env
  | regroup matcher pattern result => fun nodes => do
    match ← matcher.meaning host env nodes with
    | none => pure none
    | some (v, rest) => pure (some (← regrouped host.around pattern result v, rest))
  | insert _ next => next.meaning host env
  | given code => host.given code

end TreeGrammar.Code
