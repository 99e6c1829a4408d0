import Mathlib.Data.List.DropRight
import TreeGrammar.Code.Meaning
import TreeGrammar.Script.Basic

/-!
What statements do. Each call of a function has a frame with the names that are assigned in its
body, and a name is looked up in the innermost frame whose function assigns it, at the time of its
use. A function value that was defined in code knows how many frames are around its definition. Only
results are returned, so the frames around a function are still there whenever it is called.
-/
namespace TreeGrammar.Script

open Code (RunFault Host)

/-- A value that is called with nodes. -/
inductive Function where
  | success
  | finish
  | rule (name : Label)
  | leaf (kind : Label)
  | node (kind : Label) (children : Function)
  | seq (element tail : Function)
  | star (element tail : Function)
  | plus (element tail : Function)
  /-- Defined in code, with so many frames around it. -/
  | closure (depth : Nat) (body : Statements)

/-- What makes matchers of matchers and of texts, and marked values. -/
inductive Combinator where
  | seq
  | star
  | plus
  | node
  | leaf
  | mark

/-- What names are bound to and expressions come to. -/
inductive Datum (ν : Type) where
  | nothing
  | input (nodes : List ν)
  | value (value : Value)
  /-- A value and the nodes that are left. -/
  | result (value : Value) (rest : List ν)
  | function (function : Function)
  | combinator (combinator : Combinator)
  | index (index : Nat)

/-- The names that are local to a call, and what some of them are bound to, the latest first. -/
structure Frame (ν : Type) where
  locals : List String
  vars : List (String × Datum ν)

/-- The frames around a place, the innermost first. -/
abbrev Chain (ν : Type) := List (Frame ν)

/-- The names of an expression that is assigned to. -/
def Phrase.targets : Phrase → List String
  | .name word => [word]
  | .tuple parts => targetsOf parts
  | .quoted _ | .call _ _ => []
where
  targetsOf : List Phrase → List String
    | [] => []
    | part :: rest => part.targets ++ targetsOf rest

/-- The names that statements assign, those of functions inside them aside. -/
def Statements.assigned : Statements → List String
  | done => []
  | define name _ next => name :: next.assigned
  | assign target _ next => target.targets ++ next.assigned
  | whether _ _ body next => body.assigned ++ next.assigned
  | ret _ next => next.assigned

/-- The number that a word is. -/
def indexOf? (word : String) : Option Nat :=
  if word.toList.all Char.isDigit && !word.toList.isEmpty then
    some (Nat.ofDigitChars 10 word.toList 0)
  else none

/-- The rule that a word names the method of. -/
def ruleOf? (word : String) : Option String :=
  let start := "self.parse_".toList
  if start.isPrefixOf word.toList then some (String.ofList (word.toList.drop start.length))
  else none

variable {ν : Type}

/-- What is bound outside of all functions, and what is a member of something that is. -/
def outside : List (String × Datum ν) :=
  [("None", .nothing),
    ("combine.parse_success", .function .success),
    ("combine.parse_end", .function .finish),
    ("combine.parse_seq", .combinator .seq),
    ("combine.parse_repeat", .combinator .star),
    ("combine.parse_repeat1", .combinator .plus),
    ("combine.Case", .combinator .mark),
    ("self._parse_rule", .combinator .node),
    ("self._parse_leaf_rule", .combinator .leaf)]

/-- What a word stands for that is no variable of a function. -/
def constant? (word : String) : Option (Datum ν) :=
  (indexOf? word).map .index <|>
    ((ruleOf? word).map fun name => .function (.rule (.str name))) <|> outside.lookup word

namespace Chain

/-- What a variable is bound to now. -/
def lookUp (chain : Chain ν) (word : String) : Option (Datum ν) :=
  match chain with
  | [] => none
  | frame :: outer => if word ∈ frame.locals then frame.vars.lookup word else lookUp outer word

/-- A variable of the innermost frame is assigned. -/
def assign (chain : Chain ν) (word : String) (datum : Datum ν) : Chain ν :=
  match chain with
  | [] => []
  | frame :: outer => { frame with vars := (word, datum) :: frame.vars } :: outer

/-- The frames as they were around the definition of a function that has `depth` of them. -/
def around (chain : Chain ν) (depth : Nat) : Chain ν :=
  chain.rtake depth

end Chain

def Datum.isNothing : Datum ν → Bool
  | .nothing => true
  | _ => false

def Datum.value? : Datum ν → Option Value
  | .value v => some v
  | _ => none

/-- A tuple of values is a value, and a value with nodes is a result. -/
def tupleOf : List (Datum ν) → Option (Datum ν)
  | [.value v, .input rest] => some (.result v rest)
  | parts => (parts.mapM Datum.value?).map fun vs => .value (.tuple vs)

/-- The parts of a tuple. -/
def Datum.parts? : Datum ν → Option (List (Datum ν))
  | .value (.tuple vs) => some (vs.map .value)
  | .result v rest => some [.value v, .input rest]
  | _ => none

mutual

/-- Assigns a value to an expression: to a name, or its parts to those of a tuple. -/
def unpack (chain : Chain ν) (datum : Datum ν) : Phrase → Option (Chain ν)
  | .name word => some (chain.assign word datum)
  | .tuple targets => do unpackAll chain (← datum.parts?) targets
  | .quoted _ | .call _ _ => none

def unpackAll (chain : Chain ν) (data : List (Datum ν)) : List Phrase → Option (Chain ν)
  | [] => if data.isEmpty then some chain else none
  | target :: targets =>
    match data with
    | [] => none
    | datum :: data => do unpackAll (← unpack chain datum target) data targets

end

def Datum.ofMatch : Match ν → Datum ν
  | none => .nothing
  | some (v, rest) => .result v rest

def Datum.match? : Datum ν → Option (Match ν)
  | .nothing => some none
  | .result v rest => some (some (v, rest))
  | _ => none

variable {m : Type → Type} [Monad m] [MonadExceptOf RunFault m]

/-- A value, or the fault of code that does something without meaning. -/
def orFault {α : Type} : Option α → m α
  | some a => pure a
  | none => throw .noMeaning

/-- The application of a value to others. -/
def Datum.apply (call : Function → Matcher m ν) : Datum ν → List (Datum ν) → m (Datum ν)
  | .function f, [.input nodes] => do pure (.ofMatch (← call f nodes))
  | .combinator .seq, [.function f, .function g] => pure (.function (.seq f g))
  | .combinator .star, [.function f, .function g] => pure (.function (.star f g))
  | .combinator .plus, [.function f, .function g] => pure (.function (.plus f g))
  | .combinator .node, [.value (.text kind), .function f] => pure (.function (.node (.str kind) f))
  | .combinator .leaf, [.value (.text kind)] => pure (.function (.leaf (.str kind)))
  | .combinator .mark, [.index i, .value v] => pure (.value (.case i v))
  | _, _ => throw .noMeaning

mutual

/-- What an expression comes to where functions do what `call` says. -/
def Phrase.eval (call : Function → Matcher m ν) (chain : Chain ν) : Phrase → m (Datum ν)
  | .name word => orFault (constant? word <|> chain.lookUp word)
  | .quoted text => pure (.value (.text text))
  | .call func args => do
    let func ← func.eval call chain
    func.apply call (← evalAll call chain args)
  | .tuple parts => do orFault (tupleOf (← evalAll call chain parts))

def evalAll (call : Function → Matcher m ν) (chain : Chain ν) : List Phrase → m (List (Datum ν))
  | [] => pure []
  | phrase :: rest => do
    let datum ← phrase.eval call chain
    pure (datum :: (← evalAll call chain rest))

end

/-- How statements end: with a value to be returned, or with the frames after them. -/
inductive Ending (ν : Type) where
  | returned (datum : Datum ν)
  | continued (chain : Chain ν)

/-- Runs statements where functions, given the frames of their caller, do what `call` says. -/
def Statements.exec (call : Chain ν → Function → Matcher m ν) (chain : Chain ν) :
    Statements → m (Ending ν)
  | done => pure (.continued chain)
  | define name body next =>
    next.exec call (chain.assign name (.function (.closure chain.length body)))
  | assign target value next => do
    match unpack chain (← value.eval (call chain) chain) target with
    | some chain => next.exec call chain
    | none => throw .wrongForm
  | whether name isNone body next => do
    let datum ← orFault (chain.lookUp name)
    if datum.isNothing = isNone then
      match ← body.exec call chain with
      | .returned datum => pure (.returned datum)
      | .continued chain => next.exec call chain
    else next.exec call chain
  | ret value _ => do pure (.returned (← value.eval (call chain) chain))

/-- The frame of a call with nodes. -/
def Statements.frame (body : Statements) (nodes : List ν) : Frame ν :=
  ⟨"nodes" :: body.assigned, [("nodes", .input nodes)]⟩

/-- Runs statements as the body of a function. Where nothing is returned the result is nothing. -/
def Statements.run (call : Chain ν → Function → Matcher m ν) (outer : Chain ν) (body : Statements) :
    Matcher m ν := fun nodes => do
  match ← body.exec call (body.frame nodes :: outer) with
  | .returned datum => orFault datum.match?
  | .continued _ => pure none

/-- What a function does where functions that were defined in code do what `run` says. -/
def Function.matcher (host : Host m ν) (run : Nat → Statements → Matcher m ν) :
    Function → Matcher m ν
  | success => .success
  | finish => .finish
  | rule name => host.rule name
  | leaf kind => host.leafMatcher kind
  | node kind children => host.nodeMatcher kind (children.matcher host run)
  | seq element tail => .seq (element.matcher host run) (tail.matcher host run)
  | star element tail => .star (element.matcher host run) (tail.matcher host run)
  | plus element tail => .plus (element.matcher host run) (tail.matcher host run)
  | closure depth body => run depth body

/-- What a function does where calls of functions that were defined in code are nested at most
`limit` deep. -/
def invoke (host : Host m ν) : (limit : Nat) → Chain ν → Function → Matcher m ν
  | 0, _, f => f.matcher host fun _ _ _ => throw .noMeaning
  | limit + 1, chain, f =>
    f.matcher host fun depth body => body.run (invoke host limit) (chain.around depth)

section
variable (host : Host m ν) (limit : Nat) (outer : Chain ν)

/-- What text does in the frame of a call with nodes. -/
def execText (pieces : List Piece) (nodes : List ν) : m (Ending ν) := do
  let body ← orFault (read pieces)
  body.exec (invoke host limit) (body.frame nodes :: outer)

/-- Text as the body of a function. -/
def runText (pieces : List Piece) : Matcher m ν := fun nodes => do
  match ← execText host limit outer pieces nodes with
  | .returned datum => orFault datum.match?
  | .continued _ => pure none

/-- What a word is bound to after some text that returns nothing. -/
def runTextFor (word : String) (pieces : List Piece) : Matcher m ν := fun nodes => do
  match ← execText host limit outer pieces nodes with
  | .returned _ => throw .noMeaning
  | .continued chain => orFault ((chain.lookUp word).bind Datum.match?)

/-- What an expression comes to after some text that returns nothing, and the frames then. -/
def evalText (defs expr : List Piece) (nodes : List ν) : m (Chain ν × Datum ν) := do
  match ← execText host limit outer defs nodes with
  | .returned _ => throw .noMeaning
  | .continued chain =>
    let phrase ← orFault (readPhrase expr)
    pure (chain, ← phrase.eval (invoke host limit chain) chain)

end

end TreeGrammar.Script
