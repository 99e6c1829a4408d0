import TreeGrammar.Code.Basic
import TreeGrammar.Code.Layout
import TreeGrammar.Script.Basic

/-!
The statements that a block is as text. Text of a caller is left out.
-/
namespace TreeGrammar.Code

open Script (Phrase Statements)

def Expr.phrase : Expr → Phrase
  | success => .name "combine.parse_success"
  | finish => .name "combine.parse_end"
  | ref name => .name name.name
  | rule name => .name ("self." ++ methodName name)
  | leaf kind => .call (.name "self._parse_leaf_rule") [.quoted kind.shown]
  | seq element tail => .call (.name "combine.parse_seq") [element.phrase, tail.phrase]
  | star element tail => .call (.name "combine.parse_repeat") [element.phrase, tail.phrase]
  | plus element tail => .call (.name "combine.parse_repeat1") [element.phrase, tail.phrase]
  | node kind children =>
    .call (.name "self._parse_rule") [.quoted kind.shown, children.phrase]
  | given _ => .tuple []

def Part.phrase (part : Part) : Phrase :=
  .name part.name

def Pattern.phrase : Pattern → Phrase
  | unit => .tuple []
  | part p => p.phrase
  | pair first second => .tuple [first.phrase, second.phrase]

def Wrap.phrase (wrap : Wrap) (inner : Phrase) : Phrase :=
  match wrap with
  | plain => inner
  | case index => .call (.name "combine.Case") [.name (toString index), inner]
  | around _ _ => .tuple []

def Regrouped.phrase : Regrouped → Phrase
  | unit => .tuple []
  | part p => p.phrase
  | tuple parts => .tuple (parts.map Part.phrase)
  | wrapped wrap inner => wrap.phrase inner.phrase
  | pair first second => .tuple [first.phrase, second.phrase]

/-- The call of a matcher with the nodes. -/
def Expr.callPhrase (matcher : Expr) : Phrase :=
  .call matcher.phrase [.name nodes]

def Block.statements : Block → Statements
  | define name body next => .define name.name body.statements next.statements
  | bind name value next => .assign (.name name.name) value.phrase next.statements
  | attempt matcher next =>
    .assign (.name "res") matcher.callPhrase
      (.whether "res" false (.ret (.name "res") .done) next.statements)
  | ret matcher => .ret matcher.callPhrase .done
  | regroup matcher pattern result =>
    .assign (.name "res") matcher.callPhrase
      (.whether "res" true (.ret (.name "None") .done)
        (.assign (.tuple [pattern.phrase, .name nodes]) (.name "res")
          (.ret (.tuple [result.phrase, .name nodes]) .done)))
  | insert _ next => next.statements
  | given _ => .done

/-- Statements after those of some definitions. -/
def statementsAfter (next : Statements) : List Def → Statements
  | [] => next
  | .function name body :: defs => .define name.name body.statements (statementsAfter next defs)
  | .given _ :: defs => statementsAfter next defs

end TreeGrammar.Code
