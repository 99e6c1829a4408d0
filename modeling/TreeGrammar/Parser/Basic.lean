import TreeGrammar.Code.Module
import TreeGrammar.Parser.Journal
import TreeGrammar.Tree.Extras
import TreeGrammar.Tree.Faults

/-!
Running a module on a tree. The method of a rule looks at the first node alone, and beyond its kind
at its children, so every node of a tree is marked with what the methods answer for it. A tree with
syntax errors is not parsed, and extras are taken out of a tree before it is.
-/
namespace TreeGrammar.Parser

open Code

/-- A node with what the methods of rules answer for it. -/
inductive Marked where
  | mk (tree : Tree) (children : List Marked) (answer : Label → Run (Option Value))

namespace Marked

def tree : Marked → Tree
  | mk tree _ _ => tree

def children : Marked → List Marked
  | mk _ children _ => children

/-- What the method of a rule answers. -/
def answer : Marked → Label → Run (Option Value)
  | mk _ _ answer => answer

end Marked

/-- What a parse is run with: the module, the source, and whether a journal is kept. -/
structure Setting where
  module : Module
  src : Source
  verbose : Bool

namespace Setting

/-- The method of a rule: the last one of its name. -/
def method? (s : Setting) (rule : Label) : Option Method :=
  let name := methodId rule
  s.module.methods.reverse.find? fun method => method.id == name

/-- The place and text of a node. -/
def leaf (s : Setting) (n : Marked) : Run Value :=
  match s.src.token n.tree.loc with
  | .ok token => pure (.leaf n.tree.loc token)
  | .error fault => throw (.noPlace fault)

/-- What the method of a rule answers for some nodes. -/
def answer (s : Setting) (rule : Label) : Matcher Run Marked
  | [] => if (s.method? rule).isSome then pure none else throw (.noSuchRule rule)
  | n :: rest => do
    match ← n.answer rule with
    | some v => pure (some (v, rest))
    | none => pure none

/-- A match of plain nodes. -/
def plain (found : Match Marked) : Match Tree :=
  found.map fun (v, rest) => (v, rest.map Marked.tree)

/-- Calls the method of a rule and keeps the journal. -/
def callMethod (s : Setting) (form : RestForm) (rule : Label) : Matcher Run Marked :=
  fun nodes => do
    if s.verbose then
      enter rule (nodes.map Marked.tree)
      let found ← s.answer rule nodes
      leave rule form (plain found)
      pure found
    else s.answer rule nodes

/-- What the code of the module relies on. -/
def host (s : Setting) : Host Run Marked where
  kind n := n.tree.kind
  leaf := s.leaf
  children := Marked.children
  rule := s.callMethod .tuple
  given _ _ := throw .noMeaning
  around _ _ _ := none

/-- Runs the method of a rule on a node whose children are marked. -/
def runMethod (s : Setting) (tree : Tree) (children : List Marked) (rule : Label) :
    Run (Option Value) := do
  match s.method? rule with
  | none => throw (.noSuchRule rule)
  | some method =>
    let found ← method.block.meaning s.host .empty [.mk tree children fun _ => pure none]
    pure (found.map Prod.fst)

mutual

/-- A tree with its nodes marked. -/
def mark (s : Setting) : Tree → Marked
  | .node kind loc children named missing =>
    let marked := markAll s children
    .mk (.node kind loc children named missing) marked
      (s.runMethod (.node kind loc children named missing) marked)

def markAll (s : Setting) : List Tree → List Marked
  | [] => []
  | tree :: rest => mark s tree :: markAll s rest

end

/-- The value of a tree without syntax errors. -/
def value (s : Setting) (root : Tree) : Run (Option Value) :=
  match root.stripped s.module.extras with
  | none => throw .noLookup
  | some tree => Matcher.onRoot (s.callMethod .list s.module.entrypoint) (s.mark tree)

end Setting

/-- How a parse ends. -/
inductive Outcome where
  | syntaxErrors (faults : List TreeFault)
  | noMatch
  | parsed (value : Value)

/-- Parses a tree; besides how that ends the lines of the journal are returned. -/
def parse (s : Setting) (root : Tree) : Except RunFault (Outcome × List String) :=
  match root.faults s.src with
  | .error fault => .error (.noPlace fault)
  | .ok (fault :: rest) => .ok (.syntaxErrors (fault :: rest), [])
  | .ok [] =>
    match (s.value root).run Journal.empty with
    | .error e => .error e
    | .ok (some v, journal) => .ok (.parsed v, journal.written)
    | .ok (none, journal) => .ok (.noMatch, journal.written)

end TreeGrammar.Parser
