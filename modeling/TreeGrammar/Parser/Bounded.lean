import TreeGrammar.Code.Bounded
import TreeGrammar.Parser.Basic

/-!
Running a module with its methods calling each other. A method is looked up by its name each time,
it gets the nodes themselves, and it may be one of the methods that are running already. How deep
calls go and how often loops go round is bounded, and a run that needs more comes to nothing.
-/
namespace TreeGrammar.Parser

open Code

/-- What a run may use. -/
structure Budget where
  /-- How many methods may be running at once. -/
  depth : Nat
  /-- How many rounds a loop may take over a count of nodes. -/
  rounds : Nat → Nat

namespace Setting

variable (s : Setting)

/-- What the code of the module relies on, the methods of rules being called as given. -/
def hostCalling (rule : Label → Matcher (OptionT Run) Tree) : Host (OptionT Run) Tree where
  kind := Tree.kind
  leaf tree :=
    match s.src.token tree.loc with
    | .ok token => pure (.leaf tree.loc token)
    | .error fault => throwThe RunFault (.noPlace fault)
  children := Tree.children
  rule := rule
  given _ _ := throwThe RunFault .noMeaning
  around _ _ _ := none

/-- Calls the method of a rule and keeps the journal, while at most so many methods are running. -/
def callWithin (rounds : Nat → Nat) : Nat → RestForm → Label → Matcher (OptionT Run) Tree
  | 0, _, _ => fun _ => failure
  | depth + 1, form, rule => fun nodes => do
    let host := s.hostCalling (callWithin rounds depth .tuple)
    let answer : OptionT Run (Match Tree) :=
      match s.method? rule with
      | none => throwThe RunFault (.noSuchRule rule)
      | some method => method.block.meaningWithin rounds host .empty nodes
    if s.verbose then
      enter rule nodes
      let found ← answer
      leave rule form found
      pure found
    else answer

/-- The value of a tree without syntax errors. -/
def valueWithin (budget : Budget) (root : Tree) : OptionT Run (Option Value) :=
  match root.stripped s.module.extras with
  | none => throwThe RunFault .noLookup
  | some tree =>
    Matcher.onRoot (s.callWithin budget.rounds budget.depth .list s.module.entrypoint) tree

end Setting

/-- Parses a tree within a budget. There is no outcome if that is used up. -/
def parseWithin (s : Setting) (budget : Budget) (root : Tree) :
    Except RunFault (Option (Outcome × List String)) :=
  match root.faults s.src with
  | .error fault => .error (.noPlace fault)
  | .ok (fault :: rest) => .ok (some (.syntaxErrors (fault :: rest), []))
  | .ok [] =>
    match (s.valueWithin budget root).run.run Journal.empty with
    | .error e => .error e
    | .ok (none, _) => .ok none
    | .ok (some (some v), journal) => .ok (some (.parsed v, journal.written))
    | .ok (some none, journal) => .ok (some (.noMatch, journal.written))

end TreeGrammar.Parser
