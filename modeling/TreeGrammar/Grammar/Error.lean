import TreeGrammar.Label

/-! What can be wrong with a grammar. -/
namespace TreeGrammar

/-- A fault of a grammar. -/
inductive GrammarError where
  /-- Two rules have one name. -/
  | duplicateRule (name : Label)
  /-- There is no rule at all. -/
  | noRules
  /-- A body is of no known kind. -/
  | unknownKind (kind : Json)
  /-- A rule without a node of its own would be expanded inside itself. -/
  | recursiveInlining (chain : List String)
  /-- The entrypoint is not the name of a rule. -/
  | noEntrypoint (name : String)
  /-- A body refers to a rule that does not exist. -/
  | undefinedSymbol (symbol rule : Label)
  /-- A choice has no alternatives. -/
  | emptyChoice (rule : Label)
  /-- A sequence has no elements. -/
  | emptySequence (rule : Label)

def GrammarError.message : GrammarError → String
  | duplicateRule name => "Rule " ++ name.literal ++ " is defined more than once"
  | noRules => "The grammar has no rules"
  | unknownKind kind => "Unknown rule type " ++ kind.literal
  | recursiveInlining chain => "Rules can't be inlined recursively: " ++ " -> ".intercalate chain
  | noEntrypoint name => "Entrypoint " ++ Text.quoted name ++ " is not a rule"
  | undefinedSymbol symbol rule =>
    "Symbol " ++ symbol.literal ++ " occurring in rule " ++ rule.literal ++
      " does not refer to a rule"
  | emptyChoice rule => "Empty choice in rule " ++ rule.literal
  | emptySequence rule => "Empty sequence in rule " ++ rule.literal

end TreeGrammar
