import TreeGrammar.Grammar.Basic

/-!
Grammars as text. The short form is close to how grammars are written by hand, and a symbol has one
only if its name is a text; the constructor form names every constructor and quotes every text.
-/
namespace TreeGrammar

namespace Body

mutual

def short : Body → Option String
  | symbol (.str name) => some name
  | symbol _ => none
  | literal text => some text.literal
  | pattern text => some ("/" ++ text.shown ++ "/")
  | blank => some "()"
  | star body => do pure ("(" ++ (← short body) ++ ")*")
  | plus body => do pure ("(" ++ (← short body) ++ ")+")
  | choice bodies => do pure ("(" ++ " | ".intercalate (← shorts bodies) ++ ")")
  | seq bodies => do pure ("(" ++ " ".intercalate (← shorts bodies) ++ ")")

def shorts : List Body → Option (List String)
  | [] => some []
  | body :: rest => do
    let first ← short body
    let others ← shorts rest
    pure (first :: others)

end

mutual

def written : Body → String
  | symbol name => "Symbol(" ++ name.literal ++ ")"
  | literal text => "String(" ++ text.literal ++ ")"
  | pattern text => "Pattern(" ++ text.literal ++ ")"
  | blank => "Blank()"
  | star body => "Repeat(" ++ written body ++ ")"
  | plus body => "Repeat1(" ++ written body ++ ")"
  | choice bodies => "Choice([" ++ ", ".intercalate (writtenList bodies) ++ "])"
  | seq bodies => "Seq([" ++ ", ".intercalate (writtenList bodies) ++ "])"

def writtenList : List Body → List String
  | [] => []
  | body :: rest => written body :: writtenList rest

end

end Body

def Rule.short (rule : Rule) : Option String := do
  pure (rule.name.shown ++ ": " ++ (← rule.body.short))

def Rule.written (rule : Rule) : String :=
  "Rule(" ++ rule.name.literal ++ ", " ++ rule.body.written ++ ")"

namespace Grammar

/-- The short form of a grammar, a line for each rule. -/
def short (g : Grammar) : Option String := do
  pure ("\n".intercalate (← g.rules.mapM Rule.short))

/-- The constructor form of a grammar, with a line for each rule. -/
def written (g : Grammar) : String :=
  "\n".intercalate
    (("Grammar(" ++ Text.quoted g.entrypoint ++ ", [") ::
      g.rules.map (fun rule => "    " ++ rule.written ++ ",") ++
      ["], [" ++ ", ".intercalate (g.extras.map Json.literal) ++ "])"])

end Grammar

end TreeGrammar
