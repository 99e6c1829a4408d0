import TreeGrammar.Cli.Load
import TreeGrammar.Grammar.Drawing

/-! The drawing program: loads a grammar and draws its rules. -/
namespace TreeGrammar.Cli.Draw

/-- One operand, the grammar. -/
def usage : Usage := ⟨[], 1⟩

/-- Draws the rules of a grammar, each followed by an empty line. -/
def drawings (g : Grammar) : String :=
  Piece.joinLines (g.rules.map Rule.drawn)

def command (look : Lookup) (args : List String) : Ending :=
  match usage.parse args with
  | .error e => .ofRefusal e
  | .ok given =>
    match loadGrammar look (given.operand? 0) with
    | .error (.reported message) =>
      .report (.failed ("ERROR: Failed to load grammar file: " ++ message))
    | .error (.uncaught e) => .uncaught e []
    | .ok g => .report ⟨0, drawings g, "", []⟩

end TreeGrammar.Cli.Draw
