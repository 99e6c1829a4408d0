import TreeGrammar.Cli.Report
import TreeGrammar.Grammar.OfJson

/-! Grammars loaded from files. -/
namespace TreeGrammar.Cli

def loadText (look : Lookup) (path : String) : Except Stop String :=
  match look.read path with
  | .error e => .error (.reported e.message)
  | .ok bytes =>
    match Text.decodeStrict bytes with
    | .error e => .error (.reported (encodingMessage e))
    | .ok text => .ok text

def loadGrammar (look : Lookup) (path : Argument) : Except Stop Grammar :=
  match path with
  | none => .error (.uncaught .noOperand)
  | some path => do
    match Grammar.ofText (← loadText look path) with
    | .error e => .error (.ofLoadError e)
    | .ok g => .ok g

end TreeGrammar.Cli
