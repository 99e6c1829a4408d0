import TreeGrammar.Cli.Load
import TreeGrammar.Code.Module
import TreeGrammar.Grammar.Drawing

/-!
The generator: loads a grammar, checks it, and writes the module for it. Nothing is written before
the grammar has been checked.
-/
namespace TreeGrammar.Cli.Generate

/-- The options of the generator and its one operand, the grammar. -/
def usage : Usage where
  flags :=
    [⟨"quiet", ["-q", "--quiet"], false⟩,
      ⟨"verbose", ["-v", "--verbose"], false⟩,
      ⟨"output", ["-o", "--output"], true⟩,
      ⟨"entrypoint", ["-e", "--entrypoint"], true⟩]
  operands := 1

/-- Where the module goes if no file is given. -/
def defaultOutput : String := "parse.py"

/-- What the command line asks for. -/
structure Request where
  grammar : Argument
  output : Argument
  entrypoint : Argument
  quiet : Bool
  verbose : Bool

def Request.ofGiven (given : Given) : Request where
  grammar := given.operand? 0
  output := (given.value? "output").getD defaultOutput
  entrypoint := (given.value? "entrypoint").join
  quiet := given.has "quiet"
  verbose := given.has "verbose"

/-- The grammar of a request, checked, with its entrypoint. An empty name, or one that is lost, asks
for no other entrypoint. -/
def loadChecked (look : Lookup) (request : Request) : Except Stop Grammar := do
  let loaded ← loadGrammar look request.grammar
  let g := match request.entrypoint with
    | none | some "" => loaded
    | some name => loaded.withEntrypoint name
  match g.check with
  | .error e => .error (.reported e.message)
  | .ok () => .ok g

/-- Why a file is not opened for the module. -/
def outputFault (look : Lookup) (path : String) : Option String :=
  if !(".py".toList.isSuffixOf path.toList) then some "Your output file must be a .py file"
  else (look.writeFault path).map FileError.message

/-- The texts of some labels, if all of them are texts. -/
def textsOf : List Label → Option (List String)
  | [] => some []
  | .str s :: rest => (textsOf rest).map (s :: ·)
  | _ :: _ => none

/-- What is printed about a grammar, if its names and extras are texts. -/
def grammarText (g : Grammar) (verbose : Bool) : Option String := do
  let rules ← g.rules.mapM Rule.short
  let extras ← textsOf g.extras
  let drawings := if verbose then "Grammar Tree:" :: g.rules.map Rule.drawn else []
  let last := if extras.isEmpty then [] else ["Extras: " ++ ", ".intercalate extras]
  pure (Piece.joinLines
    (drawings ++ ["Grammar:"] ++ rules.map (fun text => "  " ++ text) ++
      ["Entrypoint: " ++ g.entrypoint] ++ last))

def timeText (elapsed : Signed) (rules names : Nat) : String :=
  timeLine elapsed (toString rules ++ " rules; " ++ toString names ++ " local matchers") ++
    "(Can't find psutil; install it for memory stats.)\n"

/-- What is printed after the module is written. -/
def outputText (request : Request) (elapsed : Signed) (g : Grammar) (names : Nat) :
    Option String := do
  let first ← if request.quiet then some "" else grammarText g request.verbose
  pure (first ++ if request.verbose then timeText elapsed g.rules.length names else "")

/-- The text of a module for a checked grammar, and how many names it took. -/
def moduleText (g : Grammar) (fileName : String) : Except Stop (String × Nat) :=
  match Code.build g with
  | .error (.grammar e) => .error (.reported e.message)
  | .error (.code e) => .error (.uncaught (.code e))
  | .ok build =>
    match build.module.text fileName with
    | .error e => .error (.uncaught (.layout e))
    | .ok text => .ok (text, build.names)

/-- The end of a run after the given writes. -/
def stopped (writes : List (String × String)) : Stop → Ending
  | .reported message => .report { Report.failed ("ERROR: " ++ message) with writes }
  | .uncaught e => .uncaught e writes

/-- Opens the output, which empties it, writes the module to it, and prints. -/
def writeModule (request : Request) (output : String) (elapsed : Signed) (g : Grammar) : Ending :=
  let opened := [(output, "")]
  match moduleText g (request.grammar.getD "") with
  | .error e => stopped opened e
  | .ok (text, names) =>
    let writes := opened ++ [(output, text)]
    match outputText request elapsed g names with
    | some printed => .report ⟨0, printed, "", writes⟩
    | none => .uncaught .labelNotText writes

def run (look : Lookup) (elapsed : Signed) (request : Request) : Ending :=
  match loadChecked look request with
  | .error e => stopped [] e
  | .ok g =>
    match request.output with
    | none => .uncaught .noOutput []
    | some output =>
      match outputFault look output with
      | some message => stopped [] (.reported message)
      | none => writeModule request output elapsed g

def command (look : Lookup) (elapsed : Signed) (args : List String) : Ending :=
  match usage.parse args with
  | .error e => .ofRefusal e
  | .ok given => run look elapsed (.ofGiven given)

end TreeGrammar.Cli.Generate
