import TreeGrammar.Cli.Report
import TreeGrammar.Parser.Basic
import TreeGrammar.Value.Pretty

/-!
The parsing program of a module: reads a source and its tree, parses the tree and prints the value.
-/
namespace TreeGrammar.Cli.Parse

/-- The options of the program and its operands, the source and the tree. -/
def usage : Usage where
  flags := [⟨"verbose", ["-v", "--verbose"], false⟩, ⟨"quiet", ["-q", "--quiet"], false⟩]
  operands := 2

/-- What the command line asks for. -/
structure Request where
  source : Argument
  tree : Argument
  verbosity : Nat
  quiet : Bool

def Request.ofGiven (given : Given) : Request where
  source := given.operand? 0
  tree := given.operand? 1
  verbosity := given.count "verbose"
  quiet := given.has "quiet"

def loadBytes (look : Lookup) (path : Argument) : Except Uncaught (String × List UInt8) :=
  match path with
  | none => .error .noOperand
  | some path =>
    match look.read path with
    | .error e => .error (.file e)
    | .ok bytes => .ok (path, bytes)

/-- The text of the tree: that of a file, or the standard input for a dash or an empty path. -/
def treeText (look : Lookup) (input : String) (path : Argument) : Except Uncaught String :=
  if path = some "" ∨ path = some "-" then .ok input
  else do
    let (_, bytes) ← loadBytes look path
    match Text.decodeStrict bytes with
    | .error e => .error (.encoding e)
    | .ok text => .ok text

def readTree (text : String) : Except Uncaught Tree :=
  match Json.ofText text with
  | .error e => .error (.json e)
  | .ok value =>
    match Tree.ofJson value with
    | .error e => .error (.tree e)
    | .ok tree => .ok tree

/-- Lines for each second, where any time has passed. -/
def rateText (lines : Nat) (elapsed : Signed) : String :=
  if elapsed.size.num = 0 then ""
  else
    let sign := if elapsed.negative then "-" else ""
    match Binary.nearest (Ratio.quotient ⟨lines, 1⟩ elapsed.size) with
    | some rate => "; " ++ sign ++ rate.toRatio.withPlaces 0 ++ " lines/sec"
    | none => "; " ++ sign ++ "inf lines/sec"

def valueText (request : Request) (elapsed : Signed) (lines : Nat) (v : Value) : String :=
  (if request.quiet then "" else v.pretty 0 0 ++ "\n") ++
    (if request.verbosity = 0 then ""
    else timeLine elapsed (toString lines ++ " lines" ++ rateText lines elapsed))

/-- What stands for a report that has no text, since the row of a fault is not a number. -/
def noReport : String := "<exception str() failed>"

/-- What is printed for the way a parse ends, after the journal. -/
def outcomeReport (request : Request) (elapsed : Signed) (src : Source) (journal : String) :
    Parser.Outcome → Report
  | .syntaxErrors faults =>
    let text := (faultReport src.path faults).getD noReport
    ⟨1, journal, "cstgen.runtime.ParseError: " ++ text ++ "\n", []⟩
  | .noMatch => ⟨1, journal, src.path ++ ": parse failure\n", []⟩
  | .parsed v => ⟨0, journal ++ valueText request elapsed src.lineCount v, "", []⟩

def run (module : Code.Module) (look : Lookup) (input : String) (elapsed : Signed)
    (request : Request) : Except Uncaught Report := do
  let (path, bytes) ← loadBytes look request.source
  let src : Source := ⟨bytes, path⟩
  let tree ← readTree (← treeText look input request.tree)
  match Parser.parse ⟨module, src, 2 ≤ request.verbosity⟩ tree with
  | .error e => .error (.run e)
  | .ok (outcome, journal) =>
    pure (outcomeReport request elapsed src (Piece.joinLines journal) outcome)

def command (module : Code.Module) (look : Lookup) (input : String) (elapsed : Signed)
    (args : List String) : Ending :=
  match usage.parse args with
  | .error e => .ofRefusal e
  | .ok given =>
    match run module look input elapsed (.ofGiven given) with
    | .error e => .uncaught e []
    | .ok report => .report report

end TreeGrammar.Cli.Parse
