import TreeGrammar.Code.Meaning
import TreeGrammar.Cli.Files
import TreeGrammar.Cli.Options
import TreeGrammar.Decimal.Signed
import TreeGrammar.Grammar.LoadError
import TreeGrammar.Text.Utf8
import TreeGrammar.Tree.OfJson

/-! How a program ends: what it prints and writes, or the error that stops it. -/
namespace TreeGrammar.Cli

/-- An error that a program does not handle. -/
inductive Uncaught where
  | load (error : LoadError)
  | tree (error : TreeReadError)
  | json (error : Json.ReadError)
  | file (error : FileError)
  | encoding (error : Text.Utf8Error)
  | code (error : CodeError)
  | layout (error : ForeignPiece)
  | run (error : Code.RunFault)
  /-- An operand is lost. -/
  | noOperand
  /-- The path of the output is lost. -/
  | noOutput
  /-- Something is printed that is not a text. -/
  | labelNotText

/-- What a program prints and writes. Writes are in order, and opening a file for writing empties
it. -/
structure Report where
  exit : Nat
  output : String
  errors : String
  writes : List (String × String)

/-- The end of a program. -/
inductive Ending where
  /-- The command line does not follow the usage. -/
  | misuse
  /-- The command line asks for help. -/
  | help
  | report (report : Report)
  /-- An error that is not handled, after some writes. -/
  | uncaught (error : Uncaught) (writes : List (String × String))

def Report.failed (message : String) : Report :=
  ⟨1, "", message ++ "\n", []⟩

/-- The end for a command line that is not run. -/
def Ending.ofRefusal : Refusal → Ending
  | .misuse => .misuse
  | .help => .help

/-- An error on the way to a grammar: one to report, or one that is not handled. -/
inductive Stop where
  | reported (message : String)
  | uncaught (error : Uncaught)

def encodingMessage (e : Text.Utf8Error) : String :=
  let place :=
    if e.length ≤ 1 then
      "byte 0x" ++ String.ofList (Text.hexDigits 2 e.byte.toNat) ++ " in position " ++
        toString e.offset
    else "bytes in position " ++ toString e.offset ++ "-" ++ toString (e.offset + e.length - 1)
  let reason := match e.fault with
    | .badStart => "invalid start byte"
    | .badContinuation => "invalid continuation byte"
    | .truncated => "unexpected end of data"
  "'utf-8' codec can't decode " ++ place ++ ": " ++ reason

def readMessage : Json.ReadError → String
  | .malformed => "<bad json>"
  | .tooManyDigits count =>
    "Exceeds the limit (" ++ toString Json.Reader.digitLimit ++
      " digits) for integer string conversion: value has " ++ toString count ++
      " digits; use sys.set_int_max_str_digits() to increase the limit"

/-- Faults of grammars and of their text are reported, wrong shapes are not handled. -/
def Stop.ofLoadError : LoadError → Stop
  | .unreadable e => .reported (readMessage e)
  | .grammar e => .reported e.message
  | e => .uncaught (.load e)

/-- A line with the time that a program took, which is negative if the clock was set back. -/
def timeLine (elapsed : Signed) (counts : String) : String :=
  "Total time: " ++ elapsed.withPlaces 3 ++ " sec; " ++ counts ++ "\n"

end TreeGrammar.Cli
