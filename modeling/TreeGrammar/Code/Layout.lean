import TreeGrammar.Code.Basic

/-!
Code as indented text. An application stands on one line if all its arguments do and the line is
at most 80 characters long; otherwise each argument has lines of its own that end with a comma.
-/
namespace TreeGrammar

namespace Code

/-- The greatest length of a line that holds an application. -/
def lineWidth : Nat := 80

/-- The text of code that is a single line. -/
def onlyLine? : List Piece → Option String
  | [.line text] => some text
  | _ => none

/-- Why text cannot be put after some code. -/
def openEnd? (code : List Piece) : Option CodeError :=
  match code.getLast? with
  | none => some .noCode
  | some (.line _) => none
  | some _ => some .notClosed

/-- Code with text put after its last line. -/
def withSuffix (suffix : String) : List Piece → List Piece
  | [] => []
  | [.line text] => [.line (text ++ suffix)]
  | piece :: rest => piece :: withSuffix suffix rest

/-- Code with text put after its last line, if it ends with a line. -/
def addSuffix (code : List Piece) (suffix : String) : Except CodeError (List Piece) :=
  match openEnd? code with
  | some e => .error e
  | none => .ok (withSuffix suffix code)

/-- An application on one line, if it fits. -/
def shortApplication? (func : String) (args : List (List Piece)) : Option String := do
  let texts ← args.mapM onlyLine?
  let text := func ++ "(" ++ ", ".intercalate texts ++ ")"
  if text.length ≤ lineWidth then some text else none

/-- An application of a function to arguments. -/
def application (func : String) (args : List (List Piece)) : List Piece :=
  match shortApplication? func args with
  | some text => [.line text]
  | none => [.line (func ++ "("), .block (args.flatMap (withSuffix ",")), .line ")"]

/-- Why an application cannot be laid out. -/
def applicationFault? (func : String) (args : List (List Piece)) : Option CodeError :=
  match shortApplication? func args with
  | some _ => none
  | none => args.findSome? openEnd?

/-- The call of a matcher with an argument, after some text. -/
def call (start : String) (matcher : List Piece) (arg : String) : List Piece :=
  match onlyLine? matcher with
  | some text => [.line (start ++ text ++ "(" ++ arg ++ ")")]
  | none => [.line (start ++ "("), .block matcher, .line (")(" ++ arg ++ ")")]

/-- What the matchers match. -/
def nodes : String := "nodes"

def methodName (rule : Label) : String := "parse_" ++ rule.shown

/-- The expression for the matcher of leaves. -/
def leafText (kind : Label) : String :=
  "self._parse_leaf_rule(" ++ kind.literal ++ ")"

namespace Expr

def pieces : Expr → List Piece
  | success => [.line "combine.parse_success"]
  | finish => [.line "combine.parse_end"]
  | ref name => [.line name.name]
  | rule name => [.line ("self." ++ methodName name)]
  | leaf kind => [.line (leafText kind)]
  | seq element tail => application "combine.parse_seq" [element.pieces, tail.pieces]
  | star element tail => application "combine.parse_repeat" [element.pieces, tail.pieces]
  | plus element tail => application "combine.parse_repeat1" [element.pieces, tail.pieces]
  | node kind children =>
    application "self._parse_rule" [[.line kind.literal], children.pieces]
  | given code => code

end Expr

/-- The definition of a function that matches `nodes`. -/
def functionPieces (name : Local) (body : List Piece) : List Piece :=
  [.line ("def " ++ name.name ++ "(nodes):"), .block body]

def bindingPieces (name : Local) (value : List Piece) : List Piece :=
  match onlyLine? value with
  | some text => [.line (name.name ++ " = " ++ text)]
  | none => [.line (name.name ++ " = ("), .block value, .line ")"]

/-- The result of a matcher, returned if there is one. -/
def attemptPieces (matcher : List Piece) : List Piece :=
  call "res = " matcher nodes ++ [.line "if res is not None:", .block [.line "return res"]]

/-- The result of a matcher, put together anew. -/
def regroupPieces (matcher : List Piece) (pattern result : String) : List Piece :=
  call "res = " matcher nodes ++
    [.line "if res is None:",
      .block [.line "return None"],
      .line (pattern ++ ", nodes = res"),
      .line ("return " ++ result ++ ", nodes")]

namespace Block

def pieces : Block → List Piece
  | define name body next => functionPieces name body.pieces ++ next.pieces
  | bind name value next => bindingPieces name value.pieces ++ next.pieces
  | attempt matcher next => attemptPieces matcher.pieces ++ next.pieces
  | ret matcher => call "return " matcher.pieces nodes
  | regroup matcher pattern result => regroupPieces matcher.pieces pattern.text result.text
  | insert code next => code ++ next.pieces
  | given code => code

end Block

def Def.pieces : Def → List Piece
  | function name body => functionPieces name body.pieces
  | given code => code

def defPieces (defs : List Def) : List Piece :=
  defs.flatMap Def.pieces

def Fragment.written : Fragment → String
  | term t =>
    "Fun(" ++ Piece.writtenAll t.expr.pieces ++ ", " ++ Piece.writtenAll (defPieces t.defs) ++ ")"
  | block b => "Body(" ++ Piece.writtenAll b.pieces ++ ")"

end Code

end TreeGrammar
