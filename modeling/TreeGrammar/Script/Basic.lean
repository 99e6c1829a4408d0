import TreeGrammar.Layout.Piece
import TreeGrammar.Script.Phrase

/-!
Statements read from indented text. Where a parenthesis is open a line goes on with the lines after
it, however they are indented. A definition and a condition take the block that follows.
-/
namespace TreeGrammar.Script

/-- The statements that occur in code. -/
inductive Statements where
  | done
  /-- A function of `nodes`. -/
  | define (name : String) (body next : Statements)
  | assign (target value : Phrase) (next : Statements)
  /-- Statements that are run only if a name is bound to nothing, or only if it is not. -/
  | whether (name : String) (isNone : Bool) (body next : Statements)
  | ret (value : Phrase) (next : Statements)

/-- How many parentheses are open after a token. -/
def nestingAfter (depth : Nat) : Token → Nat
  | .opening => depth + 1
  | .closing => depth - 1
  | _ => depth

/-- How many parentheses are open after some tokens. -/
def nesting (tokens : List Token) : Nat :=
  tokens.foldl nestingAfter 0

/-- Lines put together to the tokens of statements, and the blocks between them. -/
inductive Passage where
  | done
  | line (tokens : List Token) (next : Passage)
  | suite (inner next : Passage)

mutual

/-- The tokens so far with those of a piece that stands between parentheses. -/
def continuedBy (tokens : List Token) : Piece → Option (List Token)
  | .line text => do
    let tokens := tokens ++ (← tokensOf text)
    if nesting tokens = 0 then none else some tokens
  | .block inner => continued tokens inner
  | .space => some tokens
  | .splice _ | .foreign _ => none

/-- The tokens so far with those of pieces that stand between parentheses. -/
def continued (tokens : List Token) : List Piece → Option (List Token)
  | [] => some tokens
  | piece :: rest => do continued (← continuedBy tokens piece) rest

end

mutual

/-- The passage of a piece and of what follows it, after the tokens of a line that is not
complete. -/
def passageBy (tokens : List Token) (rest : List Token → Option Passage) : Piece → Option Passage
  | .line text => do
    let tokens := tokens ++ (← tokensOf text)
    if nesting tokens = 0 then (rest []).map (.line tokens) else rest tokens
  | .block inner =>
    if tokens = [] then do
      let suite ← passageFrom [] inner
      (rest []).map (.suite suite)
    else (continued tokens inner).bind rest
  | .space => rest tokens
  | .splice _ | .foreign _ => none

/-- The passage of pieces after the tokens of a line that is not complete. -/
def passageFrom (tokens : List Token) : List Piece → Option Passage
  | [] => if tokens = [] then some .done else none
  | piece :: rest => passageBy tokens (fun tokens => passageFrom tokens rest) piece

end

/-- What a line by itself says. -/
inductive Heading where
  | define (name : String)
  | assign (target value : Phrase)
  | whether (name : String) (isNone : Bool)
  | ret (value : Phrase)

/-- What a line that assigns nothing says. -/
def keywordOf : List Token → Option Heading
  | [.word "def", .word name, .opening, .word "nodes", .closing, .colon] => some (.define name)
  | [.word "if", .word name, .word "is", .word "None", .colon] => some (.whether name true)
  | [.word "if", .word name, .word "is", .word "not", .word "None", .colon] =>
    some (.whether name false)
  | .word "return" :: value => (phraseOf value).map .ret
  | _ => none

def headingOf (tokens : List Token) : Option Heading :=
  if .equals ∈ tokens then do
    let target ← phraseOf (tokens.takeWhile (· ≠ .equals))
    let value ← phraseOf ((tokens.dropWhile (· ≠ .equals)).drop 1)
    pure (.assign target value)
  else keywordOf tokens

/-- The statements of a passage. A block stands only after a line that takes one. -/
def Passage.statements : Passage → Option Statements
  | done => some .done
  | suite _ _ => none
  | line tokens next => do
    match ← headingOf tokens with
    | .assign target value => next.statements.map (.assign target value)
    | .ret value => next.statements.map (.ret value)
    | .define name =>
      match next with
      | suite inner next => do pure (.define name (← inner.statements) (← next.statements))
      | _ => none
    | .whether name isNone =>
      match next with
      | suite inner next => do pure (.whether name isNone (← inner.statements) (← next.statements))
      | _ => none

/-- The statements that some pieces of text are. -/
def read (pieces : List Piece) : Option Statements := do
  (← passageFrom [] pieces).statements

/-- The expression that some pieces of text are where it stands in parentheses, so that it may take
several lines. -/
def readPhrase (pieces : List Piece) : Option Phrase := do
  phraseOf ((← continued [.opening] pieces) ++ [.closing])

end TreeGrammar.Script
