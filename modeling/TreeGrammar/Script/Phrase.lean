import TreeGrammar.Script.Token

/-!
Expressions: names, quoted texts, calls and tuples. Parentheses that hold one expression are no
tuple, and the arguments of a call may end with a comma. An expression is read token by token; what
is open around the current place is kept on a stack.
-/
namespace TreeGrammar.Script

inductive Phrase where
  | name (word : String)
  | quoted (text : String)
  | call (func : Phrase) (args : List Phrase)
  | tuple (parts : List Phrase)

/-- A place in an expression: what is read since the last comma, the parts before that, and what is
open around, that is to say what stands before each parenthesis and the parts before that. -/
structure Reading where
  current : Option Phrase
  parts : List Phrase
  outer : List (Option Phrase × List Phrase)

namespace Reading

def start : Reading := ⟨none, [], []⟩

/-- What the parts up to the current place are together after the given expression: arguments of a
call, or else a tuple unless they are a single part without a comma. -/
def closed (r : Reading) : Option Phrase → Phrase
  | some func => .call func (r.parts ++ r.current.toList)
  | none =>
    match r.parts, r.current with
    | [], some phrase => phrase
    | parts, current => .tuple (parts ++ current.toList)

def operand (r : Reading) (phrase : Phrase) : Option Reading :=
  if r.current.isSome then none else some { r with current := some phrase }

def step (r : Reading) : Token → Option Reading
  | .word w => r.operand (.name w)
  | .quoted s => r.operand (.quoted s)
  | .opening => some ⟨none, [], (r.current, r.parts) :: r.outer⟩
  | .comma => r.current.map fun phrase => ⟨none, r.parts ++ [phrase], r.outer⟩
  | .closing =>
    match r.outer with
    | [] => none
    | (func, parts) :: outer => some ⟨some (r.closed func), parts, outer⟩
  | .colon | .equals => none

end Reading

/-- The expression that some tokens are. -/
def phraseOf (tokens : List Token) : Option Phrase := do
  match ← tokens.foldlM Reading.step .start with
  | ⟨none, [], _⟩ => none
  | ⟨current, parts, []⟩ => some (Reading.closed ⟨current, parts, []⟩ none)
  | _ => none

end TreeGrammar.Script
