import TreeGrammar.Text.Quoted

/-!
The tokens of a line of code. A word is a run of letters, digits and points, so that `self.parse_a`
is one word. A quoted text stands between two marks of one kind, with the escapes that quoting
makes.
-/
namespace TreeGrammar.Script

inductive Token where
  | word (text : String)
  | quoted (text : String)
  | opening
  | closing
  | comma
  | colon
  | equals
deriving DecidableEq, Repr

/-- Characters of names. All that are beyond ASCII are taken for letters. -/
def isLetter (c : Char) : Bool :=
  c.isAlphanum || c = '_' || 0x80 ≤ c.toNat

def isWordChar (c : Char) : Bool :=
  isLetter c || c = '.'

def isMark (c : Char) : Bool :=
  c = Text.apostrophe || c = Text.doubleQuote

/-- The token that a character is by itself. -/
def tokenOf? (c : Char) : Option Token :=
  if c = '(' then some .opening
  else if c = ')' then some .closing
  else if c = ',' then some .comma
  else if c = ':' then some .colon
  else if c = '=' then some .equals
  else none

/-- What an escape of one character stands for. -/
def escaped? (c : Char) : Option Char :=
  if c = Text.backslash || isMark c then some c
  else if c = 'n' then some '\n'
  else if c = 'r' then some '\r'
  else if c = 't' then some '\t'
  else none

/-- How many digits follow a character in the escape of a code point. -/
def escapeWidth? (c : Char) : Option Nat :=
  if c = 'x' then some 2 else if c = 'u' then some 4 else if c = 'U' then some 8 else none

def hexDigit? (c : Char) : Option Nat :=
  if '0' ≤ c ∧ c ≤ '9' then some (c.toNat - '0'.toNat)
  else if 'a' ≤ c ∧ c ≤ 'f' then some (c.toNat - 'a'.toNat + 10)
  else none

/-- What stands before the next character: the letters of a word, or of a text that is open, and in
an escape how many digits are missing and the number that those before them make. -/
inductive Before where
  | blank
  | word (letters : List Char)
  | text (mark : Char) (letters : List Char)
  | escape (mark : Char) (letters : List Char)
  | code (mark : Char) (letters : List Char) (missing value : Nat)

/-- The tokens from a place on. A text that is not closed, an escape of another kind and a character
that starts no token make a line unreadable. -/
def scan : Before → List Char → Option (List Token)
  | .blank, [] => some []
  | .word letters, [] => some [.word (String.ofList letters)]
  | .blank, c :: rest =>
    if isWordChar c then scan (.word [c]) rest
    else if c = ' ' then scan .blank rest
    else if isMark c then scan (.text c []) rest
    else do
      let token ← tokenOf? c
      pure (token :: (← scan .blank rest))
  | .word letters, c :: rest =>
    if isWordChar c then scan (.word (letters ++ [c])) rest
    else if c = ' ' then do
      pure (.word (String.ofList letters) :: (← scan .blank rest))
    else do
      let token ← tokenOf? c
      pure (.word (String.ofList letters) :: token :: (← scan .blank rest))
  | .text mark letters, c :: rest =>
    if c = mark then do
      pure (.quoted (String.ofList letters) :: (← scan .blank rest))
    else if c = Text.backslash then scan (.escape mark letters) rest
    else if c = '\n' then none
    else scan (.text mark (letters ++ [c])) rest
  | .escape mark letters, c :: rest =>
    match escaped? c, escapeWidth? c with
    | some d, _ => scan (.text mark (letters ++ [d])) rest
    | none, some width => scan (.code mark letters width 0) rest
    | none, none => none
  | .code mark letters missing value, c :: rest => do
    let digit ← hexDigit? c
    let value := value * 16 + digit
    if missing = 1 then scan (.text mark (letters ++ [Char.ofNat value])) rest
    else scan (.code mark letters (missing - 1) value) rest
  | _, [] => none

/-- The tokens of a line. -/
def tokensOf (line : String) : Option (List Token) :=
  scan .blank line.toList

end TreeGrammar.Script
