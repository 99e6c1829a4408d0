import TreeGrammar.Text.Printable

/-!
Quoted texts. A text stands between two quotation marks of one kind: apostrophes, unless it holds
an apostrophe and no double quote. The mark in use, the backslash and the characters that are not
printable are escaped.
-/
namespace TreeGrammar.Text

/-- The apostrophe. -/
def apostrophe : Char := '\x27'

/-- The double quote. -/
def doubleQuote : Char := '\x22'

/-- The character that starts an escape. -/
def backslash : Char := '\x5c'

/-- The last `width` hexadecimal digits of a number, in lower case. -/
def hexDigits : Nat → Nat → List Char
  | 0, _ => []
  | width + 1, n => hexDigits width (n / 16) ++ [Nat.digitChar (n % 16)]

/-- The written form of one character between marks of the given kind. -/
def escape (mark c : Char) : List Char :=
  if c = mark ∨ c = backslash then [backslash, c]
  else if c = '\n' then [backslash, 'n']
  else if c = '\r' then [backslash, 'r']
  else if c = '\t' then [backslash, 't']
  else if isPrintable c then [c]
  else if c.toNat < 0x100 then backslash :: 'x' :: hexDigits 2 c.toNat
  else if c.toNat < 0x10000 then backslash :: 'u' :: hexDigits 4 c.toNat
  else backslash :: 'U' :: hexDigits 8 c.toNat

/-- The kind of quotation mark that a text is written with. -/
def markOf (cs : List Char) : Char :=
  if apostrophe ∈ cs ∧ doubleQuote ∉ cs then doubleQuote else apostrophe

/-- The characters of the quoted form. -/
def quoteChars (cs : List Char) : List Char :=
  markOf cs :: cs.flatMap (escape (markOf cs)) ++ [markOf cs]

/-- A text in quotation marks. -/
def quoted (s : String) : String :=
  String.ofList (quoteChars s.toList)

end TreeGrammar.Text
