/-!
Line breaks and blanks. A text is cut at every vertical separator: line feed, carriage return (one
break together with a following line feed), vertical tab, form feed, the separators U+001C to
U+001E, U+0085, U+2028 and U+2029.
-/
namespace TreeGrammar.Text

/-- Characters that end a line. -/
def isLineBreak (c : Char) : Bool :=
  (0x0a ≤ c.toNat && c.toNat ≤ 0x0d) || (0x1c ≤ c.toNat && c.toNat ≤ 0x1e) ||
    c.toNat == 0x85 || c.toNat == 0x2028 || c.toNat == 0x2029

/-- White space, which the line breaks are part of. -/
def isBlank (c : Char) : Bool :=
  isLineBreak c || c.toNat == 0x09 || c.toNat == 0x1f || c.toNat == 0x20 || c.toNat == 0xa0 ||
    c.toNat == 0x1680 || (0x2000 ≤ c.toNat && c.toNat ≤ 0x200a) || c.toNat == 0x202f ||
    c.toNat == 0x205f || c.toNat == 0x3000

/-- A character put in front of the first line. -/
def consLine (c : Char) : List (List Char) → List (List Char)
  | [] => [[c]]
  | line :: lines => (c :: line) :: lines

/-- The lines of a text without their breaks. A break at the end starts no further line. -/
def splitLines : List Char → List (List Char)
  | [] => []
  | '\r' :: '\n' :: rest => [] :: splitLines rest
  | c :: rest => if isLineBreak c then [] :: splitLines rest else consLine c (splitLines rest)

/-- The lines of a text, each with the break that ends it. -/
def splitLinesKeeping : List Char → List (List Char)
  | [] => []
  | '\r' :: '\n' :: rest => ['\r', '\n'] :: splitLinesKeeping rest
  | c :: rest =>
    if isLineBreak c then [c] :: splitLinesKeeping rest else consLine c (splitLinesKeeping rest)

/-- The lines of a text as texts. -/
def linesOf (s : String) : List String :=
  (splitLines s.toList).map String.ofList

/-- A text with carriage returns and line feeds written as escapes, so that it fits on one line. -/
def onOneLine (s : String) : String :=
  String.ofList (s.toList.flatMap fun c =>
    if c = '\r' then ['\x5c', 'r'] else if c = '\n' then ['\x5c', 'n'] else [c])

end TreeGrammar.Text
