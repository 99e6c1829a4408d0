import TreeGrammar.Json.Basic

/-!
Reading JSON text. Names may repeat in an object: the last value counts, at the first place.
Besides the standard's numbers there are `NaN`, `Infinity` and `-Infinity`, and a whole number has
at most 4300 digits.
-/
namespace TreeGrammar.Json

/-- Why a text is not read. -/
inductive ReadError where
  | malformed
  | tooManyDigits (count : Nat)
deriving DecidableEq, Repr

namespace Reader

/-- The text after its leading spaces, tabs and line ends. -/
def skipBlanks (cs : List Char) : List Char :=
  cs.dropWhile fun c => c = ' ' || c = '\t' || c = '\n' || c = '\r'

def hexValue (c : Char) : Option Nat :=
  if '0' ≤ c ∧ c ≤ '9' then some (c.toNat - 0x30)
  else if 'a' ≤ c ∧ c ≤ 'f' then some (c.toNat - 0x57)
  else if 'A' ≤ c ∧ c ≤ 'F' then some (c.toNat - 0x37)
  else none

/-- The number that four hexadecimal digits write. -/
def hexNumber (a b c d : Char) : Option Nat := do
  let a ← hexValue a
  let b ← hexValue b
  let c ← hexValue c
  let d ← hexValue d
  pure (((a * 16 + b) * 16 + c) * 16 + d)

/-- The character that a backslash and one more character stand for. -/
def shortEscape (c : Char) : Option Nat :=
  if c = '\x22' ∨ c = '\x5c' ∨ c = '/' then some c.toNat
  else if c = 'b' then some 0x08
  else if c = 'f' then some 0x0c
  else if c = 'n' then some 0x0a
  else if c = 'r' then some 0x0d
  else if c = 't' then some 0x09
  else none

/-- The first halves of surrogate pairs. -/
def isHighSurrogate (n : Nat) : Bool := 0xd800 ≤ n && n < 0xdc00

/-- The second halves of surrogate pairs. -/
def isLowSurrogate (n : Nat) : Bool := 0xdc00 ≤ n && n < 0xe000

/-- Characters of a sequence of code units, in which surrogate pairs count as one character. A
surrogate alone is replaced by U+FFFD. -/
def joinUnits : List Nat → List Char
  | [] => []
  | [n] => [if isHighSurrogate n || isLowSurrogate n then '\ufffd' else Char.ofNat n]
  | high :: low :: rest =>
    if isHighSurrogate high then
      if isLowSurrogate low then
        Char.ofNat (0x10000 + (high - 0xd800) * 0x400 + (low - 0xdc00)) :: joinUnits rest
      else '\ufffd' :: joinUnits (low :: rest)
    else if isLowSurrogate high then '\ufffd' :: joinUnits (low :: rest)
    else Char.ofNat high :: joinUnits (low :: rest)

/-- A text after its opening quotation mark; `units` are the units read so far, last one first. -/
def text (units : List Nat) : List Char → Except ReadError (String × List Char)
  | [] => .error .malformed
  | '\x22' :: rest => .ok (String.ofList (joinUnits units.reverse), rest)
  | '\x5c' :: 'u' :: a :: b :: c :: d :: rest =>
    match hexNumber a b c d with
    | some n => text (n :: units) rest
    | none => .error .malformed
  | '\x5c' :: c :: rest =>
    match shortEscape c with
    | some n => text (n :: units) rest
    | none => .error .malformed
  | c :: rest => if c.toNat < 0x20 || c = '\x5c' then .error .malformed
    else text (c.toNat :: units) rest

def digitsValue (cs : List Char) : Nat :=
  cs.foldl (fun n c => n * 10 + (c.toNat - 0x30)) 0

/-- The digits at the front of a text, and the rest. -/
def digits (cs : List Char) : List Char × List Char :=
  cs.span (fun c => '0' ≤ c && c ≤ '9')

/-- The digits before the point: a single zero, or digits that do not start with one. -/
def wholeDigits : List Char → Option (List Char × List Char)
  | '0' :: rest => some (['0'], rest)
  | cs => match digits cs with
    | ([], _) => none
    | found => some found

/-- The digits after a point, where at least one follows it. -/
def fractionDigits : List Char → Option (List Char × List Char)
  | '.' :: rest => match digits rest with
    | ([], _) => none
    | found => some found
  | _ => none

/-- The exponent of a number, where the mark is followed by at least one digit. -/
def exponent : List Char → Option (Int × List Char)
  | mark :: rest =>
    if mark = 'e' || mark = 'E' then
      let (sign, rest) : Int × List Char := match rest with
        | '-' :: more => (-1, more)
        | '+' :: more => (1, more)
        | _ => (1, rest)
      match digits rest with
      | ([], _) => none
      | (ds, more) => some (sign * digitsValue ds, more)
    else none
  | [] => none

/-- The greatest count of digits of a whole number. -/
def digitLimit : Nat := 4300

def number (negative : Bool) (cs : List Char) : Except ReadError (Json × List Char) :=
  match wholeDigits cs with
  | none => .error .malformed
  | some (whole, rest) =>
    let fraction := fractionDigits rest
    let (places, rest) := fraction.getD ([], rest)
    let power := exponent rest
    match fraction, power with
    | none, none =>
      if digitLimit < whole.length then .error (.tooManyDigits whole.length)
      else
        let n : Int := digitsValue whole
        .ok (.int (if negative then -n else n), rest)
    | _, _ =>
      let (e, rest) := power.getD (0, rest)
      .ok (.real ⟨negative, digitsValue (whole ++ places), e - places.length⟩, rest)

/-- A value that starts with neither a quotation mark nor a bracket. -/
def scalar : List Char → Except ReadError (Json × List Char)
  | 'n' :: 'u' :: 'l' :: 'l' :: rest => .ok (.null, rest)
  | 't' :: 'r' :: 'u' :: 'e' :: rest => .ok (.bool true, rest)
  | 'f' :: 'a' :: 'l' :: 's' :: 'e' :: rest => .ok (.bool false, rest)
  | 'N' :: 'a' :: 'N' :: rest => .ok (.nan, rest)
  | 'I' :: 'n' :: 'f' :: 'i' :: 'n' :: 'i' :: 't' :: 'y' :: rest => .ok (.infinite false, rest)
  | '-' :: 'I' :: 'n' :: 'f' :: 'i' :: 'n' :: 'i' :: 't' :: 'y' :: rest =>
    .ok (.infinite true, rest)
  | '-' :: rest => number true rest
  | cs => number false cs

mutual

/-- A value at the front of a text. The first argument bounds the depth of the calls. -/
def value : Nat → List Char → Except ReadError (Json × List Char)
  | 0, _ => .error .malformed
  | bound + 1, cs =>
    match cs with
    | '\x22' :: rest => do
      let (s, rest) ← text [] rest
      pure (.str s, rest)
    | '[' :: rest =>
      match skipBlanks rest with
      | ']' :: rest => .ok (.arr [], rest)
      | rest => do
        let (elements, rest) ← elements bound rest
        pure (.arr elements, rest)
    | '\x7b' :: rest =>
      match skipBlanks rest with
      | '\x7d' :: rest => .ok (.obj [], rest)
      | rest => do
        let (members, rest) ← members bound rest
        pure (.obj (lastOfEach members), rest)
    | _ => scalar cs

/-- The elements of an array up to its closing bracket. -/
def elements : Nat → List Char → Except ReadError (List Json × List Char)
  | 0, _ => .error .malformed
  | bound + 1, cs => do
    let (first, rest) ← value bound cs
    match skipBlanks rest with
    | ',' :: rest => do
      let (others, rest) ← elements bound (skipBlanks rest)
      pure (first :: others, rest)
    | ']' :: rest => pure ([first], rest)
    | _ => .error .malformed

/-- The members of an object up to its closing brace. -/
def members : Nat → List Char → Except ReadError (List (String × Json) × List Char)
  | 0, _ => .error .malformed
  | bound + 1, cs =>
    match cs with
    | '\x22' :: rest => do
      let (name, rest) ← text [] rest
      match skipBlanks rest with
      | ':' :: rest => do
        let (first, rest) ← value bound (skipBlanks rest)
        match skipBlanks rest with
        | ',' :: rest => do
          let (others, rest) ← members bound (skipBlanks rest)
          pure ((name, first) :: others, rest)
        | '\x7d' :: rest => pure ([(name, first)], rest)
        | _ => .error .malformed
      | _ => .error .malformed
    | _ => .error .malformed

end

end Reader

/-- The value that a text writes. Every level of brackets takes two nested calls and at least one
character, so twice the length bounds the depth. -/
def ofText (s : String) : Except ReadError Json := do
  let (value, rest) ← Reader.value (2 * s.length + 2) (Reader.skipBlanks s.toList)
  if (Reader.skipBlanks rest).isEmpty then pure value else .error .malformed

end TreeGrammar.Json
