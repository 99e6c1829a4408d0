/-!
UTF-8. Reading goes byte by byte: between characters a byte is a character, starts one, or is
refused; inside a character it has to lie in the range that the bytes so far leave open. The lossy
reading puts U+FFFD for every longest part that cannot be continued; the strict one tells where
and why the first such part fails.
-/
namespace TreeGrammar.Text

/-- What is known inside a character: how many bytes are owed, the range of the next one, and the
bits read so far. -/
structure Pending where
  owed : Nat
  low : UInt8
  high : UInt8
  bits : Nat

/-- What a byte is between characters. -/
inductive Lead where
  | char (c : Char)
  | more (p : Pending)
  | refused

/-- A byte that stands between characters. -/
def leadOf (b : UInt8) : Lead :=
  if b < 0x80 then .char (Char.ofNat b.toNat)
  else if b < 0xc2 then .refused
  else if b < 0xe0 then .more ⟨1, 0x80, 0xbf, b.toNat - 0xc0⟩
  else if b < 0xf0 then
    .more ⟨2, if b = 0xe0 then 0xa0 else 0x80, if b = 0xed then 0x9f else 0xbf, b.toNat - 0xe0⟩
  else if b < 0xf5 then
    .more ⟨3, if b = 0xf0 then 0x90 else 0x80, if b = 0xf4 then 0x8f else 0xbf, b.toNat - 0xf0⟩
  else .refused

/-- Whether a byte continues the character. -/
def Pending.accepts (p : Pending) (b : UInt8) : Bool :=
  p.low ≤ b && b ≤ p.high

/-- The bits with those of one more byte. -/
def Pending.extend (p : Pending) (b : UInt8) : Nat :=
  p.bits * 64 + (b.toNat - 0x80)

/-- The character so far, one accepted byte later. -/
def Pending.next (p : Pending) (b : UInt8) : Lead :=
  if p.owed ≤ 1 then .char (Char.ofNat (p.extend b))
  else .more ⟨p.owed - 1, 0x80, 0xbf, p.extend b⟩

/-- What stands for bytes that are no character. -/
def replacementChar : Char := '\ufffd'

/-- The characters of the bytes that follow the given state. -/
def decodeFrom : Option Pending → List UInt8 → List Char
  | none, [] => []
  | some _, [] => [replacementChar]
  | none, b :: bytes =>
    match leadOf b with
    | .char c => c :: decodeFrom none bytes
    | .more p => decodeFrom (some p) bytes
    | .refused => replacementChar :: decodeFrom none bytes
  | some p, b :: bytes =>
    if p.accepts b then
      match p.next b with
      | .char c => c :: decodeFrom none bytes
      | .more q => decodeFrom (some q) bytes
      | .refused => decodeFrom none bytes
    else
      match leadOf b with
      | .char c => replacementChar :: c :: decodeFrom none bytes
      | .more q => replacementChar :: decodeFrom (some q) bytes
      | .refused => replacementChar :: replacementChar :: decodeFrom none bytes

/-- The text of some bytes, U+FFFD standing for what is no character. -/
def decodeLossy (bytes : List UInt8) : String :=
  String.ofList (decodeFrom none bytes)

/-- Why bytes are not UTF-8. -/
inductive Utf8Fault where
  | badStart
  | badContinuation
  | truncated

/-- The first part of some bytes that is not UTF-8: the offset of its first byte, how many bytes
it has, that first byte, and the fault. -/
structure Utf8Error where
  offset : Nat
  length : Nat
  byte : UInt8
  fault : Utf8Fault

/-- Strict reading from the given state: `offset` counts the bytes before the rest, `begun` is the
number and the first of the bytes of an unfinished character. -/
def checkFrom : Option (Pending × Nat × UInt8) → Nat → List UInt8 → Option Utf8Error
  | none, _, [] => none
  | some (_, n, first), offset, [] => some ⟨offset - n, n, first, .truncated⟩
  | none, offset, b :: bytes =>
    match leadOf b with
    | .char _ => checkFrom none (offset + 1) bytes
    | .more p => checkFrom (some (p, 1, b)) (offset + 1) bytes
    | .refused => some ⟨offset, 1, b, .badStart⟩
  | some (p, n, first), offset, b :: bytes =>
    if p.accepts b then
      match p.next b with
      | .more q => checkFrom (some (q, n + 1, first)) (offset + 1) bytes
      | _ => checkFrom none (offset + 1) bytes
    else some ⟨offset - n, n, first, .badContinuation⟩

/-- Strict reading: the text, or where the bytes stop being UTF-8. -/
def decodeStrict (bytes : List UInt8) : Except Utf8Error String :=
  match checkFrom none 0 bytes with
  | some e => .error e
  | none => .ok (decodeLossy bytes)

/-- The bytes of a text. -/
def encodeUtf8 (s : String) : List UInt8 :=
  s.toList.flatMap String.utf8EncodeChar

end TreeGrammar.Text
