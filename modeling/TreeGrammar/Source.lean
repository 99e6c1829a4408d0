import TreeGrammar.Json.Equality
import TreeGrammar.Json.Literal
import TreeGrammar.Json.Number
import TreeGrammar.Text.Utf8

/-!
Source files. A position is a row and a byte offset in that row, both counted from zero. Rows past
the end of a file lie at its end. A negative row counts from the end of the file, and a negative
offset from the end of its bytes. Rows and offsets are whole numbers as a rule, but whatever value
a tree gives for them is kept, and it is a fault only where a number is needed.
-/
namespace TreeGrammar

/-- A place in a source file. -/
structure Position where
  row : Json
  column : Json
deriving DecidableEq, Inhabited

/-- A stretch of a source file. -/
structure Loc where
  start : Position
  finish : Position
deriving DecidableEq, Inhabited

/-- The position in the given row with the given offset. -/
def Position.at (row column : Int) : Position :=
  ⟨.int row, .int column⟩

/-- A position for readers: rows are counted from one, so the row has to be a number. -/
def Position.short (p : Position) : Option String := do
  pure ((← p.row.plus 1).shown ++ ":" ++ p.column.shown)

def Loc.short (l : Loc) : Option String := do
  pure ((← l.start.short) ++ "-" ++ (← l.finish.short))

def Position.written (p : Position) : String :=
  "Position(row=" ++ p.row.literal ++ ", column=" ++ p.column.literal ++ ")"

def Loc.written (l : Loc) : String :=
  "Loc(start=" ++ l.start.written ++ ", end=" ++ l.finish.written ++ ")"

/-- The bytes of a source file and the path it is known by. -/
structure Source where
  bytes : List UInt8
  path : String

/-- Why a position is no place in a source. -/
inductive PlaceFault where
  /-- Its row lies further before the first one than the file has rows. -/
  | noSuchRow (row : Int)
  /-- Its row or its offset is not a whole number. -/
  | notWhole (value : Json)
deriving DecidableEq

namespace Source

/-- The path of a source that is not in a file. -/
def unnamed : String := "<string>"

def ofText (text : String) : Source :=
  ⟨Text.encodeUtf8 text, unnamed⟩

/-- The offsets after the line feeds of some bytes, the first of which has the given offset. -/
def startsAfter (offset : Nat) : List UInt8 → List Nat
  | [] => []
  | b :: rest =>
    if b = 0x0a then (offset + 1) :: startsAfter (offset + 1) rest
    else startsAfter (offset + 1) rest

/-- The offset of the first byte of each row. -/
def rowStarts (src : Source) : List Nat :=
  0 :: startsAfter 0 src.bytes

/-- The offset of a column of a row that starts at the offset `start`, in a file of the given
length, at whose end it lies if it is too great. -/
def columnOffset (length start : Nat) (column : Json) : Option Int :=
  match column.whole? with
  | some n => some (min (start + n) length)
  | none =>
    match column.plus start with
    | some sum => if sum.exceeds length then some length else none
    | none => none

/-- The byte offset of a row and a column. -/
def rowOffset (src : Source) (row : Int) (column : Json) : Except PlaceFault Int :=
  let starts := src.rowStarts
  let index := if row < 0 then row + starts.length else row
  if index < 0 then .error (.noSuchRow row)
  else
    match starts[index.toNat]? with
    | none => .ok src.bytes.length
    | some start =>
      match columnOffset src.bytes.length start column with
      | some offset => .ok offset
      | none => .error (.notWhole column)

def offset (src : Source) (p : Position) : Except PlaceFault Int :=
  match p.row.atLeast src.rowStarts.length, p.row.whole? with
  | some true, _ => .ok src.bytes.length
  | some false, some row => src.rowOffset row p.column
  | _, _ => .error (.notWhole p.row)

theorem offset_at (src : Source) (row column : Int) :
    src.offset (.at row column) = src.rowOffset row (.int column) := by
  simp only [offset, Position.at, Json.atLeast, Json.whole?]
  by_cases h : (src.rowStarts.length : Int) ≤ row
  · have hr : ¬ row < 0 := by omega
    have hn : src.rowStarts[row.toNat]? = none := by
      rw [List.getElem?_eq_none_iff]
      omega
    simp [h, rowOffset, hr, hn]
  · simp [h]

/-- A bound of a slice of `length` bytes: a negative one counts from the end. -/
def sliceBound (length : Nat) (i : Int) : Nat :=
  if i < 0 then (i + length).toNat else i.toNat

def slice (bytes : List UInt8) (start finish : Int) : List UInt8 :=
  let low := sliceBound bytes.length start
  let high := sliceBound bytes.length finish
  (bytes.drop low).take (high - low)

def token (src : Source) (l : Loc) : Except PlaceFault String := do
  let start ← src.offset l.start
  let finish ← src.offset l.finish
  pure (Text.decodeLossy (slice src.bytes start finish))

def lineCount (src : Source) : Nat :=
  src.bytes.count 0x0a

def written (src : Source) : String :=
  "SrcFile(<" ++ toString src.bytes.length ++ " bytes>, " ++ Text.quoted src.path ++ ")"

end Source

end TreeGrammar
