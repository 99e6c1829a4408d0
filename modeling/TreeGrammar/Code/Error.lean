/-! What can go wrong when code is put together from parts that a caller has given. -/
namespace TreeGrammar

/-- A fault in the making of code. -/
inductive CodeError where
  /-- A count of results is negative or greater than the count of those that there are. -/
  | badCount
  /-- Alternatives return different counts of results. -/
  | unevenCases
  /-- A group of bodies or of names is empty. -/
  | emptyGroup
  /-- Code is to be followed by a comma, but its last piece is not a line. -/
  | notClosed
  /-- Code is to be followed by a comma, but there is none. -/
  | noCode
  /-- A rule has no short form, since it refers to a name that is not a text. -/
  | nameNotText
deriving DecidableEq, Repr

end TreeGrammar
