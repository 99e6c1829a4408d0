import TreeGrammar.Code.Layout

/-!
All the ways to lay out code. Each application and each call may stand on one line, where its parts
are single lines, or take several, whatever the length of the line is.
-/
namespace TreeGrammar.Code

/-- An application on one line, or with its arguments on lines of their own. -/
inductive Applied (func : String) : List (List Piece) → List Piece → Prop where
  | short (texts : List String) :
    Applied func (texts.map fun text => [.line text])
      [.line (func ++ "(" ++ ", ".intercalate texts ++ ")")]
  | long (args : List (List Piece)) :
    Applied func args [.line (func ++ "("), .block (args.flatMap (withSuffix ",")), .line ")"]

/-- An expression between two texts on one line, or between parentheses on lines of its own. -/
inductive Between (start stop : String) : List Piece → List Piece → Prop where
  | short (text : String) : Between start stop [.line text] [.line (start ++ text ++ stop)]
  | long (pieces : List Piece) :
    Between start stop pieces [.line (start ++ "("), .block pieces, .line (")" ++ stop)]

/-- Some lines that an expression can take. -/
def Expr.LaidOut : Expr → List Piece → Prop
  | seq element tail, pieces => ∃ a b, element.LaidOut a ∧ tail.LaidOut b ∧
    Applied "combine.parse_seq" [a, b] pieces
  | star element tail, pieces => ∃ a b, element.LaidOut a ∧ tail.LaidOut b ∧
    Applied "combine.parse_repeat" [a, b] pieces
  | plus element tail, pieces => ∃ a b, element.LaidOut a ∧ tail.LaidOut b ∧
    Applied "combine.parse_repeat1" [a, b] pieces
  | node kind children, pieces => ∃ b, children.LaidOut b ∧
    Applied "self._parse_rule" [[.line kind.literal], b] pieces
  | e, pieces => pieces = e.pieces

/-- Some lines for the call of a matcher with `nodes` after some text. -/
def CallLaidOut (start : String) (matcher : Expr) (pieces : List Piece) : Prop :=
  ∃ inner, matcher.LaidOut inner ∧ Between start "(nodes)" inner pieces

/-- Some lines that a block can take. -/
def Block.LaidOut : Block → List Piece → Prop
  | define name body next, pieces => ∃ inner rest, body.LaidOut inner ∧ next.LaidOut rest ∧
    pieces = functionPieces name inner ++ rest
  | bind name value next, pieces => ∃ inner first rest, value.LaidOut inner ∧
    Between (name.name ++ " = ") "" inner first ∧ next.LaidOut rest ∧ pieces = first ++ rest
  | attempt matcher next, pieces => ∃ first rest, CallLaidOut "res = " matcher first ∧
    next.LaidOut rest ∧
    pieces = first ++ ([.line "if res is not None:", .block [.line "return res"]] ++ rest)
  | ret matcher, pieces => CallLaidOut "return " matcher pieces
  | regroup matcher pattern result, pieces => ∃ first, CallLaidOut "res = " matcher first ∧
    pieces = first ++
      [.line "if res is None:",
        .block [.line "return None"],
        .line (pattern.text ++ ", nodes = res"),
        .line ("return " ++ result.text ++ ", nodes")]
  | insert code next, pieces => ∃ rest, next.LaidOut rest ∧ pieces = code ++ rest
  | given code, pieces => pieces = code

/-- Some lines that definitions can take. -/
def DefsLaidOut : List Def → List Piece → Prop
  | [], pieces => pieces = []
  | .function name body :: defs, pieces => ∃ inner rest, body.LaidOut inner ∧
    DefsLaidOut defs rest ∧ pieces = functionPieces name inner ++ rest
  | .given code :: defs, pieces => ∃ rest, DefsLaidOut defs rest ∧ pieces = code ++ rest

theorem onlyLine?_eq_some {pieces : List Piece} {text : String} (h : onlyLine? pieces = some text) :
    pieces = [.line text] := by
  unfold onlyLine? at h
  split at h
  · exact congrArg (fun t => [Piece.line t]) (Option.some.inj h)
  · cases h

theorem eq_map_of_mapM_onlyLine? {args : List (List Piece)} {texts : List String}
    (h : args.mapM onlyLine? = some texts) : args = texts.map fun text => [.line text] := by
  induction args generalizing texts with
  | nil =>
    cases h
    rfl
  | cons arg args ih =>
    rw [List.mapM_cons] at h
    obtain ⟨text, hfirst, hrest⟩ := Option.bind_eq_some_iff.mp h
    obtain ⟨others, hothers, hpure⟩ := Option.bind_eq_some_iff.mp hrest
    cases hpure
    rw [List.map_cons, ← ih hothers, onlyLine?_eq_some hfirst]

theorem applied_application (func : String) (args : List (List Piece)) :
    Applied func args (application func args) := by
  rw [application]
  split
  · rename_i line h
    obtain ⟨texts, htexts, hline⟩ := Option.bind_eq_some_iff.mp h
    dsimp only at hline
    split at hline
    · rw [← Option.some.inj hline, eq_map_of_mapM_onlyLine? htexts]
      exact .short texts
    · cases hline
  · exact .long args

theorem between_call (start : String) (pieces : List Piece) :
    Between start "(nodes)" pieces (call start pieces nodes) := by
  rw [call]
  split
  · rename_i text h
    rw [onlyLine?_eq_some h]
    have hline : start ++ text ++ "(" ++ nodes ++ ")" = start ++ text ++ "(nodes)" := by
      rw [String.append_assoc, String.append_assoc]
      rfl
    rw [hline]
    exact .short text
  · exact .long pieces

theorem between_binding (name : Local) (pieces : List Piece) :
    Between (name.name ++ " = ") "" pieces (bindingPieces name pieces) := by
  rw [bindingPieces]
  split
  · rename_i text h
    have hshort : Between (name.name ++ " = ") "" [.line text]
        [.line (name.name ++ " = " ++ text ++ "")] := .short text
    rw [String.append_empty] at hshort
    rw [onlyLine?_eq_some h]
    exact hshort
  · have hopen : name.name ++ " = (" = name.name ++ " = " ++ "(" := by
      rw [String.append_assoc]
      rfl
    rw [hopen]
    exact .long pieces

theorem Expr.laidOut_pieces (e : Expr) : e.LaidOut e.pieces := by
  induction e with
  | seq a b iha ihb => exact ⟨_, _, iha, ihb, applied_application _ _⟩
  | star a b iha ihb => exact ⟨_, _, iha, ihb, applied_application _ _⟩
  | plus a b iha ihb => exact ⟨_, _, iha, ihb, applied_application _ _⟩
  | node kind children ih => exact ⟨_, ih, applied_application _ _⟩
  | _ => rfl

theorem callLaidOut_call (start : String) (matcher : Expr) :
    CallLaidOut start matcher (call start matcher.pieces nodes) :=
  ⟨_, matcher.laidOut_pieces, between_call start _⟩

/-- The lines that code is given are one way to lay it out. -/
theorem Block.laidOut_pieces (b : Block) : b.LaidOut b.pieces := by
  induction b with
  | define name body next ihb ihn => exact ⟨_, _, ihb, ihn, rfl⟩
  | bind name value next ih =>
    exact ⟨_, _, _, value.laidOut_pieces, between_binding name _, ih, rfl⟩
  | attempt matcher next ih =>
    exact ⟨_, _, callLaidOut_call "res = " matcher, ih, List.append_assoc _ _ _⟩
  | ret matcher => exact callLaidOut_call "return " matcher
  | regroup matcher pattern result => exact ⟨_, callLaidOut_call "res = " matcher, rfl⟩
  | insert code next ih => exact ⟨_, ih, rfl⟩
  | given code => rfl

theorem defsLaidOut_defPieces (defs : List Def) : DefsLaidOut defs (defPieces defs) := by
  induction defs with
  | nil => rfl
  | cons d defs ih =>
    cases d with
    | function name body => exact ⟨_, _, body.laidOut_pieces, ih, List.flatMap_cons⟩
    | given code => exact ⟨_, ih, List.flatMap_cons⟩

end TreeGrammar.Code
