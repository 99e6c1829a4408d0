import TreeGrammar.Proofs.Lines

/-!
Suites: pieces of code that are statements. A statement takes one line, stands between two
parentheses, or is a block below a header; notes may stand between them. A suite is laid out as
lines without line breaks whose rows are placed well, by induction on the suite: the rows of each
constructor follow from those of its parts.
-/
namespace TreeGrammar

namespace Piece

theorem linesOf_append (level : Int) (as bs : List Piece) :
    linesOf level (as ++ bs) =
      (do pure ((← linesOf level as) ++ (← linesOf level bs))) := by
  induction as with
  | nil =>
    rw [List.nil_append, linesOf]
    cases linesOf level bs <;> rfl
  | cons a as ih =>
    rw [List.cons_append, linesOf, linesOf, ih]
    cases lines level a with
    | error e => rfl
    | ok xs =>
      cases linesOf level as with
      | error e => rfl
      | ok ys =>
        cases linesOf level bs with
        | error e => rfl
        | ok zs => exact congrArg Except.ok (List.append_assoc xs ys zs).symm

theorem linesOf_splice (level : Int) (inner rest : List Piece) :
    linesOf level (.splice inner :: rest) = linesOf level (inner ++ rest) := by
  rw [linesOf_append, linesOf, lines]

section
variable {level : Int} {rest : List Piece} {xs ys : List String}

theorem linesOf_line_cons (text : String) (h : linesOf level rest = .ok ys) :
    linesOf level (.line text :: rest) = .ok ((indentation level ++ text) :: ys) := by
  rw [linesOf, lines, h]
  rfl

theorem linesOf_block_cons {inner : List Piece} (hi : linesOf (level + 1) inner = .ok xs)
    (h : linesOf level rest = .ok ys) : linesOf level (.block inner :: rest) = .ok (xs ++ ys) := by
  rw [linesOf, lines, hi, h]
  rfl

theorem linesOf_space_cons (h : linesOf level rest = .ok ys) :
    linesOf level (.space :: rest) = .ok ("" :: ys) := by
  rw [linesOf, lines, h]
  rfl

theorem linesOf_nil (level : Int) : linesOf level [] = .ok [] := by
  rw [linesOf]

end

end Piece

namespace Code

open Text Script
open Piece (linesOf_append linesOf_splice linesOf_line_cons linesOf_block_cons linesOf_space_cons
  linesOf_nil)

/-- A text that the code of a line can start with. -/
structure IsStart (text : String) : Prop where
  oneLine : OneLine text
  starts : Starts text.toList

/-- A statement of one line. -/
structure IsLine (text : String) : Prop extends IsStart text where
  ends : Ends text.toList

/-- The first line of a statement that goes on between parentheses. -/
structure IsOpening (text : String) : Prop extends IsStart text where
  opens : text.toList.getLast? = some '('

/-- The last line of such a statement. -/
structure IsClosing (text : String) : Prop where
  oneLine : OneLine text
  closes : text.toList.head? = some ')'
  ends : Ends text.toList

/-- The line above a block. What stands below a definition returns in the end. -/
structure IsHeading (returns : Bool) (text : String) : Prop where
  oneLine : OneLine text
  opens : text.toList.getLast? = some ':'
  head : if returns then "def ".toList <+: text.toList else Starts text.toList

/-- A comment or nothing. -/
structure IsNote (text : String) : Prop where
  oneLine : OneLine text
  head : ∀ c ∈ text.toList.head?, c = '#'

instance (text : String) : Decidable (IsStart text) :=
  decidable_of_iff (OneLine text ∧ Starts text.toList)
    ⟨fun h => ⟨h.1, h.2⟩, fun h => ⟨h.oneLine, h.starts⟩⟩

instance (text : String) : Decidable (IsLine text) :=
  decidable_of_iff (IsStart text ∧ Ends text.toList)
    ⟨fun h => ⟨h.1, h.2⟩, fun h => ⟨h.toIsStart, h.ends⟩⟩

instance (text : String) : Decidable (IsClosing text) :=
  decidable_of_iff (OneLine text ∧ text.toList.head? = some ')' ∧ Ends text.toList)
    ⟨fun h => ⟨h.1, h.2.1, h.2.2⟩, fun h => ⟨h.oneLine, h.closes, h.ends⟩⟩

instance (returns : Bool) (text : String) : Decidable (IsHeading returns text) :=
  decidable_of_iff (OneLine text ∧ text.toList.getLast? = some ':' ∧
      if returns then "def ".toList <+: text.toList else Starts text.toList)
    ⟨fun h => ⟨h.1, h.2.1, h.2.2⟩, fun h => ⟨h.oneLine, h.opens, h.head⟩⟩

instance (text : String) : Decidable (IsNote text) :=
  decidable_of_iff (OneLine text ∧ text.toList.head?.all fun c => c = '#')
    ⟨fun h => ⟨h.1, fun c hc => of_decide_eq_true (Option.all_eq_true _ _ |>.mp h.2 c hc)⟩,
      fun h => ⟨h.oneLine, Option.all_eq_true _ _ |>.mpr fun c hc => decide_eq_true (h.head c hc)⟩⟩

/-- Pieces that make up some statements. The flag tells whether the last one is known to return. -/
inductive Suite : Bool → List Piece → Prop
  | line {returns : Bool} {text : String} (h : IsLine text)
    (hr : returns = true → "return ".toList <+: text.toList) : Suite returns [.line text]
  | parens {returns : Bool} {opening closing : String} {inner : List Piece} (ho : IsOpening opening)
    (hr : returns = true → "return ".toList <+: opening.toList) (hi : Suite false inner)
    (hc : IsClosing closing) : Suite returns [.line opening, .block inner, .line closing]
  | block {returns : Bool} {header : String} {inner : List Piece} (hh : IsHeading returns header)
    (hi : Suite returns inner) : Suite false [.line header, .block inner]
  | append {returns : Bool} {as bs : List Piece} (ha : Suite false as) (hb : Suite returns bs) :
    Suite returns (as ++ bs)
  | space {returns : Bool} {rest : List Piece} (h : Suite returns rest) :
    Suite returns (.space :: rest)
  | note {returns : Bool} {text : String} {rest : List Piece} (hn : IsNote text)
    (h : Suite returns rest) : Suite returns (.line text :: rest)
  | splice {returns : Bool} {inner rest : List Piece} (h : Suite returns (inner ++ rest)) :
    Suite returns (.splice inner :: rest)

/-- The lines of a suite. -/
structure Shown (returns : Bool) (level : Nat) (lines : List String) : Prop where
  oneLine : ∀ line ∈ lines, OneLine line
  laid : Laid level (rowsOf (lines.map String.toList))
  returning : returns = true → Returning (4 * level) (rowsOf (lines.map String.toList))

section
variable {level : Nat} {text : String} {lines : List String} {returns : Bool}

/-- The lines of a text, of which the last one is empty. -/
theorem Shown.wellPlaced (h : Shown returns 0 lines) :
    WellPlaced (lines.map String.toList ++ [[]]) := by
  have hrows : rowsOf (lines.map String.toList ++ [[]]) = rowsOf (lines.map String.toList) := by
    rw [rowsOf, List.filter_append]
    exact List.append_nil _
  rw [WellPlaced, hrows]
  refine ⟨fun row hrow => ?_, h.laid.placed⟩
  obtain ⟨first, hfirst, hdepth⟩ := h.laid.starts
  rw [Option.some.inj (hrow.symm.trans hfirst), hdepth, Nat.mul_zero]

theorem toList_indentation_append (level : Nat) (text : String) :
    (Piece.indentation level ++ text).toList = rowAt level text.toList := by
  rw [Piece.indentation, String.toList_append, String.toList_ofList]
  rfl

theorem oneLine_indentation_append (h : OneLine text) (level : Nat) :
    OneLine (Piece.indentation level ++ text) := by
  refine oneLine_append.mpr ⟨fun c hc => ?_, h⟩
  rw [Piece.indentation, String.toList_ofList] at hc
  rw [List.eq_of_mem_replicate hc]
  decide

theorem Shown.note (hn : IsNote text) (h : Shown returns level lines) :
    Shown returns level ((Piece.indentation level ++ text) :: lines) := by
  have hrows : rowsOf (((Piece.indentation level ++ text) :: lines).map String.toList) =
      rowsOf (lines.map String.toList) := by
    rw [List.map_cons, toList_indentation_append, rowsOf_cons_note hn.head]
  refine ⟨List.forall_mem_cons.mpr ⟨oneLine_indentation_append hn.oneLine level, h.oneLine⟩, ?_, ?_⟩
  · rw [hrows]
    exact h.laid
  · rw [hrows]
    exact h.returning

theorem Shown.space (h : Shown returns level lines) : Shown returns level ("" :: lines) :=
  ⟨List.forall_mem_cons.mpr ⟨by decide, h.oneLine⟩, h.laid, h.returning⟩

theorem Shown.append {lines' : List String} (h : Shown false level lines)
    (h' : Shown returns level lines') : Shown returns level (lines ++ lines') := by
  have hrows : rowsOf ((lines ++ lines').map String.toList) =
      rowsOf (lines.map String.toList) ++ rowsOf (lines'.map String.toList) := by
    rw [List.map_append, rowsOf, List.filter_append]
    rfl
  refine ⟨List.forall_mem_append.mpr ⟨h.oneLine, h'.oneLine⟩, ?_, fun hr => ?_⟩
  · rw [hrows]
    exact h.laid.append h'.laid
  · rw [hrows]
    exact (h'.returning hr).append_left _

theorem shown_line (h : IsLine text) (hr : returns = true → "return ".toList <+: text.toList) :
    Shown returns level [Piece.indentation level ++ text] := by
  have hrows : rowsOf ([Piece.indentation level ++ text].map String.toList) =
      [rowAt level text.toList] := by
    rw [List.map_singleton, toList_indentation_append, h.starts.rowsOf_cons]
    rfl
  have hone := oneLine_indentation_append h.oneLine level
  refine ⟨List.forall_mem_singleton.mpr hone, ?_, fun ht => ?_⟩
  · rw [hrows]
    exact laid_line h.starts h.ends
  · rw [hrows]
    exact returning_cons (hr ht) (List.forall_mem_nil _)

/-- Only what stands below a definition has to return. -/
theorem IsHeading.returns_of_def (h : IsHeading returns text)
    (hd : "def ".toList <+: text.toList) : returns = true := by
  have hhead := h.head
  -- A heading below which nothing has to return starts as definitions do not.
  by_contra hno
  rw [if_neg hno] at hhead
  exact absurd rfl (hhead.head_ne (by decide) 'd' (head?_of_def hd))

theorem IsHeading.head_ne (h : IsHeading returns text) : ∀ c ∈ text.toList.head?, c ≠ ' ' := by
  have hhead := h.head
  split at hhead
  · exact Text.head_ne (head?_of_def hhead) (by decide)
  · exact hhead.head_ne (by decide)

theorem IsHeading.rowsOf_cons (h : IsHeading returns text) (lines : List (List Char)) :
    rowsOf (rowAt level text.toList :: lines) = rowAt level text.toList :: rowsOf lines := by
  have hhead := h.head
  split at hhead
  · exact rowsOf_cons_of_head (head?_of_def hhead) (by decide) (by decide) lines
  · exact hhead.rowsOf_cons lines

theorem shown_block (hh : IsHeading returns text) (h : Shown returns (level + 1) lines) :
    Shown false level ((Piece.indentation level ++ text) :: lines) := by
  have hrows : rowsOf (((Piece.indentation level ++ text) :: lines).map String.toList) =
      rowAt level text.toList :: rowsOf (lines.map String.toList) := by
    rw [List.map_cons, toList_indentation_append, hh.rowsOf_cons]
  have hone := oneLine_indentation_append hh.oneLine level
  refine ⟨List.forall_mem_cons.mpr ⟨hone, h.oneLine⟩, ?_, nofun⟩
  rw [hrows]
  exact laid_block hh.head_ne hh.opens h.laid fun hd => h.returning (hh.returns_of_def hd)

theorem shown_parens {opening closing : String} (ho : IsOpening opening)
    (hr : returns = true → "return ".toList <+: opening.toList)
    (h : Shown false (level + 1) lines) (hc : IsClosing closing) :
    Shown returns level ((Piece.indentation level ++ opening) ::
      (lines ++ [Piece.indentation level ++ closing])) := by
  have hlast : rowsOf [rowAt level closing.toList] = [rowAt level closing.toList] :=
    rowsOf_cons_of_head hc.closes (by decide) (by decide) []
  have hrows : rowsOf (((Piece.indentation level ++ opening) ::
      (lines ++ [Piece.indentation level ++ closing])).map String.toList) =
      rowAt level opening.toList ::
        (rowsOf (lines.map String.toList) ++ [rowAt level closing.toList]) := by
    rw [List.map_cons, List.map_append, List.map_singleton, toList_indentation_append,
      toList_indentation_append, ho.starts.rowsOf_cons, rowsOf, List.filter_append, ← rowsOf,
      ← rowsOf, hlast]
  have hfirst := oneLine_indentation_append ho.oneLine level
  have hend := oneLine_indentation_append hc.oneLine level
  refine ⟨List.forall_mem_cons.mpr ⟨hfirst, List.forall_mem_append.mpr
    ⟨h.oneLine, List.forall_mem_singleton.mpr hend⟩⟩, ?_, fun ht => ?_⟩
  · rw [hrows]
    exact laid_parens ho.starts ho.opens h.laid hc.closes hc.ends
  · rw [hrows]
    exact returning_parens (hr ht) h.laid hc.closes

end

/-- Whatever level a suite is laid out at, its rows are placed well. -/
theorem Suite.shown {returns : Bool} {pieces : List Piece} (h : Suite returns pieces)
    (level : Nat) : ∃ lines, Piece.linesOf level pieces = .ok lines ∧
      Shown returns level lines := by
  -- A block is laid out one level deeper, so the induction is for all levels at once.
  induction h generalizing level with
  | line h hr => exact ⟨_, linesOf_line_cons _ (linesOf_nil _), shown_line h hr⟩
  | @parens returns opening closing inner ho hr hi hc ih =>
    obtain ⟨lines, hlines, hshown⟩ := ih (level + 1)
    have hlast := linesOf_line_cons closing (linesOf_nil (level : Int))
    exact ⟨_, linesOf_line_cons _ (linesOf_block_cons hlines hlast), shown_parens ho hr hshown hc⟩
  | block hh hi ih =>
    obtain ⟨lines, hlines, hshown⟩ := ih (level + 1)
    refine ⟨_, linesOf_line_cons _ (linesOf_block_cons hlines (linesOf_nil _)), ?_⟩
    rw [List.append_nil]
    exact shown_block hh hshown
  | append ha hb iha ihb =>
    obtain ⟨xs, hxs, hx⟩ := iha level
    obtain ⟨ys, hys, hy⟩ := ihb level
    refine ⟨xs ++ ys, ?_, hx.append hy⟩
    rw [linesOf_append, hxs, hys]
    rfl
  | space h ih =>
    obtain ⟨lines, hlines, hshown⟩ := ih level
    exact ⟨_, linesOf_space_cons hlines, hshown.space⟩
  | note hn h ih =>
    obtain ⟨lines, hlines, hshown⟩ := ih level
    exact ⟨_, linesOf_line_cons _ hlines, hshown.note hn⟩
  | splice h ih =>
    obtain ⟨lines, hlines, hshown⟩ := ih level
    exact ⟨lines, by rw [linesOf_splice, hlines], hshown⟩

end Code

end TreeGrammar
