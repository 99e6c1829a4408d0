import Mathlib.Data.List.TakeWhile
import TreeGrammar.Text.Lines

/-!
Rows: the lines of a text that are neither blank nor comments. How deep a row stands is told by the
blanks in front of it. Rows are placed well if they are deeper only below a row that opens a block,
and there by one level, if each parenthesis that opens a block is closed where the block ends, and
if each definition returns in the end.
-/
namespace TreeGrammar.Text

/-- How many blanks stand in front of a line. -/
def indent (line : List Char) : Nat :=
  (line.takeWhile (· == ' ')).length

/-- A line without the blanks in front of it. -/
def content (line : List Char) : List Char :=
  line.dropWhile (· == ' ')

/-- Whether a line is neither blank nor a comment. -/
def isRow (line : List Char) : Bool :=
  (content line).head?.any (· != '#')

def rowsOf (lines : List (List Char)) : List (List Char) :=
  lines.filter isRow

def Opens (row : List Char) : Prop :=
  row.getLast? = some ':' ∨ row.getLast? = some '('

/-- The row starts with a parenthesis that closes a block. -/
def Closes (row : List Char) : Prop :=
  (content row).head? = some ')'

/-- The rows next to a row that are deeper. -/
def below (row : List Char) (after : List (List Char)) : List (List Char) :=
  after.takeWhile fun next => indent row < indent next

/-- What follows where the rows are no longer deeper. -/
def beyond (row : List Char) (after : List (List Char)) : List (List Char) :=
  after.dropWhile fun next => indent row < indent next

/-- The last statement of those with the given indentation returns. What follows its first row is
deeper or closes a parenthesis. -/
def Returning (depth : Nat) (rows : List (List Char)) : Prop :=
  ∃ before last after, rows = before ++ last :: after ∧ indent last = depth ∧
    "return ".toList <+: content last ∧
    ∀ row ∈ after, depth < indent row ∨ (indent row = depth ∧ Closes row)

/-- A row before the rows after it. It is indented by whole levels, and the next row is one level
deeper if this one opens a block, or else not deeper. Where the rows are no longer deeper, a
parenthesis that it opens is closed. What stands below a definition returns in the end. -/
structure Fits (row : List Char) (after : List (List Char)) : Prop where
  whole : 4 ∣ indent row
  opened : Opens row → ∃ next ∈ after.head?, indent next = indent row + 4
  kept : ¬Opens row → ∀ next ∈ after.head?, indent next ≤ indent row
  closed : row.getLast? = some '(' →
    ∃ next ∈ (beyond row after).head?, indent next = indent row ∧ Closes next
  returns : "def ".toList <+: content row → Returning (indent row + 4) (below row after)

/-- Each row fits the rows after it. -/
def Placed : List (List Char) → Prop
  | [] => True
  | row :: after => Fits row after ∧ Placed after

/-- The rows of a text start at its margin, and each fits the rows after it. -/
def WellPlaced (lines : List (List Char)) : Prop :=
  (∀ row ∈ (rowsOf lines).head?, indent row = 0) ∧ Placed (rowsOf lines)

/-- A row may not be deeper than one that opens nothing. -/
example : ¬WellPlaced ["a".toList, "    b".toList] := fun h =>
  absurd (h.2.1.kept (by unfold Opens; decide) "    b".toList rfl) (by decide)

section
variable {row : List Char} {after inner more rows rows' : List (List Char)} {level depth : Nat}

theorem below_append_beyond (row : List Char) (after : List (List Char)) :
    below row after ++ beyond row after = after :=
  List.takeWhile_append_dropWhile

/-- Rows that are not deeper end what is below. -/
theorem below_append (hm : ∀ next ∈ more.head?, indent next ≤ indent row) :
    below row (after ++ more) = below row after := by
  have hnone : below row more = [] := by
    cases more with
    | nil => rfl
    | cons next more =>
      have hnext := hm next rfl
      exact List.takeWhile_cons_of_neg (by simpa using hnext)
  rw [below, List.takeWhile_append]
  -- What is below ends inside `after` or goes to its end, and there `more` adds nothing.
  split
  · rename_i hall
    rw [← below, hnone, List.append_nil]
    exact ((List.takeWhile_prefix _).eq_of_length hall).symm
  · rfl

theorem beyond_append (hm : ∀ next ∈ more.head?, indent next ≤ indent row) :
    beyond row (after ++ more) = beyond row after ++ more := by
  have hsplit := below_append_beyond row (after ++ more)
  rw [below_append hm] at hsplit
  rw [← List.append_right_inj (below row after), hsplit, ← List.append_assoc, below_append_beyond]

theorem below_of_deeper (h : ∀ next ∈ after, indent row < indent next) : below row after = after :=
  List.takeWhile_eq_self_iff.mpr fun next hn => decide_eq_true (h next hn)

/-- A row fits further rows where they are not deeper than it. -/
theorem Fits.append (h : Fits row after) (hm : ∀ next ∈ more.head?, indent next ≤ indent row) :
    Fits row (after ++ more) where
  whole := h.whole
  opened ho := by
    obtain ⟨next, hnext, hdepth⟩ := h.opened ho
    exact ⟨next, by rw [List.head?_append, hnext]; rfl, hdepth⟩
  kept ho next hnext := by
    rw [List.head?_append] at hnext
    rcases Option.or_eq_some_iff.mp hnext with hnext | ⟨-, hnext⟩
    · exact h.kept ho next hnext
    · exact hm next hnext
  closed hl := by
    obtain ⟨next, hnext, hclose⟩ := h.closed hl
    exact ⟨next, by rw [beyond_append hm, List.head?_append, hnext]; rfl, hclose⟩
  returns hd := by
    rw [below_append hm]
    exact h.returns hd

theorem Placed.append (h : Placed rows) (h' : Placed rows')
    (hle : ∀ row ∈ rows, ∀ next ∈ rows'.head?, indent next ≤ indent row) :
    Placed (rows ++ rows') := by
  induction rows with
  | nil => exact h'
  | cons row after ih =>
    obtain ⟨hrow, hafter⟩ := List.forall_mem_cons.mp hle
    exact ⟨h.1.append hrow, ih h.2 hafter⟩

/-- What returns in the end does so after other rows, too. -/
theorem Returning.append_left (h : Returning depth rows') (rows : List (List Char)) :
    Returning depth (rows ++ rows') := by
  obtain ⟨before, last, after, rfl, hlast⟩ := h
  exact ⟨rows ++ before, last, after, (List.append_assoc _ _ _).symm, hlast⟩

/-- Statements at a level: the first row stands at it, and none stands above it. -/
structure Laid (level : Nat) (rows : List (List Char)) : Prop where
  starts : ∃ row ∈ rows.head?, indent row = 4 * level
  within : ∀ row ∈ rows, 4 * level ≤ indent row
  placed : Placed rows

theorem Laid.append (h : Laid level rows) (h' : Laid level rows') :
    Laid level (rows ++ rows') := by
  obtain ⟨first, hfirst, hdepth⟩ := h.starts
  refine ⟨⟨first, by rw [List.head?_append, hfirst]; rfl, hdepth⟩,
    List.forall_mem_append.mpr ⟨h.within, h'.within⟩, h.placed.append h'.placed ?_⟩
  obtain ⟨first', hfirst', hdepth'⟩ := h'.starts
  intro row hr next hnext
  obtain rfl : first' = next := Option.some.inj (hfirst'.symm.trans hnext)
  exact hdepth'.trans_le (h.within row hr)

end

/-- A text in a line at a level. -/
def rowAt (level : Nat) (text : List Char) : List Char :=
  List.replicate (4 * level) ' ' ++ text

section
variable {text header opening closing : List Char} {inner : List (List Char)} {level : Nat}

theorem indent_rowAt (h : ∀ c ∈ text.head?, c ≠ ' ') : indent (rowAt level text) = 4 * level := by
  have hnone : text.takeWhile (· == ' ') = [] := by
    cases text with
    | nil => rfl
    | cons c text => exact List.takeWhile_cons_of_neg (by simpa using h c rfl)
  rw [indent, rowAt, List.takeWhile_append_of_pos (by simp), hnone, List.append_nil,
    List.length_replicate]

theorem content_rowAt (h : ∀ c ∈ text.head?, c ≠ ' ') : content (rowAt level text) = text := by
  have hsame : text.dropWhile (· == ' ') = text := by
    cases text with
    | nil => rfl
    | cons c text => exact List.dropWhile_cons_of_neg (by simpa using h c rfl)
  rw [content, rowAt, List.dropWhile_append_of_pos (by simp), hsame]

theorem isRow_rowAt (h : ∀ c ∈ text.head?, c ≠ ' ') :
    isRow (rowAt level text) = text.head?.any (· != '#') := by
  rw [isRow, content_rowAt h]

theorem getLast?_rowAt {c : Char} (h : text.getLast? = some c) :
    (rowAt level text).getLast? = some c := by
  rw [rowAt, List.getLast?_append, h, Option.some_or]

/-- The text starts a statement that is no definition. -/
def Starts (text : List Char) : Prop :=
  ∃ c ∈ text.head?, c ∉ [' ', '#', ')', 'd']

/-- The text opens no block. -/
def Ends (text : List Char) : Prop :=
  ∃ c ∈ text.getLast?, c ∉ [':', '(']

instance (text : List Char) : Decidable (Starts text) :=
  decidable_of_iff (text.head?.any fun c => c ∉ [' ', '#', ')', 'd'])
    (by simp only [Starts, Option.any_eq_true, decide_eq_true_eq]; rfl)

instance (text : List Char) : Decidable (Ends text) :=
  decidable_of_iff (text.getLast?.any fun c => c ∉ [':', '('])
    (by simp only [Ends, Option.any_eq_true, decide_eq_true_eq]; rfl)

theorem Starts.head_ne {c : Char} (h : Starts text) (hc : c ∈ [' ', '#', ')', 'd']) :
    ∀ first ∈ text.head?, first ≠ c := by
  obtain ⟨d, hd, hnone⟩ := h
  intro first hfirst heq
  obtain rfl : d = first := Option.some.inj (hd.symm.trans hfirst)
  exact hnone (heq ▸ hc)

theorem Starts.append (h : Starts text) (more : List Char) : Starts (text ++ more) := by
  obtain ⟨c, hc, hnone⟩ := h
  exact ⟨c, by rw [List.head?_append, hc]; rfl, hnone⟩

theorem Ends.append_left (h : Ends text) (before : List Char) : Ends (before ++ text) := by
  obtain ⟨c, hc, hnone⟩ := h
  exact ⟨c, by rw [List.getLast?_append, hc]; rfl, hnone⟩

theorem Ends.not_opens (h : Ends text) : ¬Opens (rowAt level text) := by
  obtain ⟨c, hc, hnone⟩ := h
  rw [Opens, getLast?_rowAt hc]
  rintro (heq | heq)
  · exact hnone (by rw [Option.some.inj heq]; decide)
  · exact hnone (by rw [Option.some.inj heq]; decide)

theorem head_ne {c d : Char} (h : text.head? = some c) (hne : c ≠ d) :
    ∀ first ∈ text.head?, first ≠ d := by
  rw [h]
  rintro _ ⟨⟩
  exact hne

theorem head?_of_def (h : "def ".toList <+: text) : text.head? = some 'd' := by
  obtain ⟨more, rfl⟩ := h
  rfl

theorem head?_of_return (h : "return ".toList <+: text) : text.head? = some 'r' := by
  obtain ⟨more, rfl⟩ := h
  rfl

theorem rowsOf_cons_of_head {c : Char} (h : text.head? = some c) (hb : c ≠ ' ') (hn : c ≠ '#')
    (lines : List (List Char)) :
    rowsOf (rowAt level text :: lines) = rowAt level text :: rowsOf lines := by
  apply List.filter_cons_of_pos
  rw [isRow_rowAt (head_ne h hb), h]
  simpa using hn

theorem Starts.rowsOf_cons (h : Starts text) (lines : List (List Char)) :
    rowsOf (rowAt level text :: lines) = rowAt level text :: rowsOf lines := by
  obtain ⟨c, hc, hnone⟩ := h
  rw [List.mem_cons, List.mem_cons, not_or, not_or] at hnone
  exact rowsOf_cons_of_head hc hnone.1 hnone.2.1 lines

/-- Notes and blank lines are no rows. -/
theorem rowsOf_cons_note (h : ∀ c ∈ text.head?, c = '#') (lines : List (List Char)) :
    rowsOf (rowAt level text :: lines) = rowsOf lines := by
  have hblank : ∀ c ∈ text.head?, c ≠ ' ' := by
    intro c hc
    rw [h c hc]
    decide
  apply List.filter_cons_of_neg
  rw [isRow_rowAt hblank]
  cases hhead : text.head? with
  | none => simp
  | some c => simp [h c hhead]

/-- A row that opens nothing stands by itself. -/
theorem fits_nil (hb : ∀ c ∈ text.head?, c ≠ ' ') (hd : ∀ c ∈ text.head?, c ≠ 'd')
    (he : Ends text) : Fits (rowAt level text) [] where
  whole := by
    rw [indent_rowAt hb]
    exact Nat.dvd_mul_right 4 level
  opened ho := absurd ho he.not_opens
  kept _ _ hnext := by cases hnext
  closed hl := absurd (.inr hl) he.not_opens
  returns hdef := by
    rw [content_rowAt hb] at hdef
    exact absurd rfl (hd 'd' (head?_of_def hdef))

theorem laid_line (hs : Starts text) (he : Ends text) : Laid level [rowAt level text] := by
  have hblank := hs.head_ne (c := ' ') (by decide)
  have hd := hs.head_ne (c := 'd') (by decide)
  have hdepth : indent (rowAt level text) = 4 * level := indent_rowAt hblank
  exact ⟨⟨_, rfl, hdepth⟩, List.forall_mem_singleton.mpr hdepth.ge,
    fits_nil hblank hd he, trivial⟩

theorem Laid.deeper (h : Laid (level + 1) inner) {row : List Char} (hr : indent row = 4 * level) :
    ∀ next ∈ inner, indent row < indent next := fun next hn => by
  have hwithin := h.within next hn
  omega

/-- A row that opens a block fits the rows of the block and what follows them. -/
theorem fits_opening {row : List Char} {more : List (List Char)} (hr : indent row = 4 * level)
    (ho : Opens row) (hi : Laid (level + 1) inner)
    (hm : ∀ next ∈ more.head?, indent next = 4 * level)
    (hc : row.getLast? = some '(' → ∃ next ∈ more.head?, Closes next)
    (hd : "def ".toList <+: content row → Returning (4 * (level + 1)) inner) :
    Fits row (inner ++ more) where
  whole := hr ▸ Nat.dvd_mul_right 4 level
  opened _ := by
    obtain ⟨next, hnext, hstarts⟩ := hi.starts
    exact ⟨next, by rw [List.head?_append, hnext]; rfl, by omega⟩
  kept hno := absurd ho hno
  closed hl := by
    obtain ⟨next, hnext, hclose⟩ := hc hl
    -- The whole block is deeper, so what closes it is the first of the rows that follow.
    have hnone : beyond row inner = [] :=
      List.dropWhile_eq_nil_iff.mpr fun next hn => decide_eq_true (hi.deeper hr next hn)
    refine ⟨next, ?_, (hm next hnext).trans hr.symm, hclose⟩
    rwa [beyond_append fun next hn => (hm next hn).trans hr.symm |>.le, hnone]
  returns hdef := by
    rw [below_append fun next hn => (hm next hn).trans hr.symm |>.le,
      below_of_deeper (hi.deeper hr), hr]
    exact hd hdef

/-- A header stands above a block, which returns in the end if the header is that of a
definition. -/
theorem laid_block (hs : ∀ first ∈ header.head?, first ≠ ' ') (hl : header.getLast? = some ':')
    (hi : Laid (level + 1) inner)
    (hd : "def ".toList <+: header → Returning (4 * (level + 1)) inner) :
    Laid level (rowAt level header :: inner) := by
  have hdepth : indent (rowAt level header) = 4 * level := indent_rowAt hs
  have hcolon : (rowAt level header).getLast? = some ':' := getLast?_rowAt hl
  have hfits : Fits (rowAt level header) (inner ++ []) := by
    refine fits_opening hdepth (.inl hcolon) hi nofun (fun hparen => ?_) fun hdef => ?_
    · rw [hcolon] at hparen
      cases hparen
    · rw [content_rowAt hs] at hdef
      exact hd hdef
  rw [List.append_nil] at hfits
  exact ⟨⟨_, rfl, hdepth⟩, List.forall_mem_cons.mpr
    ⟨hdepth.ge, fun next hn => hdepth.ge.trans (hi.deeper hdepth next hn).le⟩, hfits, hi.placed⟩

theorem closes_rowAt (hc : closing.head? = some ')') :
    indent (rowAt level closing) = 4 * level ∧ Closes (rowAt level closing) := by
  have hblank := head_ne hc (show ')' ≠ ' ' by decide)
  exact ⟨indent_rowAt hblank, by rw [Closes, content_rowAt hblank, hc]⟩

/-- Statements between two parentheses stand one level deeper than these. -/
theorem laid_parens (hs : Starts opening) (hl : opening.getLast? = some '(')
    (hi : Laid (level + 1) inner) (hc : closing.head? = some ')') (he : Ends closing) :
    Laid level (rowAt level opening :: (inner ++ [rowAt level closing])) := by
  have hblank := hs.head_ne (c := ' ') (by decide)
  have hdepth : indent (rowAt level opening) = 4 * level := indent_rowAt hblank
  obtain ⟨hlast, hclose⟩ : indent (rowAt level closing) = 4 * level ∧ _ := closes_rowAt hc
  have hnext : ∀ next ∈ [rowAt level closing].head?, indent next = 4 * level := by
    rintro _ ⟨⟩
    exact hlast
  have hfits : Fits (rowAt level opening) (inner ++ [rowAt level closing]) := by
    refine fits_opening hdepth (.inr (getLast?_rowAt hl)) hi hnext (fun _ => ?_) fun hdef => ?_
    · exact ⟨_, rfl, hclose⟩
    · rw [content_rowAt hblank] at hdef
      exact absurd rfl (hs.head_ne (by decide) 'd' (head?_of_def hdef))
  have hplaced : Placed [rowAt level closing] :=
    ⟨fits_nil (head_ne hc (by decide)) (head_ne hc (by decide)) he, trivial⟩
  refine ⟨⟨_, rfl, hdepth⟩, List.forall_mem_cons.mpr ⟨hdepth.ge, List.forall_mem_append.mpr
    ⟨fun next hn => hdepth.ge.trans (hi.deeper hdepth next hn).le, ?_⟩⟩, hfits, ?_⟩
  · exact List.forall_mem_singleton.mpr hlast.ge
  · refine hi.placed.append hplaced fun row hr next hn => ?_
    rw [hnext next hn, ← hdepth]
    exact (hi.deeper hdepth row hr).le

/-- A row that returns ends the statements, if what follows it belongs to it. -/
theorem returning_cons {after : List (List Char)} (hr : "return ".toList <+: text)
    (ha : ∀ row ∈ after, 4 * level < indent row ∨ (indent row = 4 * level ∧ Closes row)) :
    Returning (4 * level) (rowAt level text :: after) := by
  have hblank := head_ne (head?_of_return hr) (show 'r' ≠ ' ' by decide)
  exact ⟨[], _, after, rfl, indent_rowAt hblank, by rwa [content_rowAt hblank], ha⟩

/-- What follows a row that returns may stand between parentheses. -/
theorem returning_parens (hr : "return ".toList <+: opening) (hi : Laid (level + 1) inner)
    (hc : closing.head? = some ')') :
    Returning (4 * level) (rowAt level opening :: (inner ++ [rowAt level closing])) := by
  refine returning_cons hr (List.forall_mem_append.mpr ⟨fun row hrow => .inl ?_, ?_⟩)
  · have hwithin := hi.within row hrow
    omega
  · exact List.forall_mem_singleton.mpr (.inr (closes_rowAt hc))

end

end TreeGrammar.Text
