import TreeGrammar.Grammar.Drawing
import TreeGrammar.Proofs.Lines
import TreeGrammar.Proofs.Unambiguity

/-!
The drawing of a rule determines the rule. Each node has a line of its own, and what stands there in
front of the caption tells where the node stands: its depth, and which of the nodes from the rule
down to it are the last among their siblings. Such lines are read in one way only, whatever lines
come after them: a caption without parts is the whole form of a body, and below any other caption
there are parts up to the one that is drawn as the last.
-/
namespace TreeGrammar

/-- Where a node stands in a drawing. -/
structure Place where
  /-- Whether each node above it, from the rule on, is the last child of its parent. -/
  ancestors : List Bool
  /-- Whether the node itself is. -/
  last : Bool
deriving DecidableEq

namespace Place

/-- The place of a rule, which has no siblings. -/
def root : Place := ⟨[], true⟩

/-- The place of a child. -/
def child (place : Place) (last : Bool) : Place := ⟨place.ancestors ++ [place.last], last⟩

/-- The same place with one more node above all others. -/
def under (last : Bool) (place : Place) : Place := ⟨last :: place.ancestors, place.last⟩

/-- The columns under the nodes above a place. -/
def columns (place : Place) : String := String.join (place.ancestors.map column)

/-- What stands in front of a caption. -/
def branch (place : Place) : String := place.columns ++ connector place.last

theorem columns_child (place : Place) (last : Bool) :
    (place.child last).columns = place.columns ++ column place.last := by
  simp [columns, child, String.join_append]

theorem branch_cons (first : Bool) (ancestors : List Bool) (last : Bool) :
    (Place.mk (first :: ancestors) last).branch =
      column first ++ (Place.mk ancestors last).branch := by
  simp [branch, columns, String.join_cons, String.append_assoc]

theorem unbroken_branch (place : Place) : Text.Unbroken place.branch.toList := by
  obtain ⟨ancestors, last⟩ := place
  induction ancestors with
  | nil => cases last <;> decide
  | cons first ancestors ih =>
    have hcolumn : Text.Unbroken (column first).toList := by cases first <;> decide
    rw [branch_cons, String.toList_append]
    exact List.forall_mem_append.mpr ⟨hcolumn, ih⟩

end Place

/-- A line of a drawing, taken apart. -/
structure Row where
  place : Place
  caption : String
deriving DecidableEq

namespace Row

def line (row : Row) : String := row.place.branch ++ row.caption

/-- The row that a line shows. The caption starts behind the first connector. -/
def read : List Char → Option Row
  | '└' :: '─' :: '─' :: caption => some ⟨⟨[], true⟩, String.ofList caption⟩
  | '├' :: '─' :: '─' :: caption => some ⟨⟨[], false⟩, String.ofList caption⟩
  | ' ' :: ' ' :: ' ' :: line => (read line).map fun row => ⟨row.place.under true, row.caption⟩
  | '│' :: ' ' :: ' ' :: line => (read line).map fun row => ⟨row.place.under false, row.caption⟩
  | _ => none

theorem read_line (row : Row) : read row.line.toList = some row := by
  obtain ⟨⟨ancestors, last⟩, caption⟩ := row
  induction ancestors with
  | nil =>
    have hline : (line ⟨⟨[], last⟩, caption⟩).toList =
        (connector last).toList ++ caption.toList := by
      simp [line, Place.branch, Place.columns]
    rw [hline]
    cases last <;> exact congrArg (fun s => some (Row.mk _ s)) String.ofList_toList
  | cons first ancestors ih =>
    have hline : (line ⟨⟨first :: ancestors, last⟩, caption⟩).toList =
        (column first).toList ++ (line ⟨⟨ancestors, last⟩, caption⟩).toList := by
      rw [line, Place.branch_cons, String.append_assoc, String.toList_append]
      rfl
    rw [hline]
    cases first <;> exact congrArg (Option.map _) ih

end Row

/-- The name of a constructor. -/
def Constructor.title : Constructor → String
  | symbol => "Symbol"
  | literal => "String"
  | pattern => "Pattern"
  | blank => "Blank"
  | star => "Repeat"
  | plus => "Repeat1"
  | choice => "Choice"
  | seq => "Seq"

theorem Constructor.title_injective : Function.Injective title := by
  intro c d h
  revert h
  cases c <;> cases d <;> decide

namespace Body

section
variable {P : Body → Prop} (step : ∀ body, (∀ part ∈ body.parts, P part) → P body)
include step

/-- Induction on bodies that treats all constructors alike. -/
@[elab_as_elim]
theorem induction_on_parts (body : Body) : P body := by
  induction body using induction_on_elements with
  | symbol _ | literal _ | pattern _ | blank => exact step _ (List.forall_mem_nil _)
  | star body ih | plus body ih => exact step _ (List.forall_mem_singleton.mpr ih)
  | seq bodies ih => exact step _ ih
  | choice bodies ih =>
    apply step
    intro part hpart
    cases part with
    | seq inner => exact step _ (ih _ hpart)
    | symbol _ | literal _ | pattern _ | blank | star _ | plus _ | choice _ =>
      exact ih _ hpart _ (List.mem_singleton_self _)

end

/-- What a node is called in a drawing: a body without parts by its whole form. -/
def caption (body : Body) : String :=
  if body.parts = [] then body.written else body.constructor.title

mutual

/-- The nodes of a body in preorder, each with its place. The place of the body is given. -/
def placed (place : Place) : Body → List (Place × Body)
  | symbol name => [(place, symbol name)]
  | literal text => [(place, literal text)]
  | pattern text => [(place, pattern text)]
  | blank => [(place, blank)]
  | star body => (place, star body) :: placed (place.child true) body
  | plus body => (place, plus body) :: placed (place.child true) body
  | choice bodies => (place, choice bodies) :: placedUnder place bodies
  | seq bodies => (place, seq bodies) :: placedUnder place bodies

/-- The nodes of bodies that stand side by side, the last children of the node at the place. -/
def placedUnder (place : Place) : List Body → List (Place × Body)
  | [] => []
  | body :: rest => placed (place.child rest.isEmpty) body ++ placedUnder place rest

end

theorem placed_eq_cons (place : Place) (body : Body) :
    body.placed place = (place, body) :: placedUnder place body.parts := by
  cases body <;> simp [placed, placedUnder, parts]

/-- The rows of a body, one for each of its nodes. -/
def rows (place : Place) (body : Body) : List Row :=
  (body.placed place).map fun node => ⟨node.1, node.2.caption⟩

/-- The rows of bodies that stand side by side. -/
def rowsUnder (place : Place) (bodies : List Body) : List Row :=
  (placedUnder place bodies).map fun node => ⟨node.1, node.2.caption⟩

theorem rows_eq_cons (place : Place) (body : Body) :
    body.rows place = ⟨place, body.caption⟩ :: rowsUnder place body.parts := by
  rw [rows, placed_eq_cons, List.map_cons, rowsUnder]

theorem rowsUnder_cons (place : Place) (body : Body) (rest : List Body) :
    rowsUnder place (body :: rest) =
      body.rows (place.child rest.isEmpty) ++ rowsUnder place rest := by
  rw [rowsUnder, placedUnder, List.map_append, rows, rowsUnder]

/-- A body is drawn as a line of its own and its parts one column further. -/
theorem drawing_eq_cons (columns : String) (last : Bool) (body : Body) :
    body.drawing columns last = (columns ++ connector last ++ body.caption) ::
      drawings (columns ++ column last) body.parts := by
  cases body with
  | symbol _ | literal _ | pattern _ | blank => simp [drawing, drawings, parts, caption]
  | star body | plus body =>
    simp [drawing, drawings, parts, caption, constructor, Constructor.title]
  | choice bodies | seq bodies =>
    cases bodies <;> simp [drawing, drawings, parts, caption, constructor, Constructor.title]

theorem drawings_eq (place : Place) {bodies : List Body}
    (h : ∀ body ∈ bodies, ∀ place, body.drawing place.columns place.last =
      (body.rows place).map Row.line) :
    drawings (place.columns ++ column place.last) bodies =
      (rowsUnder place bodies).map Row.line := by
  induction bodies with
  | nil => rfl
  | cons body rest ih =>
    obtain ⟨hbody, hrest⟩ := List.forall_mem_cons.mp h
    rw [drawings, rowsUnder_cons, List.map_append, ← hbody, ← ih hrest, Place.columns_child]
    rfl

/-- The drawing of a body consists of its rows. -/
theorem drawing_eq (place : Place) (body : Body) :
    body.drawing place.columns place.last = (body.rows place).map Row.line := by
  induction body using induction_on_parts generalizing place with
  | step body ih =>
    rw [drawing_eq_cons, rows_eq_cons, List.map_cons, drawings_eq place ih]
    rfl

theorem exists_of_mem_rowsUnder {place : Place} {bodies : List Body} {row : Row}
    (h : row ∈ rowsUnder place bodies) :
    ∃ body ∈ bodies, ∃ last, row ∈ body.rows (place.child last) := by
  induction bodies with
  | nil => cases h
  | cons body rest ih =>
    rw [rowsUnder_cons] at h
    rcases List.mem_append.mp h with h | h
    · exact ⟨body, List.mem_cons_self, _, h⟩
    · obtain ⟨other, hother, last, hrow⟩ := ih h
      exact ⟨other, List.mem_cons_of_mem body hother, last, hrow⟩

theorem allInText_iff (bodies : List Body) : AllInText bodies ↔ ∀ body ∈ bodies, body.InText := by
  induction bodies with
  | nil => simp [AllInText]
  | cons body rest ih => simp [AllInText, ih]

theorem InText.part {body part : Body} (h : body.InText) (hpart : part ∈ body.parts) :
    part.InText := by
  cases body with
  | symbol _ | literal _ | pattern _ | blank => cases hpart
  | star body | plus body => exact List.mem_singleton.mp hpart ▸ h
  | choice bodies | seq bodies => exact (allInText_iff bodies).mp h part hpart

/-- The form of a body has an opening bracket, the name of a constructor has none. -/
theorem written_ne_title (body : Body) (c : Constructor) : body.written ≠ c.title := by
  intro h
  have hnone : '(' ∉ c.title.toList := by cases c <;> decide
  have hopening : '(' ∈ body.constructor.opening.toList := by
    cases body.constructor <;> decide
  rw [← h, toList_written] at hnone
  exact hnone (List.mem_append_left _ hopening)

/-- A caption tells the body, or else its constructor and that there are parts. -/
theorem caption_inj {a b : Body} (ha : a.InText) (hb : b.InText) (h : a.caption = b.caption) :
    a = b ∨ a.constructor = b.constructor ∧ a.parts ≠ [] ∧ b.parts ≠ [] := by
  unfold caption at h
  split_ifs at h with hpa hpb hpb
  · exact .inl (written_inj ha hb h)
  · exact absurd h (written_ne_title a _)
  · exact absurd h.symm (written_ne_title b _)
  · exact .inr ⟨Constructor.title_injective h, hpa, hpb⟩

theorem label?_eq_none {body : Body} (h : body.parts ≠ []) : body.label? = none := by
  cases body with
  | symbol _ | literal _ | pattern _ => exact absurd rfl h
  | blank | star _ | plus _ | choice _ | seq _ => rfl

/-- Bodies with parts have no label, so they are given by their constructor and their parts. -/
theorem eq_of_parts {a b : Body} (hsame : a.constructor = b.constructor) (hne : a.parts ≠ [])
    (hparts : a.parts = b.parts) : a = b := by
  have hlabels : a.label? = b.label? := by
    rw [label?_eq_none hne, label?_eq_none (hparts ▸ hne)]
  exact (eq_iff_parts a b).mpr ⟨hsame, hlabels, hparts⟩

/-- The rows of a body are read in one way only, whatever rows follow. -/
def ReadOnce (a : Body) : Prop :=
  ∀ ⦃b : Body⦄ ⦃p q : Place⦄ ⦃x y : List Row⦄, a.InText → b.InText →
    a.rows p ++ x = b.rows q ++ y → p = q ∧ a = b ∧ x = y

theorem rowsUnder_append_inj {place : Place} {as bs : List Body} {x y : List Row}
    (honce : ∀ a ∈ as, a.ReadOnce) (hneas : as ≠ []) (hnebs : bs ≠ [])
    (has : ∀ a ∈ as, a.InText) (hbs : ∀ b ∈ bs, b.InText)
    (h : rowsUnder place as ++ x = rowsUnder place bs ++ y) : as = bs ∧ x = y := by
  induction as generalizing bs with
  | nil => exact absurd rfl hneas
  | cons a as ih =>
    obtain ⟨b, bs, rfl⟩ := List.exists_cons_of_ne_nil hnebs
    obtain ⟨honcea, honceas⟩ := List.forall_mem_cons.mp honce
    obtain ⟨ha, hresta⟩ := List.forall_mem_cons.mp has
    obtain ⟨hb, hrestb⟩ := List.forall_mem_cons.mp hbs
    rw [rowsUnder_cons, rowsUnder_cons, List.append_assoc, List.append_assoc] at h
    obtain ⟨hplace, rfl, hrest⟩ := honcea ha hb h
    -- Whether another part follows is drawn into the place of this one.
    have hempty : as.isEmpty = bs.isEmpty := congrArg Place.last hplace
    cases as with
    | nil =>
      obtain rfl : bs = [] := List.isEmpty_iff.mp hempty.symm
      exact ⟨rfl, hrest⟩
    | cons next as =>
      have hne : bs ≠ [] := by
        rintro rfl
        cases hempty
      obtain ⟨htail, hxy⟩ := ih honceas (List.cons_ne_nil _ _) hne hresta hrestb hrest
      exact ⟨congrArg (a :: ·) htail, hxy⟩

theorem readOnce (a : Body) : a.ReadOnce := by
  induction a using induction_on_parts with
  | step a ih =>
    intro b p q x y ha hb h
    rw [rows_eq_cons, rows_eq_cons, List.cons_append, List.cons_append] at h
    obtain ⟨hrow, hrest⟩ := List.cons.inj h
    obtain ⟨rfl, hcaption⟩ := Row.mk.inj hrow
    -- Without parts the first row is all there is; with parts it tells that rows of parts follow.
    rcases caption_inj ha hb hcaption with rfl | ⟨hsame, hnea, hneb⟩
    · exact ⟨rfl, rfl, List.append_cancel_left hrest⟩
    · obtain ⟨hparts, hxy⟩ := rowsUnder_append_inj ih hnea hneb (fun _ => ha.part)
        (fun _ => hb.part) hrest
      exact ⟨rfl, eq_of_parts hsame hnea hparts, hxy⟩

theorem InText.unbroken_caption {body : Body} (h : body.InText) :
    Text.Unbroken body.caption.toList := by
  have htitle (c : Constructor) : Text.Unbroken c.title.toList := by cases c <;> decide
  have hopening (c : Constructor) : Text.Unbroken c.opening.toList := by cases c <;> decide
  have hclosing : Text.Unbroken [')'] := by decide
  have hnone : Text.Unbroken [']', ')'] := by decide
  unfold caption
  split_ifs with hparts
  -- A body with parts is not shown by its form, so only labels have to be looked at.
  · rw [toList_written]
    refine List.forall_mem_append.mpr ⟨hopening _, ?_⟩
    cases body with
    | symbol label | literal label | pattern label =>
      obtain ⟨s, rfl⟩ := h
      exact List.forall_mem_append.mpr ⟨Text.unbroken_quoted s, hclosing⟩
    | blank => exact List.forall_mem_nil _
    | star body | plus body => exact absurd hparts (List.cons_ne_nil _ _)
    | choice bodies | seq bodies =>
      obtain rfl : bodies = [] := hparts
      exact hnone
  · exact htitle _

/-- No caption of a body has a line break, whatever its tokens hold. -/
theorem unbroken_of_mem_rows {place : Place} {body : Body} {row : Row} (h : body.InText)
    (hrow : row ∈ body.rows place) : Text.Unbroken row.caption.toList := by
  induction body using induction_on_parts generalizing place with
  | step body ih =>
    rw [rows_eq_cons] at hrow
    rcases List.mem_cons.mp hrow with rfl | hrow
    · exact h.unbroken_caption
    · obtain ⟨part, hpart, last, hrow⟩ := exists_of_mem_rowsUnder hrow
      exact ih part hpart (h.part hpart) hrow

end Body

namespace Rule

/-- The rows of a rule: its own, then one for each node of its body in preorder. -/
def rows (rule : Rule) : List Row :=
  ⟨.root, "Rule " ++ rule.name.shown⟩ :: rule.body.rows (Place.root.child true)

theorem drawn_eq (rule : Rule) : rule.drawn = Piece.joinLines (rule.rows.map Row.line) := by
  have hbody := rule.body.drawing_eq (Place.root.child true)
  have hrule : rule.drawing = rule.rows.map Row.line := by
    rw [drawing, rows, List.map_cons, ← hbody]
    simp [Row.line, Place.branch, Place.columns, Place.root, Place.child, String.append_assoc]
  rw [drawn, hrule]

/-- What holds of the characters in the name and of all that are no line breaks holds of all
characters in the lines of a rule. -/
theorem forall_mem_line {rule : Rule} {P : Char → Prop} (htext : rule.InText)
    (hall : ∀ c, Text.isLineBreak c = false → P c) (hname : ∀ c ∈ rule.name.shown.toList, P c) :
    ∀ line ∈ rule.rows.map Row.line, ∀ c ∈ line.toList, P c := by
  have hline {row : Row} (hcaption : ∀ c ∈ row.caption.toList, P c) :
      ∀ c ∈ row.line.toList, P c := by
    rw [Row.line, String.toList_append]
    exact List.forall_mem_append.mpr ⟨fun c hc => hall c (row.place.unbroken_branch c hc), hcaption⟩
  rw [List.forall_mem_map, rows, List.forall_mem_cons]
  constructor
  · have hword : Text.Unbroken "Rule ".toList := by decide
    apply hline
    rw [String.toList_append]
    exact List.forall_mem_append.mpr ⟨fun c hc => hall c (hword c hc), hname⟩
  · intro row hrow
    exact hline fun c hc => hall c (Body.unbroken_of_mem_rows htext.2 hrow c hc)

theorem splitOn_drawn {rule : Rule} (htext : rule.InText)
    (hname : '\n' ∉ rule.name.shown.toList) : rule.drawn.toList.splitOn '\n' =
      rule.rows.map (fun row => row.line.toList) ++ [[]] := by
  have hfree : ∀ line ∈ rule.rows.map Row.line, '\n' ∉ line.toList := by
    intro line hline hc
    refine forall_mem_line (P := (· ≠ '\n')) htext ?_ ?_ line hline _ hc rfl
    · rintro _ hbreak rfl
      cases hbreak
    · rintro _ hmem rfl
      exact hname hmem
  have hcut := Text.splitOn_joinLines hfree ""
  rw [String.append_empty, ← drawn_eq, List.map_map] at hcut
  exact hcut

theorem linesOf_drawn {rule : Rule} (htext : rule.InText)
    (hname : Text.Unbroken rule.name.shown.toList) :
    Text.linesOf rule.drawn = rule.rows.map Row.line := by
  rw [drawn_eq]
  exact Text.linesOf_joinLines (forall_mem_line htext (fun _ hc => hc) hname)

/-- The rows of a rule determine the rule. -/
theorem rows_inj {r s : Rule} (hr : r.InText) (hs : s.InText) (h : r.rows = s.rows) : r = s := by
  obtain ⟨label, body⟩ := r
  obtain ⟨otherLabel, otherBody⟩ := s
  obtain ⟨⟨name, rfl⟩, hbody⟩ := hr
  obtain ⟨⟨other, rfl⟩, hotherBody⟩ := hs
  obtain ⟨hrow, hrest⟩ := List.cons.inj h
  obtain ⟨-, hcaption⟩ := Row.mk.inj hrow
  have hnames : ("Rule " ++ name).toList = ("Rule " ++ other).toList := congrArg _ hcaption
  rw [String.toList_append, String.toList_append, List.append_cancel_left_eq,
    String.toList_inj] at hnames
  obtain ⟨-, hbodies, -⟩ := body.readOnce (x := []) (y := []) hbody hotherBody
    (congrArg (· ++ []) hrest)
  rw [hnames, hbodies]

/-- A rule whose name has no line feed is drawn with one line for each node, in preorder; if the
name has no line break of any kind, these are all lines of the drawing. Each line is read back as
the place of its node and the caption, and no other such rule has the same drawing. -/
theorem drawing_determines {rule : Rule} (htext : rule.InText)
    (hname : '\n' ∉ rule.name.shown.toList) :
    rule.drawn.toList.splitOn '\n' = rule.rows.map (fun row => row.line.toList) ++ [[]] ∧
    (Text.Unbroken rule.name.shown.toList →
      Text.linesOf rule.drawn = rule.rows.map Row.line) ∧
    (∀ row ∈ rule.rows, Row.read row.line.toList = some row) ∧
    ∀ other : Rule, other.InText → '\n' ∉ other.name.shown.toList →
      other.drawn = rule.drawn → other = rule := by
  refine ⟨splitOn_drawn htext hname, linesOf_drawn htext, fun row _ => row.read_line,
    fun other hother hfree h => ?_⟩
  have hcut : other.rows.map (fun row => row.line.toList) =
      rule.rows.map (fun row => row.line.toList) := by
    apply (List.append_left_inj [[]]).mp
    rw [← splitOn_drawn hother hfree, ← splitOn_drawn htext hname, h]
  have hread := congrArg (List.map Row.read) hcut
  simp only [List.map_map, Function.comp_def, Row.read_line] at hread
  have hrows : other.rows = rule.rows :=
    List.map_injective_iff.mpr (fun _ _ => Option.some.inj) hread
  exact rows_inj hother htext hrows

/-- A connector in a name and a line feed in a token do not hide where a group is empty and where a
repetition ends. -/
theorem connectors_in_texts_drawn :
    let rule : Rule :=
      ⟨"a└──Seq", .seq [.choice [.seq [], .blank], .plus (.literal "\n   └──Seq")]⟩
    let other : Rule :=
      ⟨"a└──Seq", .seq [.choice [.seq []], .blank, .plus (.literal "\n   └──Seq")]⟩
    rule.InText ∧ '\n' ∉ rule.name.shown.toList ∧
    Text.linesOf rule.drawn =
      ["└──Rule a└──Seq",
       "   └──Seq",
       "      ├──Choice",
       "      │  ├──Seq([])",
       "      │  └──Blank()",
       "      └──Repeat1",
       "         └──String('\\n   └──Seq')"] ∧
    other.drawn ≠ rule.drawn := by
  intro rule other
  have htoken : Body.InText (.plus (.literal "\n   └──Seq")) := ⟨_, rfl⟩
  have htext : rule.InText := ⟨⟨_, rfl⟩, ⟨trivial, trivial, trivial⟩, htoken, trivial⟩
  have hother : other.InText := ⟨⟨_, rfl⟩, ⟨trivial, trivial⟩, trivial, htoken, trivial⟩
  have hname : '\n' ∉ rule.name.shown.toList := by decide
  obtain ⟨-, hlines, -, honly⟩ := drawing_determines htext hname
  refine ⟨htext, hname, ?_, fun h => ?_⟩
  · rw [hlines (by decide)]
    decide +kernel
  · have heq := honly other hother hname h
    exact absurd heq (by decide)

end Rule
end TreeGrammar
