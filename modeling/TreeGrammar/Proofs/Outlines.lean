import Mathlib.Data.List.Basic
import TreeGrammar.Proofs.Decoding
import TreeGrammar.Proofs.Positions
import TreeGrammar.Proofs.Preorder
import TreeGrammar.Tree.Outline

/-!
Outlines laid out. The leaves are written one after another whatever stands around them, so their
stretches depend on their texts alone, and each is read back from the bytes written so far, which
later leaves only add to. A tree fills the line from one column to another; its children fill parts
of that, one after the other.
-/
namespace TreeGrammar

/-- A stretch of the first row of a source, by the offsets of its ends. -/
structure Source.Spans (src : Source) (l : Loc) (first last : Nat) : Prop where
  place : l = ⟨.at 0 first, .at 0 last⟩
  le : first ≤ last
  inside : last ≤ src.bytes.length

theorem Source.offset_firstRow {src : Source} {column : Nat} (h : column ≤ src.bytes.length) :
    src.offset (.at 0 column) = .ok column := by
  have hoffset := src.offset_at_nat 0 column
  have hcolumn : src.offsetAt 0 column = min (0 + column) src.bytes.length := rfl
  rw [hcolumn, Nat.zero_add, Nat.min_eq_left h] at hoffset
  exact hoffset

theorem Source.Spans.token {src : Source} {l : Loc} {first last : Nat}
    (h : src.Spans l first last) :
    src.token l = .ok (Text.decodeLossy ((src.bytes.drop first).take (last - first))) := by
  obtain ⟨rfl, hle, hinside⟩ := h
  exact token_of_offset (offset_firstRow (hle.trans hinside)) (offset_firstRow hinside)

namespace Outline

mutual

/-- The texts of the leaves from left to right. -/
def leafTexts : Outline → List String
  | leaf _ text => [text]
  | inner _ children => leafTextsOf children

def leafTextsOf : List Outline → List String
  | [] => []
  | child :: rest => child.leafTexts ++ leafTextsOf rest

end

mutual

/-- The tree has the form and the kinds of an outline; its nodes for leaves have the given
stretches, from left to right. -/
inductive Shows : Outline → Tree → List Loc → Prop where
  | leaf (kind : Label) (text : String) (loc : Loc) :
    Shows (.leaf kind text) (.node kind loc [] (.bool true) (.bool false)) [loc]
  | inner (kind : Label) (loc : Loc) {children : List Outline} {trees : List Tree}
    {stretches : List Loc} (h : ShowsAll children trees stretches) :
    Shows (.inner kind children) (.node kind loc trees (.bool true) (.bool false)) stretches

/-- Some trees have the forms of as many outlines. -/
inductive ShowsAll : List Outline → List Tree → List Loc → Prop where
  | nil : ShowsAll [] [] []
  | cons {child : Outline} {rest : List Outline} {tree : Tree} {trees : List Tree}
    {stretches others : List Loc} (h : Shows child tree stretches)
    (hr : ShowsAll rest trees others) :
    ShowsAll (child :: rest) (tree :: trees) (stretches ++ others)

end

/-- The pen after one more leaf. -/
def Pen.write (pen : Pen) (text : String) : Pen :=
  ⟨text :: pen.gap.texts, pen.gap.column + (Text.encodeUtf8 text).length⟩

/-- The stretches of some leaves that are written one after another. -/
def Pen.stretches (pen : Pen) : List String → List Loc
  | [] => []
  | text :: texts => ⟨pen.gap.place, (pen.write text).place⟩ :: (pen.write text).stretches texts

theorem Pen.stretches_append (pen : Pen) (texts more : List String) :
    pen.stretches (texts ++ more) =
      pen.stretches texts ++ (texts.foldl Pen.write pen).stretches more := by
  induction texts generalizing pen with
  | nil => rfl
  | cons text texts ih =>
    rw [List.cons_append, stretches, stretches, ih, List.foldl_cons, List.cons_append]

mutual

/-- Only the leaves move the pen. -/
theorem place_pen (pen : Pen) : (outline : Outline) →
    (place pen outline).2 = outline.leafTexts.foldl Pen.write pen
  | leaf kind text => by
    rw [place, leafTexts]
    rfl
  | inner kind children => by
    rw [place, leafTexts, ← placeAll_pen pen children]

theorem placeAll_pen (pen : Pen) : (children : List Outline) →
    (placeAll pen children).2 = (leafTextsOf children).foldl Pen.write pen
  | [] => by
    rw [placeAll, leafTextsOf]
    rfl
  | child :: rest => by
    rw [placeAll, leafTextsOf, List.foldl_append, ← place_pen pen child, ← placeAll_pen _ rest]

end

mutual

theorem shows_place (pen : Pen) : (outline : Outline) →
    Shows outline (place pen outline).1 (pen.stretches outline.leafTexts)
  | leaf kind text => by
    rw [place, leafTexts]
    exact .leaf kind text _
  | inner kind children => by
    rw [place, leafTexts]
    exact .inner kind _ (showsAll_place pen children)

theorem showsAll_place (pen : Pen) : (children : List Outline) →
    ShowsAll children (placeAll pen children).1 (pen.stretches (leafTextsOf children))
  | [] => by
    rw [placeAll, leafTextsOf]
    exact .nil
  | child :: rest => by
    rw [placeAll, leafTextsOf, Pen.stretches_append, ← place_pen pen child]
    exact .cons (shows_place pen child) (showsAll_place _ rest)

end

/-- The column of a pen is the count of bytes that are written. -/
def Pen.Sound (pen : Pen) : Prop :=
  (Text.encodeUtf8 pen.text).length = pen.column

theorem encodeUtf8_append (s t : String) :
    Text.encodeUtf8 (s ++ t) = Text.encodeUtf8 s ++ Text.encodeUtf8 t := by
  rw [Text.encodeUtf8, String.toList_append, List.flatMap_append]
  rfl

section
variable {pen : Pen} {src : Source}

/-- What stands before a leaf takes the columns before it. -/
theorem Pen.Sound.exists_before (h : pen.Sound) (text : String) :
    ∃ before, (pen.write text).text = before ++ text ∧
      Text.encodeUtf8 pen.text <+: Text.encodeUtf8 before ∧
      (Text.encodeUtf8 before).length = pen.gap.column := by
  obtain ⟨texts, column⟩ := pen
  rw [Pen.Sound] at h
  -- The first leaf starts the line, every other one comes after a blank.
  cases texts with
  | nil => exact ⟨"", rfl, List.prefix_rfl, h⟩
  | cons last texts =>
    refine ⟨" ".intercalate (last :: texts).reverse ++ " ", ?_, ?_, ?_⟩
    · change " ".intercalate (text :: last :: texts).reverse = _
      rw [List.reverse_cons, String.intercalate_append_of_ne_nil (by simp) (by simp),
        String.intercalate_singleton]
    · rw [encodeUtf8_append]
      exact List.prefix_append _ _
    · rw [encodeUtf8_append, List.length_append]
      exact congrArg (· + 1) h

theorem Pen.Sound.write (h : pen.Sound) (text : String) : (pen.write text).Sound := by
  obtain ⟨before, htext, -, hlength⟩ := h.exists_before text
  rw [Pen.Sound, htext, encodeUtf8_append, List.length_append, hlength]
  rfl

theorem Pen.Sound.foldl_write (h : pen.Sound) (texts : List String) :
    (texts.foldl Pen.write pen).Sound := by
  induction texts generalizing pen with
  | nil => exact h
  | cons text texts ih => exact ih (h.write text)

/-- What is written stays. -/
theorem Pen.Sound.prefix_foldl_write (h : pen.Sound) (texts : List String) :
    Text.encodeUtf8 pen.text <+: Text.encodeUtf8 (texts.foldl Pen.write pen).text := by
  induction texts generalizing pen with
  | nil => exact List.prefix_rfl
  | cons text texts ih =>
    obtain ⟨before, htext, hbefore, -⟩ := h.exists_before text
    refine List.IsPrefix.trans ?_ (ih (h.write text))
    rw [htext, encodeUtf8_append]
    exact hbefore.trans (List.prefix_append _ _)

/-- Something is written so far of what the source holds. -/
def Pen.Begins (pen : Pen) (src : Source) : Prop :=
  pen.Sound ∧ Text.encodeUtf8 pen.text <+: src.bytes

theorem Pen.Begins.column_le (h : pen.Begins src) : pen.column ≤ src.bytes.length :=
  h.1 ▸ h.2.length_le

/-- What the source holds at the end it holds before. -/
theorem Pen.Sound.begins (h : pen.Sound) {texts : List String}
    (hf : (texts.foldl Pen.write pen).Begins src) : pen.Begins src :=
  ⟨h, (h.prefix_foldl_write texts).trans hf.2⟩

theorem Pen.gap_column_le_write (pen : Pen) (text : String) :
    pen.gap.column ≤ (pen.write text).column :=
  Nat.le_add_right _ _

/-- A leaf spans the bytes of its text. -/
theorem Pen.spans_write {text : String} (h : (pen.write text).Begins src) :
    src.Spans ⟨pen.gap.place, (pen.write text).place⟩ pen.gap.column (pen.write text).column :=
  ⟨rfl, pen.gap_column_le_write text, h.column_le⟩

/-- The token of a leaf is its text. -/
theorem Pen.token_write {text : String} (hp : pen.Sound) (h : (pen.write text).Begins src) :
    src.token ⟨pen.gap.place, (pen.write text).place⟩ = .ok text := by
  obtain ⟨before, htext, -, hlength⟩ := hp.exists_before text
  obtain ⟨rest, hrest⟩ := h.2
  have hbytes : (src.bytes.drop pen.gap.column).take ((pen.write text).column - pen.gap.column) =
      Text.encodeUtf8 text := by
    have hcolumns : (pen.write text).column - pen.gap.column = (Text.encodeUtf8 text).length :=
      Nat.add_sub_cancel_left _ _
    rw [hcolumns, ← hrest, htext, encodeUtf8_append, ← hlength, List.append_assoc, List.drop_left,
      List.take_left]
  rw [(Pen.spans_write h).token, hbytes, Text.decodeLossy_encodeUtf8]

theorem Pen.tokens_stretches (hp : pen.Sound) {texts : List String}
    (h : (texts.foldl Pen.write pen).Begins src) :
    List.Forall₂ (fun text l => src.token l = .ok text) texts (pen.stretches texts) := by
  induction texts generalizing pen with
  | nil => exact .nil
  | cons text texts ih =>
    have hsound := hp.write text
    exact .cons (token_write hp (hsound.begins h)) (ih hsound h)

/-- Two leaves of which the second one starts a byte after the end of the first. -/
def Apart (src : Source) (l m : Loc) : Prop :=
  ∃ first last next, src.Spans l first last ∧ src.Spans m (last + 1) next

theorem Pen.isChain_stretches (hp : pen.Sound) {texts : List String}
    (h : (texts.foldl Pen.write pen).Begins src) :
    (pen.stretches texts).IsChain (Apart src) := by
  induction texts generalizing pen with
  | nil => exact .nil
  | cons text texts ih =>
    have hsound := hp.write text
    have hfirst := spans_write (hsound.begins h)
    have hrest := ih hsound h
    cases texts with
    | nil => exact .singleton _
    | cons next texts =>
      have hnext := spans_write ((hsound.write next).begins h)
      exact List.IsChain.cons_cons ⟨_, _, _, hfirst, hnext⟩ hrest

end

/-- Every node of a tree spans a stretch that holds those of its children. -/
def Nested (src : Source) (tree : Tree) : Prop :=
  ∀ n ∈ tree.nodes, ∃ first last, src.Spans n.loc first last ∧
    ∀ child ∈ n.children, ∃ first' last', src.Spans child.loc first' last' ∧
      first ≤ first' ∧ last' ≤ last

/-- A tree fills the line up to a column, after what stands before another. -/
structure Fills (src : Source) (before after : Nat) (tree : Tree) : Prop where
  spans : ∃ first, before ≤ first ∧ src.Spans tree.loc first after
  nested : Nested src tree

/-- Some trees fill the line one after another. -/
inductive FillAll (src : Source) : Nat → Nat → List Tree → Prop where
  | nil (column : Nat) : FillAll src column column []
  | cons {before middle after : Nat} {tree : Tree} {trees : List Tree}
    (h : Fills src before middle tree) (hr : FillAll src middle after trees) :
    FillAll src before after (tree :: trees)

section
variable {src : Source} {before after : Nat} {trees : List Tree}

theorem FillAll.le (h : FillAll src before after trees) : before ≤ after := by
  induction h with
  | nil column => exact le_rfl
  | cons hfirst _ ih =>
    obtain ⟨first, hbefore, hspans⟩ := hfirst.spans
    exact (hbefore.trans hspans.le).trans ih

theorem FillAll.nested (h : FillAll src before after trees) :
    ∀ tree ∈ trees, Nested src tree := by
  induction h with
  | nil column => exact fun tree hm => nomatch hm
  | cons hfirst _ ih => exact List.forall_mem_cons.mpr ⟨hfirst.nested, ih⟩

theorem FillAll.within (h : FillAll src before after trees) : ∀ tree ∈ trees,
    ∃ first last, src.Spans tree.loc first last ∧ before ≤ first ∧ last ≤ after := by
  induction h with
  | nil column => exact fun tree hm => nomatch hm
  | cons hfirst hr ih =>
    obtain ⟨first, hbefore, hspans⟩ := hfirst.spans
    refine List.forall_mem_cons.mpr ⟨⟨first, _, hspans, hbefore, hr.le⟩, fun tree hm => ?_⟩
    obtain ⟨first', last', hspans', hfirst', hlast'⟩ := ih tree hm
    exact ⟨first', last', hspans', (hbefore.trans hspans.le).trans hfirst', hlast'⟩

/-- The last of some trees ends where they do. -/
theorem FillAll.finish (h : FillAll src before after trees) :
    (trees.getLast?.map fun t => t.loc.finish).getD (.at 0 after) = .at 0 after := by
  induction h with
  | nil column => rfl
  | cons hfirst hr ih =>
    obtain ⟨first, -, hspans⟩ := hfirst.spans
    cases hr with
    | nil => exact congrArg Loc.finish hspans.place
    | cons h hr =>
      rw [List.getLast?_cons_cons]
      exact ih

/-- What covers some trees starts with the first of them and ends with the last. -/
theorem FillAll.cover (h : FillAll src before after trees) (hl : after ≤ src.bytes.length) :
    ∃ first, before ≤ first ∧ src.Spans (cover (.at 0 after) trees) first after ∧
      ∀ tree ∈ trees, ∃ first' last', src.Spans tree.loc first' last' ∧
        first ≤ first' ∧ last' ≤ after := by
  have hfinish := h.finish
  cases h with
  | nil => exact ⟨before, le_rfl, ⟨rfl, le_rfl, hl⟩, fun tree hm => nomatch hm⟩
  | cons hfirst hr =>
    obtain ⟨first, hbefore, hspans⟩ := hfirst.spans
    have hall : FillAll src first after _ := .cons ⟨⟨first, le_rfl, hspans⟩, hfirst.nested⟩ hr
    refine ⟨first, hbefore, ⟨?_, hall.le, hl⟩, hall.within⟩
    rw [Outline.cover, hfinish]
    exact congrArg (fun start => (⟨start, .at 0 after⟩ : Loc)) (congrArg Loc.start hspans.place)

end

mutual

/-- A tree that is laid out fills the line up to where the pen is after it. -/
theorem fills_place {pen : Pen} {src : Source} (hp : pen.Sound) : (outline : Outline) →
    (place pen outline).2.Begins src →
      Fills src pen.column (place pen outline).2.column (place pen outline).1
  | leaf kind text, h => by
    rw [place] at h ⊢
    have hgap : pen.column ≤ pen.gap.column := by
      rw [Pen.gap]
      split
      · exact le_rfl
      · exact Nat.le_succ _
    have hspans := Pen.spans_write h
    refine ⟨⟨_, hgap, hspans⟩, Tree.forall_mem_nodes.mpr ⟨⟨_, _, hspans, ?_⟩, ?_⟩⟩
    · exact fun child hm => nomatch hm
    · exact fun child hm => nomatch hm
  | inner kind children, h => by
    rw [place] at h ⊢
    have hall := fillAll_placeAll hp children h
    obtain ⟨first, hbefore, hspans, hchildren⟩ := hall.cover h.column_le
    exact ⟨⟨first, hbefore, hspans⟩,
      Tree.forall_mem_nodes.mpr ⟨⟨_, _, hspans, hchildren⟩, hall.nested⟩⟩

theorem fillAll_placeAll {pen : Pen} {src : Source} (hp : pen.Sound) :
    (children : List Outline) → (placeAll pen children).2.Begins src →
      FillAll src pen.column (placeAll pen children).2.column (placeAll pen children).1
  | [], _ => by
    rw [placeAll]
    exact .nil _
  | child :: rest, h => by
    rw [placeAll] at h ⊢
    have hmiddle : (place pen child).2.Sound := by
      rw [place_pen]
      exact hp.foldl_write _
    have hbegins : (place pen child).2.Begins src := by
      rw [placeAll_pen] at h
      exact hmiddle.begins h
    exact .cons (fills_place hp child hbegins) (fillAll_placeAll hmiddle rest h)

end

theorem reverse_texts_foldl_write (pen : Pen) (texts : List String) :
    (texts.foldl Pen.write pen).texts.reverse = pen.texts.reverse ++ texts := by
  induction texts generalizing pen with
  | nil => exact (List.append_nil _).symm
  | cons text texts ih =>
    have hgap : pen.gap.texts = pen.texts := by
      rw [Pen.gap]
      split <;> rfl
    rw [List.foldl_cons, ih, Pen.write, List.reverse_cons, hgap, List.append_assoc]
    rfl

/-- The source of an outline holds the texts of its leaves, a blank between two of them. Its tree
has the form and the kinds of the outline, the token of each leaf is its text, a leaf starts a byte
after the end of the one before, and the stretch of a node holds those of its children. -/
theorem layOut_faithful (outline : Outline) :
    (layOut outline).1 = .ofText (" ".intercalate outline.leafTexts) ∧
    Nested (layOut outline).1 (layOut outline).2 ∧
    ∃ stretches, Shows outline (layOut outline).2 stretches ∧
      List.Forall₂ (fun text l => (layOut outline).1.token l = .ok text)
        outline.leafTexts stretches ∧
      stretches.IsChain (Apart (layOut outline).1) := by
  have hstart : Pen.Sound ⟨[], 0⟩ := rfl
  have hpen := place_pen ⟨[], 0⟩ outline
  have hsource : (layOut outline).1 = .ofText (" ".intercalate outline.leafTexts) := by
    change Source.ofText (" ".intercalate (place ⟨[], 0⟩ outline).2.texts.reverse) = _
    rw [hpen, reverse_texts_foldl_write]
    rfl
  have hbegins : (place ⟨[], 0⟩ outline).2.Begins (layOut outline).1 := by
    refine ⟨?_, List.prefix_rfl⟩
    rw [hpen]
    exact hstart.foldl_write _
  have hfills := fills_place hstart outline hbegins
  rw [hpen] at hbegins
  exact ⟨hsource, hfills.nested, _, shows_place _ outline, Pen.tokens_stretches hstart hbegins,
    Pen.isChain_stretches hstart hbegins⟩

end Outline

end TreeGrammar
