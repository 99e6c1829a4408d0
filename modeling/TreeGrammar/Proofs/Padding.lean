import TreeGrammar.Parser.Basic
import TreeGrammar.Proofs.Methods

/-!
Extras put into a tree. Subtrees of the kinds of extras may be added below any node, in any number
and at any place among the children, as long as no node in them is a syntax error: the tree without
extras is the same, and so are the syntax errors, in the same order. So a parse of the tree is the
same.
-/
namespace TreeGrammar

theorem Json.isScalar_canonical (value : Json) : value.canonical.isScalar = value.isScalar := by
  cases value with
  | real x =>
    rw [canonical, canonicalReal]
    split
    · rfl
    · split
      · rfl
      · dsimp only
        split <;> rfl
  | _ => rfl

theorem Label.isScalar_of_isAmong {labels : List Label} (h : labels.all Json.isScalar)
    {label : Label} (hl : Label.isAmong labels label) : label.isScalar := by
  obtain ⟨other, ho, hlike⟩ := List.any_eq_true.mp hl
  rw [Json.alike_iff] at hlike
  have hscalar : other.isScalar := List.all_eq_true.mp h other ho
  rwa [← Json.isScalar_canonical, ← hlike, Json.isScalar_canonical] at hscalar

namespace Tree

mutual

/-- No node of the tree is a syntax error. -/
def Faultless : Tree → Prop
  | node kind _ children _ missing =>
    kind ≠ errorKind ∧ missing.isTrue = false ∧ FaultlessAll children

def FaultlessAll : List Tree → Prop
  | [] => True
  | tree :: rest => Faultless tree ∧ FaultlessAll rest

end

mutual

/-- The second tree is the first one with extras put in below any of its nodes. -/
inductive Padded (extras : List Label) : Tree → Tree → Prop
  | node {kind : Label} {loc : Loc} {children padded : List Tree} {named missing : Json} :
    PaddedAll extras children padded →
      Padded extras (node kind loc children named missing) (node kind loc padded named missing)

/-- The second list has the trees of the first one, padded, and extras anywhere between them. -/
inductive PaddedAll (extras : List Label) : List Tree → List Tree → Prop
  | nil : PaddedAll extras [] []
  | keep {tree padded : Tree} {rest paddedRest : List Tree} :
    Padded extras tree padded → PaddedAll extras rest paddedRest →
      PaddedAll extras (tree :: rest) (padded :: paddedRest)
  | insert {extra : Tree} {trees padded : List Tree} :
    Label.isAmong extras extra.kind → extra.Faultless → PaddedAll extras trees padded →
      PaddedAll extras trees (extra :: padded)

end

section
variable {extras : List Label} {tree padded : Tree} {trees paddedTrees : List Tree}

theorem Padded.kind_eq (h : Padded extras tree padded) : padded.kind = tree.kind := by
  cases h
  rfl

mutual

theorem Padded.withoutExtras_eq : {tree padded : Tree} → Padded extras tree padded →
    padded.withoutExtras extras = tree.withoutExtras extras
  | _, _, .node h => by rw [withoutExtras, withoutExtras, h.keepOthers_eq]

theorem PaddedAll.keepOthers_eq : {trees padded : List Tree} → PaddedAll extras trees padded →
    keepOthers extras padded = keepOthers extras trees
  | _, _, .nil => rfl
  | _, _, .keep h hrest => by
    rw [keepOthers, keepOthers, h.kind_eq, h.withoutExtras_eq, hrest.keepOthers_eq]
  | _, _, .insert hkind _ hrest => by rw [keepOthers, if_pos hkind, hrest.keepOthers_eq]

end

mutual

theorem Padded.canLookUp_eq (he : extras.all Json.isScalar) : {tree padded : Tree} →
    Padded extras tree padded → padded.canLookUp extras = tree.canLookUp extras
  | _, _, .node h => by rw [canLookUp, canLookUp, h.canLookUpAll_eq he]

theorem PaddedAll.canLookUpAll_eq (he : extras.all Json.isScalar) : {trees padded : List Tree} →
    PaddedAll extras trees padded → canLookUpAll extras padded = canLookUpAll extras trees
  | _, _, .nil => rfl
  | _, _, .keep h hrest => by
    rw [canLookUpAll, canLookUpAll, h.kind_eq, h.canLookUp_eq he, hrest.canLookUpAll_eq he]
  | _, _, .insert hkind _ hrest => by
    rw [canLookUpAll, Label.isScalar_of_isAmong he hkind, hkind, hrest.canLookUpAll_eq he]
    rfl

end

mutual

/-- Without extras there is nothing to put in. -/
theorem Padded.eq_of_nil : {tree padded : Tree} → Padded [] tree padded → padded = tree
  | _, _, .node h => by rw [h.eq_of_nil]

theorem PaddedAll.eq_of_nil : {trees padded : List Tree} → PaddedAll [] trees padded →
    padded = trees
  | _, _, .nil => rfl
  | _, _, .keep h hrest => by rw [h.eq_of_nil, hrest.eq_of_nil]
  | _, _, .insert hkind _ _ => by cases hkind

end

theorem Padded.stripped_eq (h : Padded extras tree padded) :
    padded.stripped extras = tree.stripped extras := by
  cases extras with
  | nil => rw [h.eq_of_nil]
  | cons extra others =>
    rw [stripped, stripped]
    -- Extras that cannot be looked up make both trees fail.
    by_cases he : (extra :: others).all Json.isScalar
    · rw [h.canLookUp_eq he, h.withoutExtras_eq]
      rfl
    · rw [Bool.eq_false_iff.mpr he]
      rfl

end

section
variable {src : Source}

mutual

/-- A tree without errors adds none to those of the trees after it. -/
theorem Faultless.faultsOf_cons : (tree : Tree) → tree.Faultless → (stack : List Tree) →
    faultsOf src (tree :: stack) = faultsOf src stack
  | node kind loc children named missing, h, stack => by
    obtain ⟨hkind, hmissing, hchildren⟩ := h
    rw [faultsOf, if_neg hkind, if_neg (Bool.eq_false_iff.mp hmissing)]
    exact faultsOf_append children hchildren stack

theorem Faultless.faultsOf_append : (trees : List Tree) → FaultlessAll trees →
    (stack : List Tree) → faultsOf src (trees ++ stack) = faultsOf src stack
  | [], _, _ => rfl
  | tree :: rest, h, stack => by
    rw [List.cons_append, faultsOf_cons tree h.1, faultsOf_append rest h.2]

end

variable {extras : List Label}

mutual

theorem Padded.faultsOf_cons : {tree padded : Tree} → Padded extras tree padded →
    {stack paddedStack : List Tree} → faultsOf src paddedStack = faultsOf src stack →
      faultsOf src (padded :: paddedStack) = faultsOf src (tree :: stack)
  | node kind loc children named missing, node _ _ padded _ _, .node h, stack, paddedStack,
    hstack => by
    -- Below an error nothing is looked at, so it does not matter what is put in there.
    have hchildren : faultsOf src (padded ++ paddedStack) = faultsOf src (children ++ stack) :=
      h.faultsOf_append hstack
    rw [faultsOf, faultsOf, hstack, hchildren]

theorem PaddedAll.faultsOf_append : {trees padded : List Tree} → PaddedAll extras trees padded →
    {stack paddedStack : List Tree} → faultsOf src paddedStack = faultsOf src stack →
      faultsOf src (padded ++ paddedStack) = faultsOf src (trees ++ stack)
  | _, _, .nil, _, _, hstack => hstack
  | _, _, .keep h hrest, _, _, hstack => h.faultsOf_cons (hrest.faultsOf_append hstack)
  | _, _, @PaddedAll.insert _ extra _ _ _ hfaultless hrest, _, _, hstack => by
    rw [List.cons_append, hfaultless.faultsOf_cons]
    exact hrest.faultsOf_append hstack

end

theorem Padded.faults_eq {tree padded : Tree} (h : Padded extras tree padded) :
    padded.faults src = tree.faults src :=
  h.faultsOf_cons rfl

end

end Tree

namespace Parser

open Code

/-- Extras are transparent: a parse of a tree into which extras are put goes as the parse of the tree
itself, to the same value, the same syntax errors or no match, with the same journal. -/
theorem parse_padded {g : Grammar} {b : Build} (hb : build g = .ok b) {s : Setting}
    (hs : s.module = b.module) {root padded : Tree} (h : Tree.Padded g.extras root padded) :
    parse s padded = parse s root := by
  have hextras : s.module.extras = g.extras := by rw [hs, (moduleOf_of_build hb).extras]
  have hvalue : s.value padded = s.value root := by
    rw [Setting.value, Setting.value, hextras, h.stripped_eq]
  rw [parse, parse, h.faults_eq, hvalue]

/-- A list of items, with notes anywhere. -/
def notedGrammar : Grammar where
  entrypoint := "list"
  rules := [⟨.str "list", .star (.symbol (.str "item"))⟩, ⟨.str "item", .blank⟩]
  extras := [.str "note"]
  distinct := by decide

/-- A node of the given kind without any text. -/
def bareNode (kind : String) (children : List Tree) : Tree :=
  .node (.str kind) ⟨.at 0 0, .at 0 0⟩ children (.bool true) (.bool false)

/-- A note may stand before an item or in it, and it may hold what looks like one. -/
theorem noted_list_padded : ∃ b, build notedGrammar = .ok b ∧
    parse ⟨b.module, .ofText "", true⟩ (bareNode "list" [bareNode "note" [bareNode "item" []],
      bareNode "item" [bareNode "note" []], bareNode "note" []]) =
    parse ⟨b.module, .ofText "", true⟩ (bareNode "list" [bareNode "item" []]) := by
  obtain ⟨b, hb⟩ := exists_build (g := notedGrammar) rfl (by decide)
  have hnote (children : List Tree) (h : Tree.FaultlessAll children) :
      (bareNode "note" children).Faultless := ⟨by decide, rfl, h⟩
  have hitem : (bareNode "item" []).Faultless := ⟨by decide, rfl, trivial⟩
  have hpadded : Tree.Padded notedGrammar.extras (bareNode "item" [])
      (bareNode "item" [bareNode "note" []]) :=
    .node (.insert rfl (hnote [] trivial) .nil)
  exact ⟨b, hb, parse_padded hb rfl (.node (.insert rfl (hnote _ ⟨hitem, trivial⟩)
    (.keep hpadded (.insert rfl (hnote [] trivial) .nil))))⟩

end Parser

end TreeGrammar
