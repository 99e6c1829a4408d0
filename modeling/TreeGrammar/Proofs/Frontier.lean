import Mathlib.Data.List.Nodup
import TreeGrammar.Proofs.Compiler
import TreeGrammar.Proofs.Tokens

/-!
The tokens of a parse. The value of a tree holds the places and texts of the nodes where the rules
with parts end, in the order of the source.
-/
namespace TreeGrammar

namespace Grammar

/-- Whether a kind is the name of a rule with parts. -/
def isComposite (g : Grammar) (kind : Label) : Bool :=
  g.rules.any fun rule => !rule.isLeaf && kind.alike rule.name

/-- No token has the text of the name of a rule with parts. -/
def TokensApart (g : Grammar) : Prop :=
  ∀ rule ∈ g.rules, ∀ text, .token text ∈ rule.body.needs → g.isComposite text = false

mutual

/-- The nodes below the rules with parts: from a node of the kind of such a rule the way leads to
its children, and it ends at every other node. -/
def frontier (g : Grammar) : Tree → List Tree
  | .node kind loc children named missing =>
    if g.isComposite kind then frontierAll g children else [.node kind loc children named missing]

def frontierAll (g : Grammar) : List Tree → List Tree
  | [] => []
  | tree :: rest => frontier g tree ++ frontierAll g rest

end

variable {g : Grammar}

theorem frontierAll_eq_flatMap (trees : List Tree) :
    g.frontierAll trees = trees.flatMap g.frontier := by
  induction trees with
  | nil => rw [frontierAll, List.flatMap_nil]
  | cons tree rest ih => rw [frontierAll, List.flatMap_cons, ih]

theorem isComposite_congr {a b : Label} (h : a.alike b) : g.isComposite a = g.isComposite b := by
  rw [Json.alike_iff] at h
  simp only [isComposite, Json.alike, h]

theorem isComposite_of_rule {rule : Rule} (hr : rule ∈ g.rules) (hl : ¬ rule.isLeaf) {kind : Label}
    (hk : kind.alike rule.name) : g.isComposite kind := by
  rw [isComposite, List.any_eq_true]
  exact ⟨rule, hr, by simp [hl, hk]⟩

/-- The name of a leaf rule is not the name of a rule with parts, as rules have different names. -/
theorem isComposite_of_leaf {rule : Rule} (hr : rule ∈ g.rules) (hl : rule.isLeaf) {kind : Label}
    (hk : kind.alike rule.name) : g.isComposite kind = false := by
  rw [isComposite_congr hk, isComposite, List.any_eq_false]
  intro other ho
  by_contra hboth
  obtain ⟨hparts, hlike⟩ := Bool.and_eq_true_iff.mp hboth
  have hkey : rule.key = other.key := (Json.alike_iff _ _).mp hlike
  have hsame : rule = other := List.inj_on_of_nodup_map g.distinct hr ho hkey
  rw [← hsame, hl] at hparts
  cases hparts

def tokens (g : Grammar) (leaf : Loc → Value) (tree : Tree) : List (Loc × String) :=
  (g.frontier tree).flatMap fun n => (leaf n.loc).leaves

variable {leaf : Loc → Value}

theorem tokens_of_composite {tree : Tree} (h : g.isComposite tree.kind) :
    g.tokens leaf tree = tree.children.flatMap (g.tokens leaf) := by
  obtain ⟨kind, loc, children, named, missing⟩ := tree
  change g.isComposite kind = true at h
  rw [tokens, frontier, if_pos h, frontierAll_eq_flatMap, List.flatMap_assoc]
  rfl

theorem tokens_of_leaf {tree : Tree} (h : g.isComposite tree.kind = false) :
    g.tokens leaf tree = (leaf tree.loc).leaves := by
  obtain ⟨kind, loc, children, named, missing⟩ := tree
  change g.isComposite kind = false at h
  rw [tokens, frontier, if_neg (Bool.eq_false_iff.mp h), List.flatMap_singleton]

/-- What is read of the children of a node holds their tokens if what the rules have for them
does. -/
theorem keeps_childReading (ha : g.TokensApart) (hh : ∀ loc, (leaf loc).isHalf = false)
    {tree : Tree} {rule : Rule} (hr : rule ∈ g.rules)
    (hc : ∀ child ∈ tree.children, ∀ name v, g.answer leaf child name = some v →
      v.Holds (g.tokens leaf child)) :
    (g.childReading leaf tree).Keeps (fun child => g.tokens leaf child.1) rule.body.needs := by
  refine ⟨fun name _ nodes r hcall => ?_, fun text ht child hk => ?_⟩
  · cases nodes with
    | nil => cases hcall
    | cons child rest =>
      obtain ⟨v, hv, rfl⟩ := Option.map_eq_some_iff.mp (Option.mem_toList.mp hcall)
      exact ⟨child, rfl, hc child.1 child.2 name v hv⟩
  · have hlike : child.1.kind.alike text := hk
    have hkind : g.isComposite child.1.kind = false := by
      rw [isComposite_congr hlike, ha rule hr text ht]
    exact ⟨hh _, (tokens_of_leaf hkind).symm⟩

mutual

/-- What a rule has for a tree holds the tokens of the tree. -/
theorem holds_of_answer (ha : g.TokensApart) (hh : ∀ loc, (leaf loc).isHalf = false) :
    (tree : Tree) → ∀ name v, g.answer leaf tree name = some v → v.Holds (g.tokens leaf tree)
  | .node kind loc children named missing => by
    intro name v hv
    rw [answer_eq] at hv
    obtain ⟨rule, hrule, hv⟩ := Option.bind_eq_some_iff.mp hv
    have hr := mem_of_resolve hrule
    rw [ruleAnswer] at hv
    split at hv
    · rename_i hk
      split at hv
      · rename_i hl
        cases hv
        exact ⟨hh _, (tokens_of_leaf (isComposite_of_leaf hr hl hk)).symm⟩
      · rename_i hl
        have hchildren : ∀ child ∈ (Tree.node kind loc children named missing).children,
            ∀ name v, g.answer leaf child name = some v → v.Holds (g.tokens leaf child) :=
          holds_of_answer_of_mem ha hh children
        rw [← complete_childReading] at hv
        have hholds := rule.body.holds_of_complete (keeps_childReading ha hh hr hchildren) _ v hv
        rw [tokens_of_composite (isComposite_of_rule hr hl hk)]
        rw [← List.flatMap_map Subtype.val, List.attach_map_subtype_val] at hholds
        exact hholds
    · cases hv

theorem holds_of_answer_of_mem (ha : g.TokensApart) (hh : ∀ loc, (leaf loc).isHalf = false) :
    (trees : List Tree) → ∀ tree ∈ trees, ∀ name v, g.answer leaf tree name = some v →
      v.Holds (g.tokens leaf tree)
  | [] => fun tree ht => by cases ht
  | tree :: rest => List.forall_mem_cons.mpr
    ⟨holds_of_answer ha hh tree, holds_of_answer_of_mem ha hh rest⟩

end

end Grammar

/-- The place and text of a node. -/
def Source.told (src : Source) (n : Tree) : Except PlaceFault (Loc × String) := do
  pure (n.loc, ← src.token n.loc)

/-- Leaves without a text are read as nothing. -/
def Source.knownLeaf (src : Source) : Loc → Value :=
  src.leafOr fun _ => .unit

/-- Leaves without a text are read as if it were empty. -/
def Source.anyLeaf (src : Source) : Loc → Value :=
  src.leafOr fun loc => .leaf loc ""

section
variable {src : Source}

theorem isHalf_leafOr {other : Loc → Value} (h : ∀ loc, (other loc).isHalf = false) (loc : Loc) :
    (src.leafOr other loc).isHalf = false := by
  rw [Source.leafOr]
  split
  · rfl
  · exact h loc

theorem length_knownLeaf (src : Source) (nodes : List Tree) :
    (nodes.flatMap fun n => (src.knownLeaf n.loc).leaves).length ≤ nodes.length := by
  induction nodes with
  | nil => exact le_rfl
  | cons n rest ih =>
    have hone : (src.knownLeaf n.loc).leaves.length ≤ 1 := by
      rw [Source.knownLeaf, Source.leafOr]
      split
      · exact le_rfl
      · exact Nat.zero_le 1
    rw [List.flatMap_cons, List.length_append, List.length_cons]
    omega

theorem length_anyLeaf (src : Source) (nodes : List Tree) :
    (nodes.flatMap fun n => (src.anyLeaf n.loc).leaves).length = nodes.length := by
  induction nodes with
  | nil => rfl
  | cons n rest ih =>
    have hone : (src.anyLeaf n.loc).leaves.length = 1 := by
      rw [Source.anyLeaf, Source.leafOr]
      split <;> rfl
    rw [List.flatMap_cons, List.length_append, List.length_cons, hone, ih, Nat.add_comm]

/-- Where it makes no difference how leaves without a text are read, there are none. -/
theorem mapM_told (nodes : List Tree)
    (h : (nodes.flatMap fun n => (src.knownLeaf n.loc).leaves) =
      nodes.flatMap fun n => (src.anyLeaf n.loc).leaves) :
    nodes.mapM src.told = .ok (nodes.flatMap fun n => (src.knownLeaf n.loc).leaves) := by
  induction nodes with
  | nil => rfl
  | cons n rest ih =>
    rw [List.flatMap_cons, List.flatMap_cons] at h
    rcases ht : src.token n.loc with fault | token
    -- Read as nothing a leaf without a text is missing, read as an empty one it is not.
    · have hlength := congrArg List.length h
      have hfew := length_knownLeaf src rest
      have hall := length_anyLeaf src rest
      rw [List.length_append, List.length_append, hall, Source.knownLeaf, Source.anyLeaf,
        Source.leafOr, Source.leafOr, ht] at hlength
      change 0 + _ = 1 + rest.length at hlength
      rw [Source.knownLeaf] at hfew
      omega
    · have hknown : src.knownLeaf n.loc = .leaf n.loc token := src.tells_leafOr _ _ _ ht
      have hany : src.anyLeaf n.loc = .leaf n.loc token := src.tells_leafOr _ _ _ ht
      rw [hknown, hany] at h
      have hrest := ih (List.append_cancel_left h)
      have hfirst : src.told n = .ok (n.loc, token) := by
        rw [Source.told, ht]
        rfl
      rw [List.mapM_cons, hfirst, hrest, List.flatMap_cons, hknown]
      rfl

end

namespace Parser

open Code

/-- Where a tree has a value, the leaves in it are the places and texts of the frontier. -/
theorem value_keeps_tokens (g : Grammar) (h : g.check = .ok ()) (ha : g.TokensApart) {b : Build}
    (hb : build g = .ok b) {s : Setting} (hs : s.module = b.module) {root : Tree} {v : Value}
    {journal journal' : Journal} (hv : (s.value root).run journal = .ok (some v, journal')) :
    ∃ tree, root.stripped g.extras = some tree ∧
      (g.frontier tree).mapM s.src.told = .ok v.leaves := by
  have hruns : Runs g s := ⟨h, hs ▸ moduleOf_of_build hb⟩
  rcases ht : root.stripped g.extras with _ | tree
  · rw [Setting.value, hruns.module.extras, ht] at hv
    cases hv
  · refine ⟨tree, rfl, ?_⟩
    -- The value is the same however leaves without a text are read.
    have hleaves (other : Loc → Value) (ho : ∀ loc, (other loc).isHalf = false) :
        v.leaves = (g.frontier tree).flatMap fun n => (s.src.leafOr other n.loc).leaves := by
      have hreturns := hruns.returns_value (s.src.tells_leafOr other) ht journal
      rw [hv] at hreturns
      have hanswer : g.answer (s.src.leafOr other) tree g.entrypoint = some v := hreturns.symm
      exact (Grammar.holds_of_answer ha (isHalf_leafOr ho) tree _ v hanswer).2
    have hknown := hleaves (fun _ => .unit) fun _ => rfl
    have hany := hleaves (fun loc => .leaf loc "") fun _ => rfl
    calc (g.frontier tree).mapM s.src.told
        = .ok ((g.frontier tree).flatMap fun n => (s.src.knownLeaf n.loc).leaves) :=
          mapM_told (g.frontier tree) (hknown.symm.trans hany)
      _ = .ok v.leaves := congrArg Except.ok hknown.symm

theorem exists_run_of_parse {s : Setting} {root : Tree} {v : Value} {lines : List String}
    (h : parse s root = .ok (.parsed v, lines)) :
    ∃ journal, (s.value root).run .empty = .ok (some v, journal) := by
  unfold parse at h
  split at h
  · cases h
  · cases h
  · split at h
    · cases h
    · rename_i w journal hrun
      cases h
      exact ⟨journal, hrun⟩
    · cases h

/-- A parse loses, repeats and reorders no token: where the parse of a tree has a value, the leaves
in it are the places and texts of the frontier of the tree without extras. -/
theorem start_keeps_tokens (g : Grammar) (h : g.check = .ok ()) (ha : g.TokensApart) {b : Build}
    (hb : build g = .ok b) {s : Setting} (hs : s.module = b.module) {root : Tree} {v : Value}
    {lines : List String} (hv : parse s root = .ok (.parsed v, lines)) :
    ∃ tree, root.stripped g.extras = some tree ∧
      (g.frontier tree).mapM s.src.told = .ok v.leaves := by
  obtain ⟨journal, hrun⟩ := exists_run_of_parse hv
  exact value_keeps_tokens g h ha hb hs hrun

/-- A source with two bracketed items. -/
def listSource : Source := .ofText "[ab]"

/-- A node of the given kind with the bytes from `start` to `finish` of the first row. -/
def flatNode (kind : String) (start finish : Int) (children : List Tree) : Tree :=
  .node (.str kind) ⟨.at 0 start, .at 0 finish⟩ children (.bool true) (.bool false)

def listTree : Tree :=
  flatNode "list" 0 4 [flatNode "[" 0 1 [], flatNode "item" 1 2 [], flatNode "item" 2 3 [],
    flatNode "]" 3 4 []]

theorem listTree_placed : listTree.Placed listSource :=
  ⟨⟨_, rfl⟩, ⟨⟨_, rfl⟩, trivial⟩, ⟨⟨_, rfl⟩, trivial⟩, ⟨⟨_, rfl⟩, trivial⟩, ⟨⟨_, rfl⟩, trivial⟩,
    trivial⟩

theorem listGrammar_writable : listGrammar.Writable := by
  intro rule hr
  simp only [listGrammar, List.mem_cons, List.not_mem_nil, or_false] at hr
  rcases hr with rfl | rfl
  · refine ⟨fun hl => absurd hl (by decide), fun text ht => ?_⟩
    simp only [Body.needs, Body.needsOf, List.append_nil, List.cons_append, List.nil_append,
      List.mem_cons, List.not_mem_nil, or_false, reduceCtorEq, false_or,
      Body.Need.token.injEq] at ht
    rcases ht with rfl | rfl <;> rfl
  · exact ⟨fun _ => rfl, fun text ht => by cases ht⟩

theorem listGrammar_tokensApart : listGrammar.TokensApart := by
  intro rule hr text ht
  simp only [listGrammar, List.mem_cons, List.not_mem_nil, or_false] at hr
  rcases hr with rfl | rfl
  · simp only [Body.needs, Body.needsOf, List.append_nil, List.cons_append, List.nil_append,
      List.mem_cons, List.not_mem_nil, or_false, reduceCtorEq, false_or,
      Body.Need.token.injEq] at ht
    rcases ht with rfl | rfl <;> decide
  · cases ht

/-- What is read of the bracketed items: the brackets around the items. -/
def listValue : Value :=
  .tuple [.leaf ⟨.at 0 0, .at 0 1⟩ "[",
    .list [.leaf ⟨.at 0 1, .at 0 2⟩ "a", .leaf ⟨.at 0 2, .at 0 3⟩ "b"],
    .leaf ⟨.at 0 3, .at 0 4⟩ "]"]

theorem answer_listTree :
    listGrammar.answer listSource.knownLeaf listTree listGrammar.entrypoint = some listValue := by
  with_unfolding_all rfl

theorem start_keeps_tokens_of_list :
    ∃ b, build listGrammar = .ok b ∧ ∃ lines,
      parse ⟨b.module, listSource, false⟩ listTree = .ok (.parsed listValue, lines) ∧
      ∃ tree, listTree.stripped listGrammar.extras = some tree ∧
        (listGrammar.frontier tree).mapM listSource.told = .ok listValue.leaves := by
  have hcheck : listGrammar.check = .ok () := rfl
  obtain ⟨b, hb⟩ := exists_build hcheck (by decide)
  let s : Setting := ⟨b.module, listSource, false⟩
  have hruns : Runs listGrammar s := ⟨hcheck, moduleOf_of_build hb⟩
  have htells : s.src.Tells listSource.knownLeaf := listSource.tells_leafOr _
  have hreturns := hruns.returns_value htells
    (rfl : listTree.stripped listGrammar.extras = some listTree) .empty
  rcases hv : (s.value listTree).run .empty with fault | ⟨found, journal⟩
  · rw [hv] at hreturns
    exact absurd ⟨listGrammar_writable, listTree_placed⟩ hreturns
  · rw [hv, answer_listTree] at hreturns
    obtain rfl : found = some listValue := hreturns
    have hfaults : listTree.faults s.src = .ok [] := by with_unfolding_all rfl
    have hparse : parse s listTree = .ok (.parsed listValue, journal.written) := by
      rw [parse, hfaults]
      simp only [hv]
    have hkept := start_keeps_tokens listGrammar hcheck listGrammar_tokensApart hb
      (rfl : s.module = b.module) hparse
    exact ⟨b, hb, journal.written, hparse, hkept⟩

end Parser

end TreeGrammar
