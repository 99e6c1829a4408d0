import TreeGrammar.Parser.Basic
import TreeGrammar.Proofs.Padding
import TreeGrammar.Proofs.Preorder
import TreeGrammar.Proofs.Substitution

/-!
Syntax errors are reported in full and in the order of the source. The stack of trees that are still
to be visited holds what is to come of the preorder, so its errors are those of a recursion over the
trees. There are none exactly if no node is an error, and a parse stops at them before it looks at
anything else.
-/
namespace TreeGrammar

namespace Tree

/-- Whether a node is a syntax error: what the source has there is not recognised, or the source
misses what is there. -/
def IsFault (tree : Tree) : Prop :=
  tree.kind = errorKind ∨ tree.missing.isTrue

mutual

/-- The syntax errors of a tree. A node that is one is reported, and nothing below it is. -/
def faultsIn (src : Source) : Tree → Except PlaceFault (List TreeFault)
  | node kind loc children _ missing =>
    if kind = errorKind then do
      let text ← src.token loc
      pure [⟨loc, "unrecognized input", text⟩]
    else if missing.isTrue then pure [⟨loc, "missing " ++ kind.shown, ""⟩]
    else faultsInAll src children

/-- The syntax errors of some trees, from left to right. -/
def faultsInAll (src : Source) : List Tree → Except PlaceFault (List TreeFault)
  | [] => pure []
  | tree :: rest => do
    let first ← faultsIn src tree
    let others ← faultsInAll src rest
    pure (first ++ others)

end

variable {src : Source}

theorem faultsInAll_append (trees more : List Tree) :
    faultsInAll src (trees ++ more) = (do
      let first ← faultsInAll src trees
      let others ← faultsInAll src more
      pure (first ++ others)) := by
  induction trees with
  | nil => simp [faultsInAll]
  | cons tree rest ih =>
    rw [List.cons_append, faultsInAll, ih, faultsInAll]
    simp only [bind_assoc, pure_bind, List.append_assoc]

/-- What is reported of a stack are the errors of its trees, the top one first. -/
theorem faultsOf_eq_faultsInAll (stack : List Tree) :
    faultsOf src stack = faultsInAll src stack := by
  induction stack using faultsOf.induct with
  | case1 => rw [faultsOf, faultsInAll]; rfl
  | case2 loc children named missing stack ih =>
    rw [faultsOf, if_pos rfl, faultsInAll, faultsIn, if_pos rfl, ih]
    simp
  | case3 kind loc children named missing stack hkind hmissing ih =>
    rw [faultsOf, if_neg hkind, if_pos hmissing, faultsInAll, faultsIn, if_neg hkind,
      if_pos hmissing, ih]
    simp
  | case4 kind loc children named missing stack hkind hmissing ih =>
    rw [faultsOf, if_neg hkind, if_neg hmissing, ih, faultsInAll_append, faultsInAll, faultsIn,
      if_neg hkind, if_neg hmissing]

/-- Nothing is reported of a stack exactly if none of its nodes is an error. -/
theorem faultsOf_eq_nil_iff (stack : List Tree) :
    faultsOf src stack = .ok [] ↔ ∀ tree ∈ stack, ∀ n ∈ tree.nodes, ¬ n.IsFault := by
  induction stack using faultsOf.induct with
  | case1 =>
    rw [faultsOf]
    simp
  | case2 loc children named missing stack ih =>
    rw [faultsOf, if_pos rfl]
    -- The node is listed first, or its text is not found and there is no list.
    refine iff_of_false ?_ fun h => ?_
    · intro h
      obtain ⟨text, -, h⟩ := exists_of_bind_eq_ok h
      obtain ⟨rest, -, h⟩ := exists_of_bind_eq_ok h
      cases h
    · exact h _ List.mem_cons_self _ (self_mem_nodes _) (.inl rfl)
  | case3 kind loc children named missing stack hkind hmissing ih =>
    rw [faultsOf, if_neg hkind, if_pos hmissing]
    refine iff_of_false ?_ fun h => ?_
    · intro h
      obtain ⟨rest, -, h⟩ := exists_of_bind_eq_ok h
      cases h
    · exact h _ List.mem_cons_self _ (self_mem_nodes _) (.inr hmissing)
  | case4 kind loc children named missing stack hkind hmissing ih =>
    -- The node itself is no error, and those below it come first on the stack.
    have hself : ¬ (node kind loc children named missing).IsFault := by
      rintro (h | h)
      · exact hkind h
      · exact hmissing h
    rw [faultsOf, if_neg hkind, if_neg hmissing, ih, List.forall_mem_append,
      List.forall_mem_cons, forall_mem_nodes]
    exact and_congr_left fun _ => ⟨fun h => ⟨hself, h⟩, fun h => h.2⟩

/-- The errors of a stack can be listed if the source has the text of what is not recognised. -/
theorem exists_faultsOf_of_token (stack : List Tree)
    (h : ∀ tree ∈ stack, ∀ n ∈ tree.nodes, n.kind = errorKind →
      ∃ text, src.token n.loc = .ok text) :
    ∃ faults, faultsOf src stack = .ok faults := by
  induction stack using faultsOf.induct with
  | case1 => exact ⟨[], by rw [faultsOf]⟩
  | case2 loc children named missing stack ih =>
    obtain ⟨hroot, hstack⟩ := List.forall_mem_cons.mp h
    obtain ⟨text, htext⟩ := hroot _ (self_mem_nodes _) rfl
    obtain ⟨rest, hrest⟩ := ih hstack
    have htext : src.token loc = .ok text := htext
    rw [faultsOf, if_pos rfl, htext, hrest]
    exact ⟨_, rfl⟩
  | case3 kind loc children named missing stack hkind hmissing ih =>
    obtain ⟨rest, hrest⟩ := ih (List.forall_mem_cons.mp h).2
    rw [faultsOf, if_neg hkind, if_pos hmissing, hrest]
    exact ⟨_, rfl⟩
  | case4 kind loc children named missing stack hkind hmissing ih =>
    rw [faultsOf, if_neg hkind, if_neg hmissing]
    obtain ⟨hroot, hstack⟩ := List.forall_mem_cons.mp h
    exact ih (List.forall_mem_append.mpr ⟨(forall_mem_nodes.mp hroot).2, hstack⟩)

theorem faults_eq_nil_iff (root : Tree) :
    root.faults src = .ok [] ↔ ∀ n ∈ root.nodes, ¬ n.IsFault := by
  rw [faults, faultsOf_eq_nil_iff]
  simp

theorem faults_eq_faultsIn (root : Tree) : root.faults src = root.faultsIn src := by
  rw [faults, faultsOf_eq_faultsInAll, faultsInAll, faultsInAll]
  simp

end Tree

namespace Parser

open Code TreeGrammar.Tree

/-- A parse ends with syntax errors exactly if there are any, and these are the ones. -/
theorem parse_eq_syntaxErrors_iff (s : Setting) (root : Tree) (faults : List TreeFault)
    (lines : List String) :
    parse s root = .ok (.syntaxErrors faults, lines) ↔
      root.faults s.src = .ok faults ∧ faults ≠ [] ∧ lines = [] := by
  rw [parse]
  split
  · rename_i fault hfaults
    simp [hfaults]
  · rename_i first rest hfaults
    rw [hfaults]
    constructor
    · intro h
      cases h
      exact ⟨rfl, List.cons_ne_nil _ _, rfl⟩
    · rintro ⟨h, -, rfl⟩
      cases h
      rfl
  · rename_i hfaults
    rw [hfaults]
    refine iff_of_false ?_ ?_
    · split <;> simp
    · rintro ⟨h, hne, -⟩
      exact hne (Except.ok.inj h).symm

/-- The syntax errors of a tree are those that a recursion over it reports, and there are none
exactly if no node is an error. A parse ends with syntax errors exactly if there is such a node,
wherever it stands, and these are then all of them; only where the source does not have the text of
one that is not recognised, they cannot be listed. -/
theorem parse_reports_faults (s : Setting) (root : Tree) :
    root.faults s.src = root.faultsIn s.src ∧
    (root.faults s.src = .ok [] ↔ ∀ n ∈ root.nodes, ¬ n.IsFault) ∧
    (∀ faults lines, parse s root = .ok (.syntaxErrors faults, lines) ↔
      (∃ n ∈ root.nodes, n.IsFault) ∧ root.faults s.src = .ok faults ∧ lines = []) ∧
    (∀ fault, root.faults s.src = .error fault → parse s root = .error (.noPlace fault)) ∧
    ((∀ n ∈ root.nodes, n.kind = errorKind → ∃ text, s.src.token n.loc = .ok text) →
      ((∃ faults, parse s root = .ok (.syntaxErrors faults, [])) ↔
        ∃ n ∈ root.nodes, n.IsFault)) := by
  have hnil : root.faults s.src = .ok [] ↔ ∀ n ∈ root.nodes, ¬ n.IsFault :=
    faults_eq_nil_iff root
  have hends : ∀ faults lines, parse s root = .ok (.syntaxErrors faults, lines) ↔
      (∃ n ∈ root.nodes, n.IsFault) ∧ root.faults s.src = .ok faults ∧ lines = [] := by
    intro faults lines
    rw [parse_eq_syntaxErrors_iff]
    have hsome : root.faults s.src = .ok faults →
        (faults ≠ [] ↔ ∃ n ∈ root.nodes, n.IsFault) := by
      intro hfaults
      rw [hfaults, Except.ok.injEq] at hnil
      rw [ne_eq, hnil]
      simp only [not_forall, not_not, exists_prop]
    constructor
    · rintro ⟨hfaults, hne, rfl⟩
      exact ⟨(hsome hfaults).mp hne, hfaults, rfl⟩
    · rintro ⟨hfault, hfaults, rfl⟩
      exact ⟨hfaults, (hsome hfaults).mpr hfault, rfl⟩
  refine ⟨faults_eq_faultsIn root, hnil, hends, fun fault hfault => ?_, fun htokens => ?_⟩
  · rw [parse, hfault]
  · constructor
    · rintro ⟨faults, hparse⟩
      exact ((hends faults []).mp hparse).1
    · intro hfault
      obtain ⟨faults, hfaults⟩ := exists_faultsOf_of_token [root] (by simpa using htokens)
      exact ⟨faults, (hends faults []).mpr ⟨hfault, hfaults, rfl⟩⟩

/-- A sign that is not recognised, in which something is missing. -/
def strangeSign : Tree :=
  .node errorKind ⟨.at 0 0, .at 0 1⟩
    [.node (.str ";") ⟨.at 0 1, .at 0 1⟩ [] (.bool false) (.bool true)] (.bool true) (.bool false)

/-- A list with a note that holds a strange sign, and with a missing semicolon after the note. -/
def spoiledTree : Tree :=
  .node (.str "list") ⟨.at 0 0, .at 0 1⟩
    [.node (.str "note") ⟨.at 0 0, .at 0 1⟩ [strangeSign] (.bool true) (.bool false),
      .node (.str ";") ⟨.at 0 1, .at 0 1⟩ [] (.bool false) (.bool true)]
    (.bool true) (.bool false)

/-- The sign is reported, though notes are extras, and what is missing in it is not. -/
theorem spoiledTree_reported : ∃ b, build notedGrammar = .ok b ∧
    parse ⟨b.module, .ofText "?", false⟩ spoiledTree =
      .ok (.syntaxErrors [⟨⟨.at 0 0, .at 0 1⟩, "unrecognized input", "?"⟩,
        ⟨⟨.at 0 1, .at 0 1⟩, "missing ;", ""⟩], []) := by
  obtain ⟨b, hb⟩ := exists_build (g := notedGrammar) rfl (by decide)
  obtain ⟨hwalk, -, hends, -⟩ := parse_reports_faults ⟨b.module, .ofText "?", false⟩ spoiledTree
  have hsign : strangeSign ∈ spoiledTree.nodes := by
    simp [spoiledTree, Tree.nodes, reached, reachedIn, strangeSign]
  refine ⟨b, hb, (hends _ _).mpr ⟨⟨strangeSign, hsign, .inl rfl⟩, ?_, rfl⟩⟩
  rw [hwalk]
  with_unfolding_all rfl

end Parser

end TreeGrammar
