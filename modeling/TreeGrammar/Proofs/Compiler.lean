import TreeGrammar.Proofs.Parses

/-!
The compiler is correct: for every checked grammar whose symbols are texts there is a module, and
the method of each rule with parts returns the value of the first result of the body that uses up
the children. What symbols are read as is what the same methods return.
-/
namespace TreeGrammar.Parser

open Code

/-- The matcher returns, for nodes the first of which is of the kind of the rule, the value of the
first complete result for the children, with the other nodes left. It has a fault only if a number
of the grammar has no form in code or a node has no place in the source. -/
def MatchesRule (g : Grammar) (s : Setting) (leaf : Loc → Value) (rule : Rule)
    (matcher : Matcher Run Marked) : Prop :=
  ∀ tree rest, tree.kind.alike rule.name →
    Returns (g.Writable ∧ tree.Placed s.src) (matcher ((tree :: rest).map s.mark))
      ((complete (rule.body.results (g.reading leaf) tree.children)).map fun v =>
        (v, rest.map s.mark))

/-- What the methods of a module return is what the grammar says. -/
structure Faithful (g : Grammar) (s : Setting) (leaf : Loc → Value) : Prop where
  /-- The method of the name of a symbol looks at the first node and returns what is read. -/
  symbol : ∀ name : String, Label.isAmong g.names name → ∀ form nodes,
    Returns (g.Writable ∧ Tree.PlacedAll s.src nodes) (s.callMethod form name (nodes.map s.mark))
      ((Match.first (g.answer leaf) name nodes).place s.mark)
  /-- A rule with parts has a method that matches the rule. -/
  method : ∀ rule ∈ g.rules, ¬ rule.isLeaf → ∃ method ∈ s.module.methods,
    method.rule = rule.name ∧ MatchesRule g s leaf rule (method.block.meaning s.host .empty)
  /-- It is the method that the name of the rule leads to unless it shares its name. -/
  called : ∀ rule ∈ g.rules, ¬ rule.isLeaf →
    (∀ other ∈ g.rules, methodId other.name = methodId rule.name → other = rule) →
      ∀ form, MatchesRule g s leaf rule (s.callMethod form rule.name)

section
variable {g : Grammar} {s : Setting} {leaf : Loc → Value}

theorem Runs.matchesRule_method (h : Runs g s) (hleaf : s.src.Tells leaf) {rule : Rule}
    (hr : rule ∈ g.rules) (hl : ¬ rule.isLeaf) {method : Method} (hm : MethodOf rule method) :
    MatchesRule g s leaf rule (method.block.meaning s.host .empty) := by
  intro tree rest hk
  have hchildren : (s.mark tree).children = (s.mark tree).tree.children.map s.mark := by
    rw [s.mark_children, s.mark_tree]
  have hreturns := returns_method (P := g.Writable ∧ tree.Placed s.src) h hleaf hr hm hchildren
    (by
      rw [s.mark_tree]
      exact id)
    (by
      rw [s.mark_tree]
      intro child hc
      exact returns_mark h hleaf child fun hp => ⟨hp.1, hp.2.child hc⟩)
    (rest.map s.mark)
  rw [s.mark_tree, Grammar.ruleAnswer, if_pos hk, if_neg hl] at hreturns
  exact hreturns

theorem resolve_of_unique {rule : Rule} (hr : rule ∈ g.rules)
    (hu : ∀ other ∈ g.rules, methodId other.name = methodId rule.name → other = rule) :
    g.resolve rule.name = some rule := by
  have hsome : (g.resolve rule.name).isSome := by
    rw [Grammar.resolve, List.find?_isSome]
    exact ⟨rule, List.mem_reverse.mpr hr, beq_self_eq_true _⟩
  obtain ⟨other, ho⟩ := Option.isSome_iff_exists.mp hsome
  have hid := List.find?_some ho
  rw [ho, hu other (Grammar.mem_of_resolve ho) (eq_of_beq hid)]

theorem Runs.matchesRule_callMethod (h : Runs g s) (hleaf : s.src.Tells leaf) {rule : Rule}
    (hr : rule ∈ g.rules) (hl : ¬ rule.isLeaf)
    (hu : ∀ other ∈ g.rules, methodId other.name = methodId rule.name → other = rule)
    (form : RestForm) : MatchesRule g s leaf rule (s.callMethod form rule.name) := by
  intro tree rest hk
  have hres := resolve_of_unique hr hu
  obtain ⟨method, hmethod, -⟩ := h.exists_method hres
  have hcall : (Match.first (g.answer leaf) rule.name (tree :: rest)).place s.mark =
      (complete (rule.body.results (g.reading leaf) tree.children)).map fun v =>
        (v, rest.map s.mark) := by
    have hanswer : g.answer leaf tree rule.name =
        complete (rule.body.results (g.reading leaf) tree.children) := by
      rw [Grammar.answer_eq, hres, Option.bind_some, Grammar.ruleAnswer, if_pos hk, if_neg hl]
    calc (Match.first (g.answer leaf) rule.name (tree :: rest)).place s.mark
        = ((g.answer leaf tree rule.name).map fun v => (v, rest)).map
            (Prod.map id (List.map s.mark)) := rfl
      _ = (g.answer leaf tree rule.name).map fun v => (v, rest.map s.mark) := Option.map_map _ _ _
      _ = (complete (rule.body.results (g.reading leaf) tree.children)).map fun v =>
            (v, rest.map s.mark) := by rw [hanswer]
  rw [← hcall]
  apply returns_callMethod (Option.isSome_iff_exists.mpr ⟨method, hmethod⟩)
  · intro other ho
    cases ho
    exact returns_mark h hleaf tree id rule.name (Option.isSome_iff_exists.mpr ⟨rule, hres⟩)
  · intro hp
    have hplaced : ∀ other ∈ (tree :: rest).head?, other.Placed s.src := by
      intro other ho
      cases ho
      exact hp.2
    exact Tree.shown_of_placed hplaced

theorem Runs.faithful (h : Runs g s) (hleaf : s.src.Tells leaf) : Faithful g s leaf := by
  refine ⟨fun name hn form nodes => ?_, fun rule hr hl => ?_, fun rule hr hl hu form => ?_⟩
  · have hres := Grammar.resolve_isSome hn
    obtain ⟨rule, hrule⟩ := Option.isSome_iff_exists.mp hres
    obtain ⟨method, hmethod, -⟩ := h.exists_method hrule
    refine returns_callMethod (Option.isSome_iff_exists.mpr ⟨method, hmethod⟩) ?_ ?_ form
    · intro tree ht
      have hmem := List.mem_of_head? ht
      exact returns_mark h hleaf tree (fun hp => ⟨hp.1, hp.2.of_mem hmem⟩) name hres
    · exact fun hp => Tree.shown_of_placed fun tree ht => hp.2.of_mem (List.mem_of_head? ht)
  · obtain ⟨method, hmem, hm⟩ := h.module.exists_method hr
    exact ⟨method, hmem, hm.name, h.matchesRule_method hleaf hr hl hm⟩
  · exact h.matchesRule_callMethod hleaf hr hl hu form

/-- The value of a tree without extras is what the rule of the entrypoint has for it. -/
theorem Runs.returns_value (h : Runs g s) (hleaf : s.src.Tells leaf) {root tree : Tree}
    (ht : root.stripped g.extras = some tree) :
    Returns (g.Writable ∧ tree.Placed s.src) (s.value root)
      (g.answer leaf tree g.entrypoint) := by
  have hcall := (h.faithful hleaf).symbol g.entrypoint (Grammar.entrypoint_of_check h.check) .list
    [tree]
  rw [Setting.value, h.module.extras, ht, h.module.entrypoint]
  have hone := hcall.mono fun hp : g.Writable ∧ tree.Placed s.src => ⟨hp.1, hp.2, trivial⟩
  refine returns_bind hone ?_
  dsimp only [Match.first, Match.ofFirst]
  cases g.answer leaf tree g.entrypoint with
  | none => exact returns_pure _
  | some v => exact returns_pure _

/-- A checked grammar is compiled if and only if its symbols are texts, and its module is faithful
to it, for every source and with or without a journal. Leaves without a text may be read as
anything. -/
theorem compiled_module_faithful (g : Grammar) (h : g.check = .ok ()) :
    ((∃ b, build g = .ok b) ↔ g.Textual) ∧
      ∀ b, build g = .ok b → ∀ s : Setting, s.module = b.module →
        ∀ leaf, s.src.Tells leaf → Faithful g s leaf := by
  have hruns {b : Build} (hb : build g = .ok b) {s : Setting} (hs : s.module = b.module) :
      Runs g s := ⟨h, hs ▸ moduleOf_of_build hb⟩
  refine ⟨⟨?_, fun ht => ?_⟩, fun b hb s hs leaf hleaf => (hruns hb hs).faithful hleaf⟩
  · rintro ⟨b, hb⟩
    exact (hruns hb (s := ⟨b.module, .ofText "", false⟩) rfl).textual
  · exact exists_build h fun rule hr => rule.short_isSome_iff.mpr (ht rule hr)

end

/-- A grammar of bracketed items. -/
def listGrammar : Grammar where
  entrypoint := "list"
  rules := [⟨.str "list", .seq [.literal (.str "["), .star (.symbol (.str "item")),
    .literal (.str "]")]⟩, ⟨.str "item", .blank⟩]
  extras := []
  distinct := by decide

theorem listGrammar_faithful :
    listGrammar.check = .ok () ∧ ∃ b, build listGrammar = .ok b ∧
      ∀ s : Setting, s.module = b.module →
        ∀ leaf, s.src.Tells leaf → Faithful listGrammar s leaf := by
  have hcheck : listGrammar.check = .ok () := rfl
  obtain ⟨hiff, hall⟩ := compiled_module_faithful listGrammar hcheck
  have htextual : listGrammar.Textual := by
    intro rule hr name hn
    simp only [listGrammar, List.mem_cons, List.not_mem_nil, or_false] at hr
    rcases hr with rfl | rfl
    · simp only [Body.needs, Body.needsOf, List.append_nil, List.cons_append, List.nil_append,
        List.mem_cons, List.not_mem_nil, or_false, reduceCtorEq, false_or,
        Body.Need.rule.injEq] at hn
      exact ⟨"item", hn⟩
    · cases hn
  obtain ⟨b, hb⟩ := hiff.mpr htextual
  exact ⟨hcheck, b, hb, hall b hb⟩

end TreeGrammar.Parser
