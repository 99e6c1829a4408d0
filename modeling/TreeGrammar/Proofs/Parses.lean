import TreeGrammar.Proofs.Methods
import TreeGrammar.Proofs.Readings
import TreeGrammar.Proofs.Runs

/-!
Parses with the module of a grammar. The method of a rule returns for a tree what the rule has for
it. The induction is on the tree: what a method returns for a node follows from what the methods
return for its children.
-/
namespace TreeGrammar

namespace Body

/-- The symbols among some needs are texts. -/
def Textual (needs : List Need) : Prop :=
  ∀ name, .rule name ∈ needs → ∃ text, name = .str text

theorem textual_append {a b : List Need} : Textual (a ++ b) ↔ Textual a ∧ Textual b := by
  refine ⟨fun h => ⟨fun name hn => h name (List.mem_append_left b hn),
    fun name hn => h name (List.mem_append_right a hn)⟩, fun h name hn => ?_⟩
  rcases List.mem_append.mp hn with hn | hn
  · exact h.1 name hn
  · exact h.2 name hn

mutual

/-- A body has a short form if its symbols are texts. -/
theorem short_isSome_iff : (body : Body) → (body.short.isSome ↔ Textual body.needs)
  | symbol (.str text) => by simp [short, needs, Textual]
  | symbol .null | symbol (.bool _) | symbol (.int _) | symbol (.real _) | symbol (.infinite _)
  | symbol .nan | symbol (.arr _) | symbol (.obj _) => by simp [short, needs, Textual]
  | literal _ | pattern _ => by simp [short, needs, Textual]
  | blank => by simp [short, needs, Textual]
  | star body | plus body => by
    rw [short, needs, ← short_isSome_iff body]
    cases body.short <;> simp
  | choice bodies | seq bodies => by
    rw [short, needs, ← shorts_isSome_iff bodies]
    cases shorts bodies <;> simp

theorem shorts_isSome_iff : (bodies : List Body) →
    ((shorts bodies).isSome ↔ Textual (needsOf bodies))
  | [] => by simp [shorts, needsOf, Textual]
  | body :: rest => by
    rw [shorts, needsOf, textual_append, ← short_isSome_iff body, ← shorts_isSome_iff rest]
    cases body.short <;> cases shorts rest <;> simp

end

end Body

theorem Rule.short_isSome_iff (rule : Rule) :
    rule.short.isSome ↔ Body.Textual rule.body.needs := by
  rw [Rule.short, ← Body.short_isSome_iff]
  cases rule.body.short <;> simp

namespace Grammar

/-- The symbols of the rules are texts. -/
def Textual (g : Grammar) : Prop :=
  ∀ rule ∈ g.rules, Body.Textual rule.body.needs

theorem textual_iff_short {g : Grammar} : g.Textual ↔ ∀ rule ∈ g.rules, rule.short.isSome :=
  forall₂_congr fun rule _ => rule.short_isSome_iff.symm

instance (g : Grammar) : Decidable g.Textual :=
  decidable_of_iff (∀ rule ∈ g.rules, rule.short.isSome) textual_iff_short.symm

/-- The numbers among the kinds of leaves are finite, so they have a form in code. -/
def Writable (g : Grammar) : Prop :=
  ∀ rule ∈ g.rules, (rule.isLeaf → rule.name.isFinite) ∧
    ∀ text, .token text ∈ rule.body.needs → text.isFinite

theorem resolve_isSome {g : Grammar} {text : String} (h : Label.isAmong g.names (.str text)) :
    (g.resolve (.str text)).isSome := by
  obtain ⟨name, hname, hlike⟩ := List.any_eq_true.mp h
  obtain ⟨rule, hrule, rfl⟩ := List.mem_map.mp hname
  have heq : rule.name = .str text := (Json.alike_str_left_iff text rule.name).mp hlike
  rw [resolve, List.find?_isSome]
  exact ⟨rule, List.mem_reverse.mpr hrule, by rw [heq, beq_self_eq_true]⟩

theorem mem_of_resolve {g : Grammar} {name : Label} {rule : Rule}
    (h : g.resolve name = some rule) : rule ∈ g.rules :=
  List.mem_reverse.mp (List.mem_of_find?_eq_some h)

theorem resolve_of_need {g : Grammar} (h : g.check = .ok ()) (ht : g.Textual) {rule : Rule}
    (hr : rule ∈ g.rules) {name : Label} (hn : .rule name ∈ rule.body.needs) :
    (g.resolve name).isSome := by
  have hamong := rule.body.isAmong_of_fault (body_fault_of_check h hr) hn
  obtain ⟨text, rfl⟩ := ht rule hr name hn
  exact resolve_isSome hamong

end Grammar

/-- Lists whose elements correspond have corresponding elements where one is looked for. -/
theorem rel_find? {α β : Type} {R : α → β → Prop} {p : α → Bool} {q : β → Bool} {as : List α}
    {bs : List β} (h : List.Forall₂ R as bs) (hp : ∀ a b, R a b → p a = q b) :
    Option.Rel R (as.find? p) (bs.find? q) := by
  induction h with
  | nil => exact .none
  | cons hab _ ih =>
    rw [List.find?_cons, List.find?_cons, hp _ _ hab]
    split
    · exact .some hab
    · exact ih

namespace Parser

open Code

/-- The module is that of a checked grammar. -/
structure Runs (g : Grammar) (s : Setting) : Prop where
  check : g.check = .ok ()
  module : ModuleOf g s.module

section
variable {g : Grammar} {s : Setting} {name : Label}

theorem Runs.textual (h : Runs g s) : g.Textual := by
  intro rule hr
  obtain ⟨method, -, hm⟩ := h.module.exists_method hr
  exact rule.short_isSome_iff.mp hm.short

theorem Runs.rel_method? (h : Runs g s) (name : Label) :
    Option.Rel MethodOf (g.resolve name) (s.method? name) := by
  refine rel_find? (List.forall₂_reverse_iff.mpr h.module.methods) fun rule method hm => ?_
  rw [method.id_eq, hm.name]

theorem Runs.exists_method (h : Runs g s) {rule : Rule} (hr : g.resolve name = some rule) :
    ∃ method, s.method? name = some method ∧ MethodOf rule method := by
  have hrel := h.rel_method? name
  rw [hr] at hrel
  cases hm : s.method? name with
  | none =>
    rw [hm] at hrel
    cases hrel
  | some method =>
    rw [hm] at hrel
    cases hrel with
    | some hmethod => exact ⟨method, rfl, hmethod⟩

end

namespace Setting

variable (s : Setting)

theorem mark_tree (tree : Tree) : (s.mark tree).tree = tree := by
  cases tree
  rw [mark]
  rfl

theorem markAll_eq_map (trees : List Tree) : s.markAll trees = trees.map s.mark := by
  induction trees with
  | nil => rw [markAll, List.map_nil]
  | cons tree rest ih => rw [markAll, List.map_cons, ih]

theorem mark_children (tree : Tree) : (s.mark tree).children = tree.children.map s.mark := by
  cases tree
  rw [mark]
  exact markAll_eq_map s _

theorem map_tree_map_mark (trees : List Tree) :
    (trees.map s.mark).map Marked.tree = trees := by
  rw [List.map_map]
  exact (List.map_congr_left fun tree _ => s.mark_tree tree).trans (List.map_id trees)

end Setting

section
variable {g : Grammar} {s : Setting} {P : Prop} {leaf : Loc → Value}

/-- A method that is called returns what is read, if it does so for the first node. -/
theorem returns_callMethod {name : Label} (hm : (s.method? name).isSome) {nodes : List Tree}
    (hfirst : ∀ tree ∈ nodes.head?,
      Returns P ((s.mark tree).answer name) (g.answer leaf tree name))
    (hshown : P → (Tree.shown nodes).isSome) (form : RestForm) :
    Returns P (s.callMethod form name (nodes.map s.mark))
      ((Match.first (g.answer leaf) name nodes).place s.mark) := by
  have hanswer : Returns P (s.answer name (nodes.map s.mark))
      ((Match.first (g.answer leaf) name nodes).place s.mark) := by
    cases nodes with
    | nil =>
      rw [List.map_nil, Setting.answer, if_pos hm]
      exact returns_pure _
    | cons tree rest =>
      rw [List.map_cons, Setting.answer]
      refine returns_bind (hfirst tree rfl) ?_
      change Returns P _ (Match.place s.mark ((g.answer leaf tree name).map _))
      cases g.answer leaf tree name <;> exact returns_pure _
  unfold Setting.callMethod
  split
  · rw [Setting.map_tree_map_mark]
    exact returns_bind (returns_enter hshown)
      (returns_bind hanswer (returns_bind (returns_leave _ _ _) (returns_pure _)))
  · exact hanswer

theorem returns_leaf (hleaf : s.src.Tells leaf) {n : Marked} (hp : P → n.tree.Placed s.src) :
    Returns P (s.leaf n) (leaf n.tree.loc) := by
  rw [Setting.leaf]
  rcases ht : s.src.token n.tree.loc with fault | token
  · apply returns_throw
    intro h
    obtain ⟨token, htoken⟩ := (hp h).token
    rw [ht] at htoken
    cases htoken
  · rw [hleaf _ _ ht]
    exact returns_pure _

/-- The interpretation of the code of a method for the children of a node. -/
def childInterpretation (g : Grammar) (s : Setting) (hleaf : s.src.Tells leaf) {tree : Tree}
    (hp : P → tree.Placed s.src) :
    Interpretation Run { child // child ∈ tree.children } Marked where
  judgement := judgement P
  place child := s.mark child.1
  host := s.host
  read := g.childReading leaf tree
  kind child := by
    change (s.mark child.1).tree.kind = child.1.kind
    rw [s.mark_tree]
  leaf child := by
    have hleaf : Returns P (s.leaf (s.mark child.1)) (leaf (s.mark child.1).tree.loc) :=
      returns_leaf hleaf fun h => by
        rw [s.mark_tree]
        exact (hp h).child child.2
    rw [s.mark_tree] at hleaf
    exact hleaf

/-- What the rules answer and the tokens of a rule are as its body relies on. -/
theorem meets_childInterpretation (h : Runs g s) (hleaf : s.src.Tells leaf) {rule : Rule}
    (hr : rule ∈ g.rules) {tree : Tree} (hP : P → g.Writable ∧ tree.Placed s.src)
    (hc : ∀ child ∈ tree.children, ∀ name, (g.resolve name).isSome →
      Returns P ((s.mark child).answer name) (g.answer leaf child name)) :
    (childInterpretation g s hleaf fun hp => (hP hp).2).Meets rule.body.needs := by
  refine ⟨fun name hn => ⟨Match.first (fun child => g.answer leaf child.1) name, fun nodes => ?_,
    fun nodes => rfl⟩, fun text ht => ?_⟩
  -- A symbol of a checked grammar leads to a rule, and the rule to a method.
  · have hres := Grammar.resolve_of_need h.check h.textual hr hn
    obtain ⟨other, hother⟩ := Option.isSome_iff_exists.mp hres
    obtain ⟨method, hmethod, -⟩ := h.exists_method hother
    have hchild : ∀ child ∈ nodes.map Subtype.val, child ∈ tree.children := by
      intro child hm
      obtain ⟨c, -, rfl⟩ := List.mem_map.mp hm
      exact c.2
    have hcall := returns_callMethod (Option.isSome_iff_exists.mpr ⟨method, hmethod⟩)
      (fun child hm => hc child (hchild child (List.mem_of_head? hm)) name hres)
      (fun hp => Tree.shown_of_placed fun child hm =>
        (hP hp).2.child (hchild child (List.mem_of_head? hm))) .tuple
    have hfirst : Match.first (g.answer leaf) name (nodes.map Subtype.val) =
        (Match.first (fun child => g.answer leaf child.1) name nodes).place Subtype.val :=
      Match.first_map (fun _ _ => rfl) name nodes
    rw [hfirst, List.map_map, Match.place_place] at hcall
    exact hcall
  · by_cases hf : text.isFinite
    · exact .inl hf
    · have hno : ¬ P := fun hp => hf (((hP hp).1 rule hr).2 text ht)
      exact .inr fun found : Match Marked =>
        (returns_throw hno (.noNumber text) found : Returns P _ _)

/-- The matcher of a leaf rule returns what the rule has for the first node. -/
theorem returns_leafMatcher (hleaf : s.src.Tells leaf) {rule : Rule} (hr : rule ∈ g.rules)
    (hl : rule.isLeaf) {n : Marked} (hP : P → g.Writable ∧ n.tree.Placed s.src)
    (rest : List Marked) :
    Returns P (s.host.leafMatcher rule.name (n :: rest))
      ((g.ruleAnswer leaf rule n.tree).map fun v => (v, rest)) := by
  rw [Host.leafMatcher]
  by_cases hf : rule.name.isFinite
  · have hcheck : Returns P (do
        if (s.host.kind n).alike rule.name then pure (some (← s.host.leaf n)) else pure none)
        (g.ruleAnswer leaf rule n.tree) := by
      rw [Grammar.ruleAnswer, if_pos hl]
      change Returns P (if n.tree.kind.alike rule.name then _ else _) _
      split
      · exact returns_bind (returns_leaf hleaf fun hp => (hP hp).2) (returns_pure _)
      · exact returns_pure _
    rw [if_pos hf, Matcher.node]
    apply returns_bind hcheck
    cases g.ruleAnswer leaf rule n.tree <;> exact returns_pure _
  · rw [if_neg hf]
    apply returns_throw
    intro hp
    exact hf (((hP hp).1 rule hr).1 hl)

/-- The matcher of a rule with parts returns what the rule has for the first node, if the matcher of
its body finds the complete result for the children. -/
theorem returns_nodeMatcher {rule : Rule} (hl : ¬ rule.isLeaf) {n : Marked}
    {children : Matcher Run Marked}
    (hchildren : Returns P (children (s.host.children n))
      ((complete (rule.body.results (g.reading leaf) n.tree.children)).map fun v => (v, [])))
    (rest : List Marked) :
    Returns P (s.host.nodeMatcher rule.name children (n :: rest))
      ((g.ruleAnswer leaf rule n.tree).map fun v => (v, rest)) := by
  rw [Host.nodeMatcher, Matcher.node]
  refine returns_bind (a := g.ruleAnswer leaf rule n.tree) ?_ ?_
  · rw [Grammar.ruleAnswer, if_neg hl]
    change Returns P (if n.tree.kind.alike rule.name then _ else _) _
    split
    · apply returns_bind hchildren
      cases complete (rule.body.results (g.reading leaf) n.tree.children)
      · exact returns_pure _
      · exact returns_pure _
    · exact returns_pure _
  · cases g.ruleAnswer leaf rule n.tree
    · exact returns_pure _
    · exact returns_pure _

/-- What the method of a rule returns for a node, if the methods return for its children what the
rules have for these. -/
theorem returns_method (h : Runs g s) (hleaf : s.src.Tells leaf) {rule : Rule}
    (hr : rule ∈ g.rules) {method : Method} (hm : MethodOf rule method) {n : Marked}
    (hs : n.children = n.tree.children.map s.mark)
    (hP : P → g.Writable ∧ n.tree.Placed s.src)
    (hc : ∀ child ∈ n.tree.children, ∀ name, (g.resolve name).isSome →
      Returns P ((s.mark child).answer name) (g.answer leaf child name))
    (rest : List Marked) :
    Returns P (method.block.meaning s.host .empty (n :: rest))
      ((g.ruleAnswer leaf rule n.tree).map fun v => (v, rest)) := by
  by_cases hl : rule.isLeaf
  · rw [hm.leaf hl]
    exact returns_leafMatcher hleaf hr hl hP rest
  · obtain ⟨children, hmeaning, hanswers⟩ := hm.node hl
    -- The code of the method is interpreted for the children of this one node.
    have hmeets := meets_childInterpretation h hleaf hr hP hc
    have hall := hanswers _ .empty hmeets n.tree.children.attach
    have hplaced : n.tree.children.attach.map (fun child => s.mark child.1) =
        s.host.children n := by
      rw [List.attach_map_val]
      exact hs.symm
    have hresults := g.complete_childReading leaf n.tree rule.body
    have hchildren : Returns P (children.meaning s.host .empty (s.host.children n))
        ((complete (rule.body.results (g.reading leaf) n.tree.children)).map fun v => (v, [])) := by
      rw [← hplaced, ← hresults]
      dsimp only [childInterpretation] at hall
      rw [Match.place, Option.map_map] at hall
      exact hall
    rw [hmeaning]
    exact returns_nodeMatcher hl hchildren rest

mutual

/-- What the method of a name returns for a marked tree is what its rule has for the tree. -/
theorem returns_mark (h : Runs g s) (hleaf : s.src.Tells leaf) : (tree : Tree) →
    (P → g.Writable ∧ tree.Placed s.src) → ∀ name, (g.resolve name).isSome →
      Returns P ((s.mark tree).answer name) (g.answer leaf tree name)
  | .node kind loc children named missing, hP => by
    intro name hres
    obtain ⟨rule, hrule⟩ := Option.isSome_iff_exists.mp hres
    obtain ⟨method, hmethod, hm⟩ := h.exists_method hrule
    let n : Marked := .mk (.node kind loc children named missing) (children.map s.mark)
      fun _ => pure none
    have hn : Returns P (method.block.meaning s.host .empty [n])
        ((g.ruleAnswer leaf rule n.tree).map fun v => (v, [])) :=
      returns_method (n := n) h hleaf (Grammar.mem_of_resolve hrule) hm rfl hP
        (returns_markAll h hleaf children fun hp => ⟨(hP hp).1, (hP hp).2.2⟩) []
    rw [Setting.mark, Marked.answer, Setting.runMethod, hmethod, Grammar.answer_eq, hrule,
      s.markAll_eq_map]
    refine returns_bind hn ?_
    rw [Option.map_map]
    change Returns P (pure (Option.map id (g.ruleAnswer leaf rule n.tree))) _
    rw [Option.map_id]
    exact returns_pure _

theorem returns_markAll (h : Runs g s) (hleaf : s.src.Tells leaf) : (trees : List Tree) →
    (P → g.Writable ∧ Tree.PlacedAll s.src trees) →
    ∀ tree ∈ trees, ∀ name, (g.resolve name).isSome →
      Returns P ((s.mark tree).answer name) (g.answer leaf tree name)
  | [], _ => fun tree ht => by cases ht
  | tree :: rest, hP => List.forall_mem_cons.mpr
    ⟨returns_mark h hleaf tree fun hp => ⟨(hP hp).1, (hP hp).2.1⟩,
      returns_markAll h hleaf rest fun hp => ⟨(hP hp).1, (hP hp).2.2⟩⟩

end

end

end Parser

end TreeGrammar
