import TreeGrammar.Parser.Bounded
import TreeGrammar.Proofs.Compiler
import TreeGrammar.Proofs.Looping
import TreeGrammar.Proofs.Reporting
import TreeGrammar.Proofs.Stripping

/-!
Parses end. A method calls other methods for the children of its node alone, so no more methods run
at once than a tree is high, whatever rules refer to each other or to themselves; and the loop of a
repetition has a greatest number of rounds for the count of its nodes. A parse within these bounds
has an outcome, and it is that of the parse without bounds.
-/
namespace TreeGrammar

namespace Code

variable {m : Type → Type} [Monad m] [MonadExceptOf RunFault m] [LawfulMonad m] {ν : Type}
  {rounds : Nat → Nat}

open Matcher (loopRounds repetitionWithin_eq)

/-- With enough rounds for each loop an expression means what it means. -/
theorem Expr.meaningWithin_eq (hr : ∀ count, loopRounds count ≤ rounds count)
    (host : Host (OptionT m) ν) (env : Env (OptionT m) ν) (e : Expr) :
    e.meaningWithin rounds host env = e.meaning host env := by
  induction e with
  | seq element tail ihe iht => rw [meaningWithin, meaning, ihe, iht]
  | star element tail ihe iht =>
    rw [meaningWithin, meaning, ihe, iht, repetitionWithin_eq hr, Matcher.star]
  | plus element tail ihe iht =>
    rw [meaningWithin, meaning, ihe, iht, repetitionWithin_eq hr, Matcher.plus]
  | node kind children ih => rw [meaningWithin, meaning, ih]
  | _ => rfl

theorem Block.meaningWithin_eq (hr : ∀ count, loopRounds count ≤ rounds count)
    (host : Host (OptionT m) ν) (env : Env (OptionT m) ν) (b : Block) :
    b.meaningWithin rounds host env = b.meaning host env := by
  induction b generalizing env with
  | define name body next ihb ihn => rw [meaningWithin, meaning, ihb, ihn]
  | bind name value next ih => rw [meaningWithin, meaning, value.meaningWithin_eq hr, ih]
  | attempt matcher next ih =>
    funext nodes
    have hmatcher := congrFun (matcher.meaningWithin_eq hr host env) nodes
    refine congrArg₂ (· >>= ·) hmatcher (funext fun found => ?_)
    cases found with
    | none => exact congrFun (ih env) nodes
    | some r => rfl
  | ret matcher => exact matcher.meaningWithin_eq hr host env
  | regroup matcher pattern result =>
    funext nodes
    have hmatcher := congrFun (matcher.meaningWithin_eq hr host env) nodes
    refine congrArg₂ (· >>= ·) hmatcher (funext fun found => ?_)
    cases found <;> rfl
  | insert code next ih => exact ih env
  | given code => rfl

end Code

namespace Tree

mutual

/-- How many nodes lie above each other in a tree. -/
def height : Tree → Nat
  | node _ _ children _ _ => heights children + 1

def heights : List Tree → Nat
  | [] => 0
  | tree :: rest => max (height tree) (heights rest)

end

theorem height_le_heights {tree : Tree} {trees : List Tree} (h : tree ∈ trees) :
    tree.height ≤ heights trees := by
  induction trees with
  | nil => cases h
  | cons first rest ih =>
    rw [heights]
    rcases List.mem_cons.mp h with rfl | h
    · exact Nat.le_max_left _ _
    · exact (ih h).trans (Nat.le_max_right _ _)

theorem height_child_lt {tree child : Tree} (h : child ∈ tree.children) :
    child.height < tree.height := by
  obtain ⟨kind, loc, children, named, missing⟩ := tree
  rw [height]
  exact Nat.lt_succ_of_le (height_le_heights h)

mutual

/-- Without extras a tree is not higher. -/
theorem height_withoutExtras (extras : List Label) : (tree : Tree) →
    (withoutExtras extras tree).height ≤ tree.height
  | node kind loc children named missing => by
    rw [withoutExtras, height, height]
    exact Nat.succ_le_succ (heights_keepOthers extras children)

theorem heights_keepOthers (extras : List Label) : (trees : List Tree) →
    heights (keepOthers extras trees) ≤ heights trees
  | [] => by rw [keepOthers]
  | tree :: rest => by
    have htree := height_withoutExtras extras tree
    have hrest := heights_keepOthers extras rest
    rw [keepOthers]
    split
    · rw [heights]
      omega
    · rw [heights, heights]
      omega

end

theorem height_stripped {extras : List Label} {root tree : Tree}
    (h : root.stripped extras = some tree) : tree.height ≤ root.height := by
  rw [stripped] at h
  split at h
  · cases h
    exact le_rfl
  · split at h
    · cases h
      exact height_withoutExtras extras root
    · cases h

end Tree

namespace Parser

open Code

section
variable {α β : Type} {P : Prop}

/-- The run returns `a` and does not use up what it may use; it has a fault only if `P` fails. -/
def ReturnsWithin (P : Prop) (x : OptionT Run α) (a : α) : Prop :=
  Returns P x.run (some a)

theorem returnsWithin_pure (a : α) : ReturnsWithin P (pure a) a :=
  returns_pure (some a)

theorem returnsWithin_bind {x : OptionT Run α} {f : α → OptionT Run β} {a : α} {b : β}
    (hx : ReturnsWithin P x a) (hf : ReturnsWithin P (f a) b) : ReturnsWithin P (x >>= f) b := by
  rw [ReturnsWithin, OptionT.run_bind]
  exact returns_bind hx hf

theorem returnsWithin_throw (h : ¬ P) (fault : RunFault) (a : α) :
    ReturnsWithin P (throwThe RunFault fault) a :=
  fun _ => h

theorem returnsWithin_lift {x : Run α} {a : α} (h : Returns P x a) :
    ReturnsWithin P (liftM x) a := by
  change Returns P (x >>= fun a => pure (some a)) (some a)
  exact returns_bind h (returns_pure (some a))

/-- What is returned by runs within bounds. -/
def judgementWithin (P : Prop) : Judgement (OptionT Run) :=
  ⟨ReturnsWithin P, returnsWithin_pure, returnsWithin_bind⟩

/-- A matcher of the first node returns what the check returns for it. -/
theorem returnsWithin_node {ν : Type} {check : ν → OptionT Run (Option Value)} {n : ν}
    {found : Option Value} (h : ReturnsWithin P (check n) found) (rest : List ν) :
    ReturnsWithin P (Matcher.node check (n :: rest)) (found.map fun v => (v, rest)) := by
  rw [Matcher.node]
  apply returnsWithin_bind h
  cases found <;> exact returnsWithin_pure _

end

section
variable {g : Grammar} {s : Setting} {P : Prop} {leaf : Loc → Value}
  {call : Label → Matcher (OptionT Run) Tree}

theorem returnsWithin_leaf (hleaf : s.src.Tells leaf) {tree : Tree} (hp : P → tree.Placed s.src) :
    ReturnsWithin P ((s.hostCalling call).leaf tree) (leaf tree.loc) := by
  dsimp only [Setting.hostCalling]
  split
  · rename_i token ht
    rw [hleaf _ _ ht]
    exact returnsWithin_pure _
  · rename_i fault ht
    apply returnsWithin_throw
    intro h
    obtain ⟨token, htoken⟩ := (hp h).token
    rw [ht] at htoken
    cases htoken

/-- The interpretation of the code of a method for the children of a node. -/
def callInterpretation (g : Grammar) (s : Setting) (call : Label → Matcher (OptionT Run) Tree)
    (hleaf : s.src.Tells leaf) {tree : Tree} (hp : P → tree.Placed s.src) :
    Interpretation (OptionT Run) { child // child ∈ tree.children } Tree where
  judgement := judgementWithin P
  place := Subtype.val
  host := s.hostCalling call
  read := g.childReading leaf tree
  kind _ := rfl
  leaf child := returnsWithin_leaf hleaf fun h => (hp h).child child.2

/-- The method of a name returns for some nodes what its rule has for the first of them. -/
def Calls (g : Grammar) (leaf : Loc → Value) (P : Prop) (matcher : Matcher (OptionT Run) Tree)
    (name : Label) (nodes : List Tree) : Prop :=
  ReturnsWithin P (matcher nodes) (Match.first (g.answer leaf) name nodes)

theorem meets_callInterpretation (h : Runs g s) (hleaf : s.src.Tells leaf) {rule : Rule}
    (hr : rule ∈ g.rules) {tree : Tree} (hP : P → g.Writable ∧ tree.Placed s.src)
    (hc : ∀ name, (g.resolve name).isSome → ∀ nodes, (∀ n ∈ nodes, n ∈ tree.children) →
      Calls g leaf P (call name) name nodes) :
    (callInterpretation g s call hleaf fun hp => (hP hp).2).Meets rule.body.needs := by
  refine ⟨fun name hn => ⟨Match.first (fun child => g.answer leaf child.1) name, fun nodes => ?_,
    fun nodes => rfl⟩, fun text ht => ?_⟩
  · have hchildren : ∀ n ∈ nodes.map Subtype.val, n ∈ tree.children := by
      intro n hm
      obtain ⟨child, -, rfl⟩ := List.mem_map.mp hm
      exact child.2
    have hcall := hc name (Grammar.resolve_of_need h.check h.textual hr hn) _ hchildren
    have hfirst : Match.first (g.answer leaf) name (nodes.map Subtype.val) =
        (Match.first (fun child => g.answer leaf child.1) name nodes).place Subtype.val :=
      Match.first_map (fun _ _ => rfl) name nodes
    rw [Calls, hfirst] at hcall
    exact hcall
  · by_cases hf : text.isFinite
    · exact .inl hf
    · have hno : ¬ P := fun hp => hf (((hP hp).1 rule hr).2 text ht)
      exact .inr fun found : Match Tree => returnsWithin_throw hno (.noNumber text) found

/-- The block of the method of a rule returns what the rule has for the first node, if the methods
that are called return for its children what their rules have for these. -/
theorem returnsWithin_method (h : Runs g s) (hleaf : s.src.Tells leaf) {rule : Rule}
    (hr : rule ∈ g.rules) {method : Method} (hm : MethodOf rule method) {tree : Tree}
    (hP : P → g.Writable ∧ tree.Placed s.src)
    (hc : ∀ name, (g.resolve name).isSome → ∀ nodes, (∀ n ∈ nodes, n ∈ tree.children) →
      Calls g leaf P (call name) name nodes) (rest : List Tree) :
    ReturnsWithin P (method.block.meaning (s.hostCalling call) .empty (tree :: rest))
      ((g.ruleAnswer leaf rule tree).map fun v => (v, rest)) := by
  by_cases hl : rule.isLeaf
  · rw [hm.leaf hl, Host.leafMatcher]
    by_cases hf : rule.name.isFinite
    · rw [if_pos hf]
      apply returnsWithin_node
      rw [Grammar.ruleAnswer, if_pos hl]
      change ReturnsWithin P (if tree.kind.alike rule.name then _ else _) _
      split
      · exact returnsWithin_bind (returnsWithin_leaf hleaf fun hp => (hP hp).2)
          (returnsWithin_pure _)
      · exact returnsWithin_pure _
    · rw [if_neg hf]
      apply returnsWithin_throw
      exact fun hp => hf (((hP hp).1 rule hr).1 hl)
  · obtain ⟨children, hmeaning, hanswers⟩ := hm.node hl
    have hall := hanswers _ .empty (meets_callInterpretation h hleaf hr hP hc)
      tree.children.attach
    have hchildren : ReturnsWithin P
        (children.meaning (s.hostCalling call) .empty tree.children)
        ((complete (rule.body.results (g.reading leaf) tree.children)).map fun v => (v, [])) := by
      rw [← g.complete_childReading leaf tree rule.body]
      dsimp only [callInterpretation] at hall
      rw [List.attach_map_subtype_val, Match.place, Option.map_map] at hall
      exact hall
    rw [hmeaning, Host.nodeMatcher]
    apply returnsWithin_node
    rw [Grammar.ruleAnswer, if_neg hl]
    change ReturnsWithin P (if tree.kind.alike rule.name then _ else _) _
    split
    · apply returnsWithin_bind hchildren
      cases complete (rule.body.results (g.reading leaf) tree.children) <;>
        exact returnsWithin_pure _
    · exact returnsWithin_pure _

/-- Where no node is left, the method of a rule has no result. -/
theorem returnsWithin_method_nil {rule : Rule} (hr : rule ∈ g.rules) {method : Method}
    (hm : MethodOf rule method) (hP : P → g.Writable) :
    ReturnsWithin P (method.block.meaning (s.hostCalling call) .empty []) none := by
  by_cases hl : rule.isLeaf
  · rw [hm.leaf hl, Host.leafMatcher]
    by_cases hf : rule.name.isFinite
    · rw [if_pos hf]
      exact returnsWithin_pure _
    · rw [if_neg hf]
      apply returnsWithin_throw
      exact fun hp => hf ((hP hp rule hr).1 hl)
  · obtain ⟨children, hmeaning, -⟩ := hm.node hl
    rw [hmeaning, Host.nodeMatcher]
    exact returnsWithin_pure _

end

section
variable {g : Grammar} {s : Setting} {P : Prop} {leaf : Loc → Value} {rounds : Nat → Nat}

/-- A method that is called returns what its rule has for the first node, if more methods may be
running than that node is high. The induction is on how many may be running. -/
theorem calls_callWithin (h : Runs g s) (hleaf : s.src.Tells leaf)
    (hr : ∀ count, Matcher.loopRounds count ≤ rounds count) {depth : Nat} (hd : 0 < depth)
    (form : RestForm) {name : Label} (hn : (g.resolve name).isSome) {nodes : List Tree}
    (hh : ∀ tree ∈ nodes.head?, tree.height < depth)
    (hP : P → g.Writable ∧ ∀ tree ∈ nodes.head?, tree.Placed s.src) :
    Calls g leaf P (s.callWithin rounds depth form name) name nodes := by
  induction depth generalizing form name nodes with
  | zero => exact absurd hd (Nat.lt_irrefl 0)
  | succ depth ih =>
    obtain ⟨rule, hrule⟩ := Option.isSome_iff_exists.mp hn
    obtain ⟨method, hmethod, hm⟩ := h.exists_method hrule
    have hmem := Grammar.mem_of_resolve hrule
    have hanswer : ReturnsWithin P (method.block.meaningWithin rounds
        (s.hostCalling (s.callWithin rounds depth .tuple)) .empty nodes)
        (Match.first (g.answer leaf) name nodes) := by
      rw [Block.meaningWithin_eq hr]
      cases nodes with
      | nil => exact returnsWithin_method_nil hmem hm fun hp => (hP hp).1
      | cons tree rest =>
        have htree := hh tree rfl
        have hplaced := fun hp => And.intro (hP hp).1 ((hP hp).2 tree rfl)
        rw [Match.first, Match.ofFirst, Grammar.answer_eq, hrule, Option.bind_some]
        apply returnsWithin_method h hleaf hmem hm hplaced
        -- The children are lower than their node, so fewer methods suffice for them.
        intro other ho children hchildren
        have hlower : ∀ child ∈ children.head?, child.height < depth := by
          intro child hc
          have hlt := Tree.height_child_lt (hchildren child (List.mem_of_head? hc))
          omega
        have hpositive : 0 < depth := by
          have hpos : 0 < tree.height := by
            cases tree
            rw [Tree.height]
            exact Nat.succ_pos _
          omega
        exact ih hpositive .tuple ho hlower fun hp => ⟨(hP hp).1, fun child hc =>
          ((hP hp).2 tree rfl).child (hchildren child (List.mem_of_head? hc))⟩
    rw [Calls, Setting.callWithin, hmethod]
    dsimp only
    split
    · have henter : Returns P (enter name nodes) () :=
        returns_enter fun hp => Tree.shown_of_placed (hP hp).2
      apply returnsWithin_bind (returnsWithin_lift henter)
      apply returnsWithin_bind hanswer
      apply returnsWithin_bind (returnsWithin_lift (returns_leave _ _ _))
      exact returnsWithin_pure _
    · exact hanswer

/-- A run that returns a value and has no cause of a fault comes to that value. -/
theorem exists_run_of_returns {α : Type} {P : Prop} {x : Run α} {a : α} (h : Returns P x a)
    (hp : P) (journal : Journal) : ∃ journal', x.run journal = .ok (a, journal') := by
  have hreturns := h journal
  rcases hx : x.run journal with fault | ⟨found, journal'⟩
  · rw [hx] at hreturns
    exact absurd hp hreturns
  · rw [hx] at hreturns
    obtain rfl : found = a := hreturns
    exact ⟨journal', rfl⟩

/-- The value of a tree without extras, within bounds. -/
theorem returnsWithin_value (h : Runs g s) (hleaf : s.src.Tells leaf) {budget : Budget}
    (hr : ∀ count, Matcher.loopRounds count ≤ budget.rounds count) {root tree : Tree}
    (ht : root.stripped g.extras = some tree) (hd : root.height < budget.depth) :
    ReturnsWithin (g.Writable ∧ tree.Placed s.src) (s.valueWithin budget root)
      (g.answer leaf tree g.entrypoint) := by
  have hn := Grammar.resolve_isSome (Grammar.entrypoint_of_check h.check)
  have hheight := Tree.height_stripped ht
  have hcall : Calls g leaf (g.Writable ∧ tree.Placed s.src)
      (s.callWithin budget.rounds budget.depth .list g.entrypoint) g.entrypoint [tree] := by
    apply calls_callWithin h hleaf hr (by omega) .list hn
    · intro first hf
      cases hf
      omega
    · refine fun hp => ⟨hp.1, fun first hf => ?_⟩
      cases hf
      exact hp.2
  rw [Setting.valueWithin, h.module.extras, ht, h.module.entrypoint]
  apply returnsWithin_bind hcall
  dsimp only [Match.first, Match.ofFirst]
  cases g.answer leaf tree g.entrypoint <;> exact returnsWithin_pure _

end

end Parser

/-- A row and an offset counted from zero. -/
def Position.Natural (p : Position) : Prop :=
  ∃ row column : Nat, p = .at row column

theorem Source.exists_offset (src : Source) {p : Position} (h : p.Natural) :
    ∃ offset, src.offset p = .ok offset := by
  obtain ⟨row, column, rfl⟩ := h
  have hrow : ¬ (row : Int) < 0 := by omega
  rw [Source.offset_at, Source.rowOffset]
  simp only [if_neg hrow]
  split
  · exact ⟨_, rfl⟩
  · simp [columnOffset, Json.whole?]

theorem Source.exists_token (src : Source) {loc : Loc} (hs : loc.start.Natural)
    (hf : loc.finish.Natural) : ∃ token, src.token loc = .ok token := by
  obtain ⟨start, hstart⟩ := src.exists_offset hs
  obtain ⟨finish, hfinish⟩ := src.exists_offset hf
  rw [Source.token, hstart, hfinish]
  exact ⟨_, rfl⟩

namespace Tree

mutual

/-- The kinds of all nodes are texts, and their places are counted from zero. -/
def Regular : Tree → Prop
  | node kind loc children _ _ =>
    (∃ text, kind = .str text) ∧ loc.start.Natural ∧ loc.finish.Natural ∧ RegularAll children

def RegularAll : List Tree → Prop
  | [] => True
  | tree :: rest => Regular tree ∧ RegularAll rest

end

mutual

theorem Regular.placed (src : Source) : (tree : Tree) → tree.Regular → tree.Placed src
  | node _ _ children _ _, h => ⟨src.exists_token h.2.1 h.2.2.1, placedAll src children h.2.2.2⟩

theorem Regular.placedAll (src : Source) : (trees : List Tree) → RegularAll trees →
    PlacedAll src trees
  | [], _ => trivial
  | tree :: rest, h => ⟨placed src tree h.1, placedAll src rest h.2⟩

end

mutual

theorem Regular.withoutExtras (extras : List Label) : (tree : Tree) → tree.Regular →
    (tree.withoutExtras extras).Regular
  | node _ _ children _ _, h => by
    rw [Tree.withoutExtras]
    exact ⟨h.1, h.2.1, h.2.2.1, keepOthers extras children h.2.2.2⟩

theorem Regular.keepOthers (extras : List Label) : (trees : List Tree) → RegularAll trees →
    RegularAll (Tree.keepOthers extras trees)
  | [], _ => by
    rw [Tree.keepOthers]
    trivial
  | tree :: rest, h => by
    rw [Tree.keepOthers]
    split
    · exact keepOthers extras rest h.2
    · exact ⟨withoutExtras extras tree h.1, keepOthers extras rest h.2⟩

end

mutual

/-- Below a regular node all nodes are regular. -/
theorem Regular.of_mem_nodes : (tree : Tree) → tree.Regular → ∀ n ∈ tree.nodes, n.Regular
  | node _ _ children _ _, h => forall_mem_nodes.mpr ⟨h, RegularAll.of_mem_nodes children h.2.2.2⟩

theorem RegularAll.of_mem_nodes : (trees : List Tree) → RegularAll trees →
    ∀ tree ∈ trees, ∀ n ∈ tree.nodes, n.Regular
  | [], _ => List.forall_mem_nil _
  | tree :: rest, h =>
    List.forall_mem_cons.mpr ⟨Regular.of_mem_nodes tree h.1, RegularAll.of_mem_nodes rest h.2⟩

end

theorem Regular.isScalar_kind {tree : Tree} (h : tree.Regular) : tree.kind.isScalar := by
  obtain ⟨kind, loc, children, named, missing⟩ := tree
  obtain ⟨text, rfl⟩ := h.1
  rfl

theorem Regular.exists_token {tree : Tree} (h : tree.Regular) (src : Source) :
    ∃ token, src.token tree.loc = .ok token := by
  obtain ⟨kind, loc, children, named, missing⟩ := tree
  exact src.exists_token h.2.1 h.2.2.1

/-- The extras can be taken out of a regular tree, and it stays regular. -/
theorem Regular.exists_stripped {extras : List Label} (he : extras.all Json.isScalar)
    {root : Tree} (h : root.Regular) :
    ∃ tree, root.stripped extras = some tree ∧ tree.Regular := by
  have hkinds : ∀ n ∈ root.nodes, n.kind.isScalar := fun n hn =>
    (Regular.of_mem_nodes root h n hn).isScalar_kind
  exact ⟨_, stripped_of_isScalar he hkinds, h.withoutExtras extras⟩

/-- The syntax errors of regular trees can be listed. -/
theorem exists_faultsOf {src : Source} (stack : List Tree) (h : RegularAll stack) :
    ∃ faults, faultsOf src stack = .ok faults := by
  apply exists_faultsOf_of_token
  intro tree ht n hn _
  exact (RegularAll.of_mem_nodes stack h tree ht n hn).exists_token src

end Tree

/-- All names, tokens and extras of the grammar are texts. -/
structure Grammar.InText (g : Grammar) : Prop where
  names : ∀ rule ∈ g.rules, ∃ text, rule.name = .str text
  tokens : ∀ rule ∈ g.rules, ∀ token, .token token ∈ rule.body.needs → ∃ text, token = .str text
  extras : ∀ extra ∈ g.extras, ∃ text, extra = .str text

theorem Grammar.InText.writable {g : Grammar} (h : g.InText) : g.Writable := by
  refine fun rule hr => ⟨fun _ => ?_, fun token ht => ?_⟩
  · obtain ⟨text, htext⟩ := h.names rule hr
    rw [htext]
    rfl
  · obtain ⟨text, rfl⟩ := h.tokens rule hr token ht
    rfl

theorem Grammar.InText.extras_isScalar {g : Grammar} (h : g.InText) :
    g.extras.all Json.isScalar := by
  rw [List.all_eq_true]
  intro extra he
  obtain ⟨text, rfl⟩ := h.extras extra he
  rfl

theorem Code.check_of_build {g : Grammar} {b : Build} (h : build g = .ok b) : g.check = .ok () := by
  unfold build at h
  split at h
  · cases h
  · assumption

namespace Parser

open Code

/-- A parse with the module of a grammar ends, whatever its rules refer to: with a budget of more
methods at once than the tree is high, and of enough rounds for the slices of each loop, nothing is
left over. If the labels of the grammar and of the tree are texts and the places of its nodes are
counted from zero, it has an outcome, which is the value, no match or the syntax errors that the
parse without bounds ends with. -/
theorem parse_terminates {g : Grammar} {b : Build} (hb : build g = .ok b) {s : Setting}
    (hs : s.module = b.module) (root : Tree) {budget : Budget} (hd : root.height < budget.depth)
    (hr : ∀ count, Matcher.loopRounds count ≤ budget.rounds count) :
    parseWithin s budget root ≠ .ok none ∧
    (g.InText → root.Regular → ∃ outcome lines,
      parseWithin s budget root = .ok (some (outcome, lines)) ∧
      ∃ lines', parse s root = .ok (outcome, lines')) := by
  have hruns : Runs g s := ⟨check_of_build hb, hs ▸ moduleOf_of_build hb⟩
  have hleaf := s.src.tells_leafOr fun _ => .unit
  constructor
  · rw [parseWithin]
    split
    · exact fun h => nomatch h
    · exact fun h => nomatch h
    · intro h
      have hleft : ∀ journal, (s.valueWithin budget root).run.run Journal.empty ≠
          .ok (none, journal) := by
        intro journal hnone
        cases ht : root.stripped g.extras with
        | none =>
          rw [Setting.valueWithin, hruns.module.extras, ht] at hnone
          cases hnone
        | some tree =>
          have hvalue := returnsWithin_value hruns hleaf hr ht hd Journal.empty
          rw [hnone] at hvalue
          cases hvalue
      split at h
      · cases h
      · exact hleft _ ‹_›
      · cases h
      · cases h
  · intro hg hroot
    obtain ⟨faults, hfaults⟩ := Tree.exists_faultsOf [root] ⟨hroot, trivial⟩
    rw [parseWithin, parse, Tree.faults, hfaults]
    cases faults with
    | cons fault rest => exact ⟨_, _, rfl, _, rfl⟩
    | nil =>
      obtain ⟨tree, ht, htree⟩ := hroot.exists_stripped hg.extras_isScalar
      have hp : g.Writable ∧ tree.Placed s.src := ⟨hg.writable, htree.placed s.src⟩
      have hwithin := returnsWithin_value hruns hleaf hr ht hd
      obtain ⟨journal, hjournal⟩ := exists_run_of_returns hwithin hp Journal.empty
      obtain ⟨journal', hjournal'⟩ :=
        exists_run_of_returns (hruns.returns_value hleaf ht) hp Journal.empty
      rw [hjournal, hjournal']
      cases g.answer (s.src.leafOr fun _ => .unit) tree g.entrypoint with
      | none => exact ⟨_, _, rfl, _, rfl⟩
      | some v => exact ⟨_, _, rfl, _, rfl⟩

/-- A grammar whose rules start with themselves and with each other, and repeat nothing. -/
def cyclicGrammar : Grammar where
  entrypoint := "expr"
  rules := [⟨.str "expr", .choice [.seq [.symbol (.str "expr"), .symbol (.str "unit")],
      .star (.star .blank)]⟩,
    ⟨.str "unit", .plus (.choice [.symbol (.str "expr"), .symbol (.str "unit"), .blank])⟩]
  extras := []
  distinct := by decide

/-- A tree for it, of nodes without any text. -/
def cyclicTree : Tree :=
  let place : Loc := ⟨.at 0 0, .at 0 0⟩
  let expr : Tree := .node (.str "expr") place [] (.bool true) (.bool false)
  .node (.str "expr") place
    [expr, .node (.str "unit") place [expr] (.bool true) (.bool false)] (.bool true) (.bool false)

theorem cyclicGrammar_terminates : ∃ b, build cyclicGrammar = .ok b ∧
    ∃ outcome lines, parseWithin ⟨b.module, .ofText "", false⟩ ⟨4, Matcher.loopRounds⟩ cyclicTree =
      .ok (some (outcome, lines)) := by
  have hshort : ∀ rule ∈ cyclicGrammar.rules, rule.short.isSome := by decide
  obtain ⟨b, hb⟩ := exists_build (g := cyclicGrammar) rfl hshort
  let budget : Budget := ⟨4, Matcher.loopRounds⟩
  have hheight : cyclicTree.height < budget.depth := by decide
  have hnatural : (Position.at 0 0).Natural := ⟨0, 0, rfl⟩
  have hregular : cyclicTree.Regular := by
    simp [cyclicTree, Tree.Regular, Tree.RegularAll, hnatural]
  have htexts : cyclicGrammar.InText := by
    refine ⟨fun rule hr => ?_, fun rule hr token ht => ?_, fun extra he => by cases he⟩
    · rcases List.mem_cons.mp hr with rfl | hr
      · exact ⟨"expr", rfl⟩
      · exact ⟨"unit", by rw [List.mem_singleton.mp hr]⟩
    · simp only [cyclicGrammar, List.mem_cons, List.not_mem_nil, or_false] at hr
      rcases hr with rfl | rfl <;> simp [Body.needs, Body.needsOf] at ht
  let s : Setting := ⟨b.module, .ofText "", false⟩
  have hends := parse_terminates (s := s) hb rfl cyclicTree hheight fun _ => le_rfl
  obtain ⟨outcome, lines, hparse, -⟩ := hends.2 htexts hregular
  exact ⟨b, hb, outcome, lines, hparse⟩

end Parser

end TreeGrammar
