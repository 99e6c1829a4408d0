import TreeGrammar.Code.Identifier
import TreeGrammar.Grammar.Basic
import TreeGrammar.Proofs.Judgement
import TreeGrammar.Proofs.Results
import TreeGrammar.Tree.Basic

/-!
What the rules of a grammar make of a tree. A rule has a value for a node of its kind if its body
has a complete result for the children, and a leaf rule has one for every such node. This says what
a parse is to return without any code.
-/
namespace TreeGrammar

section
variable {μ ν : Type}

/-- Nodes are read as the nodes that `f` gives for them. -/
structure Reading.Along (f : μ → ν) (a : Reading μ) (b : Reading ν) : Prop where
  kind : ∀ n, b.kind (f n) = a.kind n
  leaf : ∀ n, b.leaf (f n) = a.leaf n
  call : ∀ name nodes,
    b.call name (nodes.map f) = (a.call name nodes).map (Prod.map id (List.map f))

variable {f : μ → ν} {a : Reading μ} {b : Reading ν}

theorem Reading.Along.leafOf (h : Reading.Along f a b) (text : Label) (nodes : List μ) :
    b.leafOf text (nodes.map f) = (a.leafOf text nodes).place f := by
  cases nodes with
  | nil => rfl
  | cons n rest =>
    rw [List.map_cons, Reading.leafOf, Reading.leafOf, h.kind, h.leaf]
    split <;> rfl

theorem complete_map (results : List (Value × List μ)) :
    complete (results.map (Prod.map id (List.map f))) = complete results := by
  rw [complete, complete, List.findSome?_map]
  congr 1
  funext r
  simp

theorem slices_map (element : List μ → Option Value) (element' : List ν → Option Value)
    (h : ∀ slice, element' (slice.map f) = element slice) (front back : List μ) :
    slices element' (front.map f) (back.map f) =
      (slices element front back).map (Prod.map id (List.map f)) := by
  induction back generalizing front with
  | nil => rfl
  | cons n back ih =>
    have hlonger := ih (front ++ [n])
    have hnext := ih []
    have hslice := h (front ++ [n])
    rw [List.map_append, List.map_singleton] at hlonger hslice
    rw [List.map_nil] at hnext
    rw [List.map_cons, slices, slices, hlonger, hslice, hnext, List.map_append, List.map_flatMap]
    congr 2
    funext v
    simp

theorem toList_place (found : Match μ) :
    Option.toList (found.place f) = (Option.toList found).map (Prod.map id (List.map f)) := by
  cases found <;> rfl

namespace Body

theorem map_map_left {α β : Type} (g : α → β) (l : List (α × List μ)) :
    (l.map (Prod.map id (List.map f))).map (Prod.map g id) =
      (l.map (Prod.map g id)).map (Prod.map id (List.map f)) := by
  rw [List.map_map, List.map_map]
  rfl

mutual

/-- Results depend on nothing but how nodes are read. -/
theorem results_map (h : Reading.Along f a b) : (body : Body) → (nodes : List μ) →
    body.results b (nodes.map f) = (body.results a nodes).map (Prod.map id (List.map f))
  | symbol name, nodes => by rw [results, results, h.call]
  | literal text, nodes | pattern text, nodes => by
    rw [results, results, h.leafOf, toList_place]
  | blank, nodes => by rw [results, results]; rfl
  | star body, nodes => by
    have hslices := slices_map (fun slice => complete (body.results a slice))
      (fun slice => complete (body.results b slice))
      (fun slice => by rw [results_map h body, complete_map]) [] nodes
    rw [List.map_nil] at hslices
    have hcuts : slices (fun slice => complete (body.results b slice)) [] (nodes.map f) ++
          [([], nodes.map f)] =
        (slices (fun slice => complete (body.results a slice)) [] nodes ++ [([], nodes)]).map
          (Prod.map id (List.map f)) := by
      rw [hslices, List.map_append]
      rfl
    rw [results, results, hcuts, map_map_left]
  | plus body, nodes => by
    have hslices := slices_map (fun slice => complete (body.results a slice))
      (fun slice => complete (body.results b slice))
      (fun slice => by rw [results_map h body, complete_map]) [] nodes
    rw [List.map_nil] at hslices
    rw [results, results, hslices, map_map_left]
  | choice bodies, nodes => by rw [results, results, resultsOfCases_map h 0 bodies]
  | seq bodies, nodes => by rw [results, results, resultsOfAll_map h bodies, map_map_left]

theorem resultsOfAll_map (h : Reading.Along f a b) : (bodies : List Body) → (nodes : List μ) →
    resultsOfAll b bodies (nodes.map f) =
      (resultsOfAll a bodies nodes).map (Prod.map id (List.map f))
  | [], nodes => by rw [resultsOfAll, resultsOfAll]; rfl
  | body :: rest, nodes => by
    rw [resultsOfAll, resultsOfAll, results_map h body, List.flatMap_map, List.map_flatMap]
    congr 1
    funext r
    rw [← map_map_left]
    exact congrArg _ (resultsOfAll_map h rest r.2)

theorem resultsOfCases_map (h : Reading.Along f a b) (index : Nat) :
    (bodies : List Body) → (nodes : List μ) → resultsOfCases b index bodies (nodes.map f) =
      (resultsOfCases a index bodies nodes).map (Prod.map id (List.map f))
  | [], nodes => by rw [resultsOfCases, resultsOfCases]; rfl
  | body :: rest, nodes => by
    rw [resultsOfCases, resultsOfCases, results_map h body, resultsOfCases_map h _ rest,
      map_map_left, List.map_append]

end

end Body

end

/-- The values of leaves tell place and text wherever a place has a text in the source. -/
def Source.Tells (src : Source) (leaf : Loc → Value) : Prop :=
  ∀ loc token, src.token loc = .ok token → leaf loc = .leaf loc token

/-- The value of a leaf. A leaf without a text has some other value. -/
def Source.leafOr (src : Source) (other : Loc → Value) (loc : Loc) : Value :=
  match src.token loc with
  | .ok token => .leaf loc token
  | .error _ => other loc

theorem Source.tells_leafOr (src : Source) (other : Loc → Value) :
    src.Tells (src.leafOr other) := by
  intro loc token h
  rw [leafOr, h]

section
variable {μ ν : Type}

/-- Reads the first node by what the rules have for it. -/
def Match.first (answer : ν → Label → Option Value) (name : Label) : List ν → Match ν :=
  ofFirst fun n => answer n name

theorem Match.first_map {answer : μ → Label → Option Value} {answer' : ν → Label → Option Value}
    {f : μ → ν} (h : ∀ n name, answer' (f n) name = answer n name) (name : Label)
    (nodes : List μ) : first answer' name (nodes.map f) = (first answer name nodes).place f := by
  cases nodes with
  | nil => rfl
  | cons n rest =>
    rw [List.map_cons, first, first, ofFirst, ofFirst, h, place, Option.map_map]
    rfl

end

namespace Grammar

/-- The rule that a name leads to. Of rules whose methods go by one name the last one counts. -/
def resolve (g : Grammar) (name : Label) : Option Rule :=
  g.rules.reverse.find? fun rule => Code.methodId rule.name == Code.methodId name

/-- A tree with what the rules have for it. -/
abbrev Answered := Tree × (Label → Option Value)

/-- Reads trees by what the rules have for them. -/
def answeredReading (leaf : Loc → Value) : Reading Answered where
  kind n := n.1.kind
  leaf n := leaf n.1.loc
  call name nodes := (Match.first Prod.snd name nodes).toList

mutual

/-- What the rule of a name has for a tree. -/
def answer (g : Grammar) (leaf : Loc → Value) : Tree → Label → Option Value
  | .node kind loc children _ _, name => do
    let rule ← g.resolve name
    if kind.alike rule.name then
      if rule.isLeaf then some (leaf loc)
      else complete (rule.body.results (answeredReading leaf) (answerAll g leaf children))
    else none

def answerAll (g : Grammar) (leaf : Loc → Value) : List Tree → List Answered
  | [] => []
  | tree :: rest => (tree, answer g leaf tree) :: answerAll g leaf rest

end

/-- Reads trees by the rules of a grammar. -/
def reading (g : Grammar) (leaf : Loc → Value) : Reading Tree where
  kind := Tree.kind
  leaf n := leaf n.loc
  call name nodes := (Match.first (g.answer leaf) name nodes).toList

variable (g : Grammar) (leaf : Loc → Value)

theorem answerAll_eq_map (trees : List Tree) :
    g.answerAll leaf trees = trees.map fun tree => (tree, g.answer leaf tree) := by
  induction trees with
  | nil => rw [answerAll, List.map_nil]
  | cons tree rest ih => rw [answerAll, List.map_cons, ih]

/-- What a rule has for a node of its kind. -/
def ruleAnswer (rule : Rule) (tree : Tree) : Option Value :=
  if tree.kind.alike rule.name then
    if rule.isLeaf then some (leaf tree.loc)
    else complete (rule.body.results (g.reading leaf) tree.children)
  else none

theorem answer_eq (tree : Tree) (name : Label) :
    g.answer leaf tree name = (g.resolve name).bind fun rule => g.ruleAnswer leaf rule tree := by
  have halong : Reading.Along (fun tree => (tree, g.answer leaf tree)) (g.reading leaf)
      (answeredReading leaf) := by
    refine ⟨fun _ => rfl, fun _ => rfl, fun name nodes => ?_⟩
    dsimp only [answeredReading, reading]
    rw [← toList_place]
    exact congrArg Option.toList (Match.first_map (fun _ _ => rfl) name nodes)
  obtain ⟨kind, loc, children, named, missing⟩ := tree
  rw [answer]
  simp only [answerAll_eq_map, Body.results_map halong, complete_map]
  rfl

/-- The children of a tree, read by the rules of a grammar. -/
def childReading (tree : Tree) : Reading { child // child ∈ tree.children } where
  kind child := child.1.kind
  leaf child := leaf child.1.loc
  call name nodes := (Match.first (fun child => g.answer leaf child.1) name nodes).toList

theorem childReading_along (tree : Tree) :
    Reading.Along Subtype.val (g.childReading leaf tree) (g.reading leaf) := by
  refine ⟨fun _ => rfl, fun _ => rfl, fun name nodes => ?_⟩
  dsimp only [childReading, reading]
  rw [← toList_place]
  exact congrArg Option.toList (Match.first_map (fun _ _ => rfl) name nodes)

theorem complete_childReading (tree : Tree) (body : Body) :
    complete (body.results (g.childReading leaf tree) tree.children.attach) =
      complete (body.results (g.reading leaf) tree.children) := by
  have halong := g.childReading_along leaf tree
  calc complete (body.results (g.childReading leaf tree) tree.children.attach)
      = complete ((body.results (g.childReading leaf tree) tree.children.attach).map
          (Prod.map id (List.map Subtype.val))) := (complete_map _).symm
    _ = complete (body.results (g.reading leaf) (tree.children.attach.map Subtype.val)) := by
      rw [Body.results_map halong]
    _ = complete (body.results (g.reading leaf) tree.children) := by
      rw [List.attach_map_subtype_val]

end Grammar

end TreeGrammar
