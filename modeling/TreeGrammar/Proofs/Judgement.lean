import Mathlib.Data.List.Basic
import TreeGrammar.Matcher.Basic

/-!
What runs return. A judgement says of runs of some kind that they return a certain value, and it
goes from the parts of a run to the whole. Judgements about matchers speak of the nodes that a
function `place` gives for others, such as trees.
-/
namespace TreeGrammar

/-- A way to say that a run returns a value. -/
structure Judgement (m : Type → Type) [Monad m] where
  returns : {α : Type} → m α → α → Prop
  returns_pure : ∀ {α : Type} (a : α), returns (pure a) a
  returns_bind : ∀ {α β : Type} {x : m α} {f : α → m β} {a : α} {b : β},
    returns x a → returns (f a) b → returns (x >>= f) b

/-- A match with other nodes left. -/
def Match.place {μ ν : Type} (f : μ → ν) (found : Match μ) : Match ν :=
  found.map (Prod.map id (List.map f))

/-- Reads the first of some nodes. -/
def Match.ofFirst {ν : Type} (check : ν → Option Value) : List ν → Match ν
  | [] => none
  | n :: rest => (check n).map fun v => (v, rest)

theorem Match.place_place {κ μ ν : Type} (f : κ → μ) (g : μ → ν) (found : Match κ) :
    (found.place f).place g = found.place (g ∘ f) := by
  rw [place, place, place, Option.map_map]
  congr 1
  funext r
  simp [Prod.map]

namespace Judgement

variable {m : Type → Type} [Monad m] {μ ν : Type} (J : Judgement m) (place : μ → ν)

/-- The matcher answers for placed nodes what the function says. -/
def Answers (matcher : Matcher m ν) (answer : List μ → Match μ) : Prop :=
  ∀ nodes, J.returns (matcher (nodes.map place)) ((answer nodes).place place)

variable {J place} {element tail : Matcher m ν} {e t : List μ → Match μ}

theorem answers_success : J.Answers place .success fun nodes => some (.unit, nodes) :=
  fun _ => J.returns_pure _

theorem answers_finish :
    J.Answers place .finish fun nodes => if nodes.isEmpty then some (.unit, []) else none
  | [] => J.returns_pure _
  | _ :: _ => J.returns_pure _

theorem answers_node {check : ν → m (Option Value)} {c : μ → Option Value}
    (h : ∀ n, J.returns (check (place n)) (c n)) :
    J.Answers place (.node check) (Match.ofFirst c)
  | [] => J.returns_pure _
  | n :: rest => by
    refine J.returns_bind (h n) ?_
    dsimp only [Match.ofFirst]
    rcases c n with _ | v
    · exact J.returns_pure _
    · exact J.returns_pure _

theorem answers_seq (he : J.Answers place element e) (ht : J.Answers place tail t) :
    J.Answers place (.seq element tail) fun nodes =>
      (e nodes).bind fun r => (t r.2).map (Prod.map (.pair r.1) id) := by
  intro nodes
  refine J.returns_bind (he nodes) ?_
  dsimp only
  rcases e nodes with _ | ⟨v, rest⟩
  · exact J.returns_pure _
  · refine J.returns_bind (ht rest) ?_
    dsimp only [Option.bind]
    rcases t rest with _ | ⟨w, left⟩
    · exact J.returns_pure _
    · exact J.returns_pure _

end Judgement

end TreeGrammar
