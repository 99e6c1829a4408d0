import TreeGrammar.Parser.Basic
import TreeGrammar.Proofs.Judgement

/-!
What runs return. Runs differ in their journals, but what they return does not depend on the
journal, and where a run has a fault there is a cause outside of it: `P` says that there is none.
-/
namespace TreeGrammar

mutual

/-- All nodes of a tree have a place in the source. -/
def Tree.Placed (src : Source) : Tree → Prop
  | node _ loc children _ _ => (∃ token, src.token loc = .ok token) ∧ PlacedAll src children

def Tree.PlacedAll (src : Source) : List Tree → Prop
  | [] => True
  | tree :: rest => Placed src tree ∧ PlacedAll src rest

end

theorem Tree.Placed.token {src : Source} {tree : Tree} (h : tree.Placed src) :
    ∃ token, src.token tree.loc = .ok token := by
  cases tree
  exact h.1

theorem Tree.PlacedAll.of_mem {src : Source} {trees : List Tree} (h : PlacedAll src trees)
    {tree : Tree} (ht : tree ∈ trees) : tree.Placed src := by
  induction trees with
  | nil => cases ht
  | cons first rest ih =>
    rcases List.mem_cons.mp ht with rfl | ht
    · exact h.1
    · exact ih h.2 ht

theorem Tree.Placed.child {src : Source} {tree child : Tree} (h : tree.Placed src)
    (hc : child ∈ tree.children) : child.Placed src := by
  cases tree
  exact h.2.of_mem hc

theorem Source.short_of_offset {src : Source} {p : Position} {offset : Int}
    (h : src.offset p = .ok offset) : p.short.isSome := by
  have hrow : (p.row.atLeast src.rowStarts.length).isSome := by
    by_contra hn
    rw [Option.not_isSome_iff_eq_none] at hn
    rw [Source.offset, hn] at h
    cases h
  have hplus : (p.row.plus 1).isSome := by
    generalize p.row = row at hrow ⊢
    cases row with
    | real x =>
      cases hs : x.toSigned <;> simp [Json.plus, hs]
    | null | str | arr | obj => cases hrow
    | _ => rfl
  obtain ⟨row, hr⟩ := Option.isSome_iff_exists.mp hplus
  rw [Position.short, hr]
  rfl

/-- The first of some nodes can be shown if it has a place in the source. -/
theorem Tree.shown_of_placed {src : Source} {trees : List Tree}
    (h : ∀ tree ∈ trees.head?, tree.Placed src) : (Tree.shown trees).isSome := by
  cases trees with
  | nil => rfl
  | cons tree rest =>
    obtain ⟨token, ht⟩ := (h tree rfl).token
    rcases ho : src.offset tree.loc.start with fault | offset
    · rw [Source.token, ho] at ht
      cases ht
    · obtain ⟨text, hs⟩ := Option.isSome_iff_exists.mp (Source.short_of_offset ho)
      rw [Tree.shown, hs]
      rfl

namespace Parser

open Code

variable {α β : Type} {P : Prop}

/-- The run returns `a`, whatever the journal is; it has a fault only if `P` fails. -/
def Returns (P : Prop) (x : Run α) (a : α) : Prop :=
  ∀ journal, match x.run journal with
    | .ok (b, _) => b = a
    | .error _ => ¬ P

theorem returns_pure (a : α) : Returns P (pure a) a := fun _ => rfl

theorem returns_bind {x : Run α} {f : α → Run β} {a : α} {b : β} (hx : Returns P x a)
    (hf : Returns P (f a) b) : Returns P (x >>= f) b := by
  intro journal
  have hfirst := hx journal
  rw [StateT.run_bind]
  rcases hr : x.run journal with fault | ⟨a', journal'⟩
  · rw [hr] at hfirst
    exact hfirst
  · rw [hr] at hfirst
    obtain rfl : a' = a := hfirst
    exact hf journal'

theorem returns_throw (h : ¬ P) (fault : RunFault) (a : α) : Returns P (throw fault) a :=
  fun _ => h

theorem Returns.mono {P' : Prop} {x : Run α} {a : α} (h : Returns P' x a) (hP : P → P') :
    Returns P x a := by
  intro journal
  have hr := h journal
  split <;> rename_i heq
  · rw [heq] at hr
    exact hr
  · rw [heq] at hr
    exact fun hp => hr (hP hp)

/-- What is returned by runs that have no fault without a cause. -/
def judgement (P : Prop) : Judgement Run :=
  ⟨Returns P, returns_pure, returns_bind⟩

theorem returns_enter {rule : Label} {nodes : List Tree} (h : P → (Tree.shown nodes).isSome) :
    Returns P (enter rule nodes) () := by
  unfold enter
  split <;> rename_i hs
  · apply returns_throw
    intro hp
    have hshown := h hp
    rw [hs] at hshown
    cases hshown
  · exact fun _ => rfl

theorem returns_leave (rule : Label) (form : RestForm) (answer : Match Tree) :
    Returns P (leave rule form answer) () :=
  fun _ => rfl

end Parser

end TreeGrammar
