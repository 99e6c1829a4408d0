import TreeGrammar.Proofs.Looping
import TreeGrammar.Proofs.Repetition

/-!
Repetitions without a memory. Plain backtracking tries the ends of a slice in order and goes on
behind each slice that is an element; where no end has worked it tries the tail. It keeps no frames
and remembers no places, and so it comes to the same offset again and again. The search of a
repetition and the loop over frames answer what plain backtracking answers, as long as at most one
element is asked for: then no offset but the first one is ever come to with too few elements.
-/
namespace TreeGrammar

/-- Runs that return a value and do nothing else. -/
def Judgement.exactly (m : Type → Type) [Monad m] [LawfulMonad m] : Judgement m where
  returns x a := x = pure a
  returns_pure _ := rfl
  returns_bind hx hf := by rw [hx, pure_bind, hf]

namespace Matcher

variable {ν : Type}

/-- What plain backtracking finds: the values of elements, the value of the tail, and the nodes that
are left. -/
abbrev Trail (ν : Type) := List Value × Value × List ν

namespace Trail

/-- With one more element in front. -/
def cons (v : Value) : Trail ν → Trail ν
  | (vs, w, rest) => (v :: vs, w, rest)

/-- The match of a repetition. -/
def toMatch : Trail ν → Value × List ν
  | (vs, w, rest) => (.pair (.list vs) w, rest)

end Trail

/-- Plain backtracking from an offset, where there have been `count` elements before. -/
def backtrack (e t : List ν → Match ν) (least : Nat) (nodes : List ν) (start count : Nat) :
    Option (Trail ν) :=
  ((List.finRange (nodes.length - start)).findSome? fun ⟨i, _⟩ =>
    (usedUp (e (slice nodes start (start + 1 + i)))).bind fun v =>
      (backtrack e t least nodes (start + 1 + i) (count + 1)).map (Trail.cons v)).or
  (if least ≤ count then (t (nodes.drop start)).map fun (w, rest) => ([], w, rest) else none)
termination_by nodes.length - start

variable {e t : List ν → Match ν} {least : Nat}

/-- What the tail makes of a cut. -/
def trailOf (t : List ν → Match ν) (cut : List Value × List ν) : Option (Trail ν) :=
  (t cut.2).map fun (w, rest) => (cut.1, w, rest)

theorem map_toMatch_trailOf (t : List ν → Match ν) (cut : List Value × List ν) :
    (trailOf t cut).map Trail.toMatch = tailAfter [] t cut := by
  rw [trailOf, tailAfter, Option.map_map]
  rfl

theorem findSome?_trailOf_cons (v : Value) (cuts : List (List Value × List ν)) :
    (cuts.map (Prod.map (v :: ·) id)).findSome? (trailOf t) =
      (cuts.findSome? (trailOf t)).map (Trail.cons v) := by
  rw [List.findSome?_map, List.map_findSome?]
  congr 1
  funext cut
  simp only [Function.comp_apply, trailOf, Prod.map, id_eq, Option.map_map]
  rfl

theorem findSome?_flatMap {α β γ : Type} (p : β → Option γ) (f : α → List β) (l : List α) :
    (l.flatMap f).findSome? p = l.findSome? fun a => (f a).findSome? p := by
  simp only [← List.head?_filterMap, List.filterMap_flatMap, List.head?_flatMap]

/-- Plain backtracking takes the first cut that the tail matches after. Behind an element nothing
is missing any more. -/
theorem backtrack_eq_findSome? (hl : least ≤ 1) (nodes : List ν) (start count : Nat) :
    backtrack e t least nodes start count =
      (slices (fun slice => usedUp (e slice)) [] (nodes.drop start) ++
        if least ≤ count then [([], nodes.drop start)] else []).findSome? (trailOf t) := by
  -- By the nodes that are left. Behind an element there has been one, which is as many as are asked
  -- for, so the cut at its end counts for the search as it does for the slices.
  induction hleft : nodes.length - start using Nat.strongRecOn generalizing start count with
  | ind left ih =>
    rw [backtrack, slices_eq_flatMap, List.findSome?_append, findSome?_flatMap, List.length_drop,
      ← List.map_coe_finRange_eq_range, List.findSome?_map]
    congr 1
    · congr 1
      funext ⟨i, hi⟩
      have hslice : slice nodes start (start + 1 + i) = (nodes.drop start).take (i + 1) := by
        rw [slice]
        congr 1
        omega
      have hdrop : (nodes.drop start).drop (i + 1) = nodes.drop (start + 1 + i) := by
        rw [List.drop_drop]
        congr 1
        omega
      simp only [Function.comp_apply, List.nil_append, hslice, hdrop]
      cases usedUp (e ((nodes.drop start).take (i + 1))) with
      | none => rfl
      | some v =>
        have hmore := ih (nodes.length - (start + 1 + i)) (by omega) (start + 1 + i) (count + 1) rfl
        rw [if_pos (by omega)] at hmore
        rw [Option.toList_some, List.flatMap_singleton, findSome?_trailOf_cons, ← hmore]
        rfl
    · split
      · rw [List.findSome?_singleton]
        rfl
      · rfl

theorem map_toMatch_backtrack (hl : least ≤ 1) (nodes : List ν) :
    (backtrack e t least nodes 0 0).map Trail.toMatch = firstCut least e t nodes := by
  rw [backtrack_eq_findSome? hl, List.map_findSome?, firstCut, cuts, List.drop_zero]
  simp only [Nat.le_zero_eq]
  congr 1
  funext cut
  exact map_toMatch_trailOf t cut

section
variable {m : Type → Type} [Monad m] [LawfulMonad m]

theorem answers_exactly (f : List ν → Match ν) :
    (Judgement.exactly m).Answers id (fun nodes => pure (f nodes)) f := by
  intro nodes
  change pure (f (nodes.map id)) = pure ((f nodes).map (Prod.map id (List.map id)))
  rw [List.map_id, List.map_id_fun, Prod.map_id, Option.map_id, id]

/-- The search over matchers that do nothing but answer. -/
theorem repetition_pure (hl : least ≤ 1) (e t : List ν → Match ν) (nodes : List ν) :
    repetition least (fun nodes => pure (e nodes)) (fun nodes => pure (t nodes)) nodes =
      (pure (firstCut least e t nodes) : m (Match ν)) := by
  have hanswer := answers_repetition hl (answers_exactly (m := m) e) (answers_exactly t) nodes
  change repetition least _ _ (nodes.map id) =
    pure ((firstCut least e t nodes).map (Prod.map id (List.map id))) at hanswer
  rwa [List.map_id, List.map_id_fun, Prod.map_id, Option.map_id, id] at hanswer

/-- A repetition with a minimum of no element or one answers what plain backtracking finds from the
first offset, whatever part of its nodes the element and the tail use: it fails where that fails,
and otherwise it has the same values and leaves the same nodes. So does the loop over frames, within
rounds that are enough for it. -/
theorem repetition_eq_backtracking {rounds : Nat → Nat}
    (hr : ∀ count, loopRounds count ≤ rounds count) (hl : least ≤ 1) (e t : List ν → Match ν)
    (nodes : List ν) :
    repetition least (fun nodes => pure (e nodes)) (fun nodes => pure (t nodes)) nodes =
      (pure ((backtrack e t least nodes 0 0).map Trail.toMatch) : m (Match ν)) ∧
    repetitionWithin rounds least (fun nodes => pure (e nodes)) (fun nodes => pure (t nodes))
        nodes =
      (pure ((backtrack e t least nodes 0 0).map Trail.toMatch) : OptionT m (Match ν)) := by
  rw [repetitionWithin_eq hr, map_toMatch_backtrack hl]
  exact ⟨repetition_pure hl e t nodes, repetition_pure hl e t nodes⟩

end

/-- Uses up a one at the start. -/
def takeOne (v : Value) : List Nat → Match Nat
  | 1 :: rest => some (v, rest)
  | _ => none

/-- The element takes both ones, and gives the second one back to the tail. -/
theorem plus_gives_back :
    (∀ count, loopRounds count ≤ loopRounds count) ∧ 1 ≤ 1 ∧
    (backtrack (takeOne .unit) (takeOne (.list [])) 1 [1, 1, 2] 0 0).map Trail.toMatch =
      some (.pair (.list [.unit]) (.list []), [2]) ∧
    repetitionWithin loopRounds 1 (fun nodes => pure (takeOne .unit nodes))
        (fun nodes => pure (takeOne (.list []) nodes)) [1, 1, 2] =
      (pure (some (.pair (.list [.unit]) (.list []), [2])) : OptionT Id (Match Nat)) := by
  have hrounds : ∀ count, loopRounds count ≤ loopRounds count := fun _ => le_rfl
  have hleast : 1 ≤ 1 := le_rfl
  obtain ⟨hsearch, hloop⟩ := repetition_eq_backtracking (m := Id) hrounds hleast (takeOne .unit)
    (takeOne (.list [])) [1, 1, 2]
  have hfound : (backtrack (takeOne .unit) (takeOne (.list [])) 1 [1, 1, 2] 0 0).map Trail.toMatch =
      some (.pair (.list [.unit]) (.list []), [2]) := hsearch.symm
  exact ⟨hrounds, hleast, hfound, by rw [hloop, hfound]⟩

end Matcher

end TreeGrammar
