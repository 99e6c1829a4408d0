import Mathlib.Data.List.Basic
import TreeGrammar.Grammar.Body
import TreeGrammar.Matcher.Basic

/-!
The results of a body for some sibling nodes: values paired with the nodes that are left, listed in
the order of a depth-first search. The results of a symbol, and what is read off a leaf, are a
reading of the nodes.
-/
namespace TreeGrammar

variable {ν : Type}

/-- How nodes are read: their kinds, what leaves stand for, and the results of symbols. -/
@[ext]
structure Reading (ν : Type) where
  kind : ν → Label
  leaf : ν → Value
  call : Label → List ν → List (Value × List ν)

/-- The value of a sequence: a tuple, or the bare value of a single element. -/
def Value.tupled : List Value → Value
  | [v] => v
  | vs => .tuple vs

/-- The value of the first result that leaves no node. -/
def complete (results : List (Value × List ν)) : Option Value :=
  results.findSome? fun r => if r.2.isEmpty then some r.1 else none

/-- The ways to cut nodes into one or more slices, each of which `element` has a value for, and the
nodes that are left. Shorter slices come first, and further slices before none. The first slice
starts with the nodes `front`, and `back` are the nodes after them. -/
def slices (element : List ν → Option Value) : (front back : List ν) → List (List Value × List ν)
  | _, [] => []
  | front, n :: back =>
    (element (front ++ [n])).toList.flatMap (fun v =>
      (slices element [] back ++ [([], back)]).map (Prod.map (v :: ·) id)) ++
    slices element (front ++ [n]) back

/-- A leaf of a kind at the start of the nodes. -/
def Reading.leafOf (read : Reading ν) (kind : Label) : List ν → Match ν
  | [] => none
  | n :: rest => if (read.kind n).alike kind then some (read.leaf n, rest) else none

namespace Body

mutual

/-- The results of a body in the order of a search. A repetition prefers short elements and
further elements to none, and every element uses up its slice. -/
def results (read : Reading ν) : Body → List ν → List (Value × List ν)
  | symbol name, nodes => read.call name nodes
  | literal text, nodes => (read.leafOf text nodes).toList
  | pattern text, nodes => (read.leafOf text nodes).toList
  | blank, nodes => [(.unit, nodes)]
  | star body, nodes =>
    (slices (fun slice => complete (results read body slice)) [] nodes ++ [([], nodes)]).map
      (Prod.map .list id)
  | plus body, nodes =>
    (slices (fun slice => complete (results read body slice)) [] nodes).map
      (Prod.map .list id)
  | choice bodies, nodes => resultsOfCases read 0 bodies nodes
  | seq bodies, nodes => (resultsOfAll read bodies nodes).map (Prod.map .tupled id)

def resultsOfAll (read : Reading ν) : List Body → List ν → List (List Value × List ν)
  | [], nodes => [([], nodes)]
  | body :: rest, nodes =>
    (results read body nodes).flatMap fun r =>
      (resultsOfAll read rest r.2).map (Prod.map (r.1 :: ·) id)

/-- The results of alternatives, the first of which has the given index. -/
def resultsOfCases (read : Reading ν) (index : Nat) :
    List Body → List ν → List (Value × List ν)
  | [], _ => []
  | body :: rest, nodes =>
    (results read body nodes).map (Prod.map (.case index) id) ++
      resultsOfCases read (index + 1) rest nodes

end

end Body

theorem slices_eq_flatMap (element : List ν → Option Value) (front back : List ν) :
    slices element front back = (List.range back.length).flatMap fun i =>
      (element (front ++ back.take (i + 1))).toList.flatMap fun v =>
        (slices element [] (back.drop (i + 1)) ++ [([], back.drop (i + 1))]).map
          (Prod.map (v :: ·) id) := by
  induction back generalizing front with
  | nil => rfl
  | cons n back ih =>
    have hrest := ih (front ++ [n])
    simp only [List.append_assoc, List.singleton_append] at hrest
    rw [slices, hrest, List.length_cons, List.range_succ_eq_map, List.flatMap_cons,
      List.flatMap_map]
    simp only [Nat.zero_add, List.take_succ_cons, List.take_zero, List.drop_succ_cons,
      List.drop_zero]

namespace Body

/-- The values of a repetition with one more element in front. -/
def consed (v : Value) : Value × List ν → Value × List ν
  | (.list vs, rest) => (.list (v :: vs), rest)
  | r => r

/-- Some nodes are cut into elements by an element for the first one, two, three … of them and all
results for the others; when all that is done, there is the result without elements. -/
theorem results_star (read : Reading ν) (body : Body) (nodes : List ν) :
    (star body).results read nodes =
      ((List.range nodes.length).flatMap fun i =>
        (complete (body.results read (nodes.take (i + 1)))).toList.flatMap fun v =>
          ((star body).results read (nodes.drop (i + 1))).map (consed v)) ++
        [(.list [], nodes)] := by
  let element slice := complete (body.results read slice)
  have hstar (nodes : List ν) : (star body).results read nodes =
      (slices element [] nodes ++ [([], nodes)]).map (Prod.map .list id) := by
    rw [results]
  have hmore (v : Value) (left : List ν) :
      ((star body).results read left).map (consed v) =
      ((slices element [] left ++ [([], left)]).map (Prod.map (v :: ·) id)).map
        (Prod.map .list id) := by
    rw [hstar, List.map_map, List.map_map]
    rfl
  -- What follows the first element is again the repetition of the element.
  simp only [hmore]
  rw [hstar, List.map_append, slices_eq_flatMap, List.map_flatMap]
  simp only [List.map_flatMap]
  rfl

theorem resultsOfAll_elements (read : Reading ν) (body : Body) (nodes : List ν) :
    (resultsOfAll read body.elements nodes).map (Prod.map .tupled id) =
      body.results read nodes := by
  have hone : (resultsOfAll read [body] nodes).map (Prod.map .tupled id) =
      body.results read nodes := by
    have hbare (r : Value × List ν) : ((resultsOfAll read [] r.2).map
        (Prod.map (r.1 :: ·) id)).map (Prod.map Value.tupled id) = [r] := by
      rw [resultsOfAll]
      rfl
    rw [resultsOfAll, List.map_flatMap]
    simp only [hbare]
    exact List.flatMap_singleton' _
  cases body with
  | seq bodies =>
    rw [results]
    rfl
  | _ => exact hone

theorem length_of_mem_resultsOfAll {read : Reading ν} {bodies : List Body} {nodes : List ν}
    {r : List Value × List ν} (h : r ∈ resultsOfAll read bodies nodes) :
    r.1.length = bodies.length := by
  induction bodies generalizing nodes r with
  | nil =>
    rw [resultsOfAll, List.mem_singleton] at h
    rw [h]
    rfl
  | cons body rest ih =>
    rw [resultsOfAll, List.mem_flatMap] at h
    obtain ⟨first, _, hr⟩ := h
    obtain ⟨others, ho, rfl⟩ := List.mem_map.mp hr
    exact congrArg (· + 1) (ih ho)

end Body

end TreeGrammar
