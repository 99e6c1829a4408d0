import TreeGrammar.Value.Basic

/-!
Matchers of sibling nodes. A matcher fails or returns a value together with the nodes that it has
not used. Sequences return nested pairs. What a matcher does besides is left to a monad.
-/
namespace TreeGrammar

/-- What a matcher answers: nothing, or a value and the nodes that are left. -/
abbrev Match (ν : Type) := Option (Value × List ν)

/-- A matcher of sibling nodes. -/
abbrev Matcher (m : Type → Type) (ν : Type) := List ν → m (Match ν)

namespace Matcher

variable {m : Type → Type} [Monad m] {ν : Type}

/-- Matches the first node if `check` has a value for it. -/
def node (check : ν → m (Option Value)) : Matcher m ν
  | [] => pure none
  | n :: rest => do
    match ← check n with
    | some v => pure (some (v, rest))
    | none => pure none

/-- Matches without using a node. -/
def success : Matcher m ν :=
  fun nodes => pure (some (.unit, nodes))

/-- Matches where no node is left. -/
def finish : Matcher m ν
  | [] => pure (some (.unit, []))
  | _ :: _ => pure none

/-- One matcher, then another one on the nodes that are left. -/
def seq (element tail : Matcher m ν) : Matcher m ν := fun nodes => do
  match ← element nodes with
  | none => pure none
  | some (v, rest) =>
    match ← tail rest with
    | none => pure none
    | some (w, rest) => pure (some (.pair v w, rest))

def mapValue (f : Value → Value) (matcher : Matcher m ν) : Matcher m ν := fun nodes => do
  match ← matcher nodes with
  | some (v, rest) => pure (some (f v, rest))
  | none => pure none

/-- Runs a matcher on a whole tree, of which nothing may be left. -/
def onRoot (matcher : Matcher m ν) (root : ν) : m (Option Value) := do
  match ← matcher [root] with
  | some (v, []) => pure (some v)
  | _ => pure none

end Matcher

end TreeGrammar
