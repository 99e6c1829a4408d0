import TreeGrammar.Tree.Basic

/-!
Syntax errors of a tree: the nodes of kind `ERROR` and the missing nodes, in the order of the
source. Nothing below such a node is reported.
-/
namespace TreeGrammar

/-- A syntax error. -/
structure TreeFault where
  loc : Loc
  reason : String
  text : String
deriving DecidableEq

def TreeFault.short (f : TreeFault) : Option String := do
  pure ((← f.loc.short) ++ ": " ++ f.reason ++ ": " ++ Text.quoted f.text)

namespace Tree

/-- The kind of the nodes that hold unrecognised input. -/
def errorKind : Label := .str "ERROR"

theorem sizes_append (as bs : List Tree) : sizes (as ++ bs) = sizes as + sizes bs := by
  induction as with
  | nil => simp [sizes]
  | cons a as ih => simp [sizes, ih, Nat.add_assoc]

/-- The errors of a stack of trees that are still to be visited, the next one on top. -/
def faultsOf (src : Source) : List Tree → Except PlaceFault (List TreeFault)
  | [] => .ok []
  | node kind loc children _ missing :: stack =>
    if kind = errorKind then do
      let text ← src.token loc
      let rest ← faultsOf src stack
      pure (⟨loc, "unrecognized input", text⟩ :: rest)
    else if missing.isTrue then do
      let rest ← faultsOf src stack
      pure (⟨loc, "missing " ++ kind.shown, ""⟩ :: rest)
    else faultsOf src (children ++ stack)
termination_by stack => sizes stack
decreasing_by all_goals simp [sizes, size, sizes_append]; try omega

/-- The syntax errors of a tree. -/
def faults (src : Source) (root : Tree) : Except PlaceFault (List TreeFault) :=
  faultsOf src [root]

end Tree

/-- All syntax errors of a tree under the path of its source. -/
def faultReport (path : String) (faults : List TreeFault) : Option String := do
  let lines ← faults.mapM TreeFault.short
  pure ("\n".intercalate
    ((path ++ ": " ++ toString faults.length ++ " syntax error(s)") ::
      lines.map fun line => "  " ++ line))

end TreeGrammar
