import TreeGrammar.Grammar.OfJson

/-!
Inlining with a stack. The names of the rules that are being inlined are kept on a stack: a name is
put on it before the body of its rule is looked at and taken off afterwards, also if inlining fails
in that body. A name that is on the stack already cannot be inlined. How deep bodies are inlined in one
another is bounded, and a run that needs more comes to nothing.
-/
namespace TreeGrammar.Description

/-- Runs with a stack of names, of which they leave one behind also where they fail. -/
abbrev StackRun := ExceptT LoadError (StateT (List String) Option)

namespace StackRun

variable {α : Type}

/-- A run that comes to nothing. -/
def exhausted : StackRun α :=
  fun _ => none

/-- Runs with a name on the stack, which is taken off again however the run ends. -/
def holding (name : String) (run : StackRun α) : StackRun α := fun stack => do
  let (outcome, left) ← run (stack ++ [name])
  pure (outcome, left.dropLast)

end StackRun

/-- What rules are inlined with: the bodies, and the names of those to inline. -/
structure Expansion where
  bodies : Bodies
  inlined : List String

namespace Expansion

/-- The bodies of the rules to inline. -/
def hidden (x : Expansion) : Bodies :=
  x.bodies.filter fun entry => x.inlined.any fun name => entry.1.alike (.str name)

/-- What a reference to a name becomes, the body of its rule being inlined by `inner`. -/
def reference (x : Expansion) (inner : Body → StackRun Body) : Label → StackRun Body
  | .str name => do
    if name ∈ x.inlined then
      let stack ← get
      if name ∈ stack then throw (.grammar (.recursiveInlining (stack ++ [name])))
      else
        match x.bodies.find (.str name) with
        | some (_, body) => (inner body).holding name
        | none => throw (.missingMember name)
    else pure (.symbol (.str name))
  | label => if label.isScalar then pure (.symbol label) else throw (.shape .nameNotScalar)

/-- A body with rules inlined, while less than so many bodies are inlined in one another. -/
def inlineWithin (x : Expansion) : Nat → Body → StackRun Body
  | 0, _ => .exhausted
  | depth + 1, body => body.bindSymbols (x.reference (x.inlineWithin depth))

end Expansion

/-- What the rules of a draft are inlined with. -/
def Draft.expansion (draft : Draft) : Expansion where
  bodies := draft.bodies
  inlined := draft.bodies.filterMap fun entry =>
    match entry.1 with
    | .str name => if draft.isHidden (.str name) then some name else none
    | _ => none

end TreeGrammar.Description
