import TreeGrammar.Code.Continuation
import TreeGrammar.Grammar.Basic

/-!
Bodies compiled to code. A body is put in front of a continuation, so a sequence is compiled from
its last element to its first. What follows a choice is bound to a name once, and every alternative
ends with that name.
-/
namespace TreeGrammar.Code

def Term.ofExpr (e : Expr) : Term :=
  ⟨e, []⟩

/-- A matcher bound to a name, its definitions before it. -/
def Block.bindTerm (name : Local) (t : Term) (next : Block) : Block :=
  (Block.bind name t.expr next).after t.defs

/-- An alternative of a choice: its name and its statements. -/
abbrev Alternative := Local × Block

/-- The functions of the alternatives, which are then tried in turn. -/
def Block.alternatives (alternatives : List Alternative) : Except CodeError Block := do
  let tries ← firstOf (alternatives.map fun a => .ref a.1)
  pure (alternatives.foldr (fun a next => .define a.1 a.2 next) tries)

/-- The captured and kept counts of alternatives: those of the first one, which the others have to
agree with. -/
def agree (counts : Option (Int × Int)) (next : Continuation) : Gen (Int × Int) :=
  match counts with
  | none => pure (next.captured, next.kept)
  | some counts =>
    if counts = (next.captured, next.kept) then pure counts else throw .unevenCases

/-- A group of `count` elements in front of a continuation, their results taken together. -/
def group (wrap : Wrap) (count : Nat) (elements : Gen (Option Continuation)) :
    Gen Continuation := do
  if count = 0 then throw .emptyGroup
  match ← Continuation.flattenHead count (← elements) wrap with
  | some flat => pure flat
  | none => throw .emptyGroup

/-- What the alternatives of a choice come to: their functions and the counts of their results. -/
abbrev Cases := List Alternative × Option (Int × Int)

/-- A choice of `count` alternatives. What follows gets a name; `cases` compiles the alternatives,
given the number of the choice, in front of that name. -/
def choose (next : Option Continuation) (count : Nat) (cases : Nat → Continuation → Gen Cases) :
    Gen Continuation := do
  if count = 0 then throw .emptyGroup
  let next := next.getD .atEnd
  let id ← freshId
  let tail ← next.code.toTerm
  let (alternatives, counts) ← cases id (next.mapCode fun _ => .ofExpr (.ref (.tail id)))
  let tries ← Block.alternatives alternatives
  match counts with
  | some (captured, kept) => pure ⟨captured, kept, .block (.bindTerm (.tail id) tail tries)⟩
  | none => throw .emptyGroup

mutual

/-- A body in front of a continuation. -/
def compile (next : Option Continuation) : Body → Gen Continuation
  | .symbol name => Continuation.prependNext (.ofExpr (.rule name)) next
  | .literal text => Continuation.prependNext (.ofExpr (.leaf text)) next
  | .pattern text => Continuation.prependNext (.ofExpr (.leaf text)) next
  | .blank => Continuation.prependNext (.ofExpr .success) next
  | .star body => do
    let element ← (← Continuation.flatten (← compile none body) .plain).toTerm
    Continuation.prependWith .star element next
  | .plus body => do
    let element ← (← Continuation.flatten (← compile none body) .plain).toTerm
    Continuation.prependWith .plus element next
  | .choice bodies =>
    choose next bodies.length fun id shared => compileCases id 0 shared none bodies
  | .seq bodies => group .plain bodies.length (compileAll next bodies)

/-- Bodies in front of a continuation, the last one first. -/
def compileAll (next : Option Continuation) : List Body → Gen (Option Continuation)
  | [] => pure next
  | body :: rest => do pure (some (← compile (← compileAll next rest) body))

/-- The alternatives from the given index on. An alternative is a sequence whose tuple is marked
with the index. -/
def compileCases (id index : Nat) (next : Continuation) (counts : Option (Int × Int)) :
    List Body → Gen Cases
  | [] => pure ([], counts)
  | body :: rest => do
    let case ← match body with
      | .seq bodies => group (.case index) bodies.length (compileAll next bodies)
      | other => group (.case index) 1 (do pure (some (← compile next other)))
    let counts ← agree counts case
    let (others, counts) ← compileCases id (index + 1) next (some counts) rest
    pure ((.case id index, case.code.toBlock) :: others, counts)

end

/-- Bodies in front of a continuation, their results taken together to one tuple. -/
def compileGroup (wrap : Wrap) (next : Option Continuation) (bodies : List Body) :
    Gen Continuation :=
  group wrap bodies.length (compileAll next bodies)

/-- Bodies as the alternatives of a choice in front of a continuation. -/
def compileChoice (next : Option Continuation) (bodies : List Body) : Gen Continuation :=
  compile next (.choice bodies)

/-- A body as the alternative of the given index. -/
def compileCase (index : Int) (next : Option Continuation) (body : Body) : Gen Continuation :=
  compileGroup (.case index) next body.elements

/-- A sequence is compiled as a group. -/
theorem compile_seq (next : Option Continuation) (bodies : List Body) :
    compile next (.seq bodies) = compileGroup .plain next bodies := by
  rw [compile, compileGroup]

/-- The alternatives of a choice are compiled one by one, the first one first. -/
theorem compileCases_cons (id index : Nat) (next : Continuation) (counts : Option (Int × Int))
    (body : Body) (rest : List Body) :
    compileCases id index next counts (body :: rest) = (do
      let case ← compileCase index next body
      let counts ← agree counts case
      let (others, counts) ← compileCases id (index + 1) next (some counts) rest
      pure ((.case id index, case.code.toBlock) :: others, counts)) := by
  cases body <;> simp [compileCases, compileCase, compileGroup, compileAll, Body.elements]

end TreeGrammar.Code
