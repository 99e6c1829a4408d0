import TreeGrammar.Code.Identifier
import TreeGrammar.Code.Meaning
import TreeGrammar.Tree.Basic

/-!
The journal of a parse: a line when the method of a rule is entered and a line when it returns,
indented by how many methods are still running.
-/
namespace TreeGrammar.Parser

/-- How many methods are running, and the lines written so far, last one first. -/
structure Journal where
  depth : Nat
  lines : List String

def Journal.empty : Journal := ⟨0, []⟩

/-- The lines in the order they were written. -/
def Journal.written (j : Journal) : List String :=
  j.lines.reverse

/-- Runs of parsers keep a journal and may fail. -/
abbrev Run := StateT Journal (Except Code.RunFault)

/-- How the nodes that a method leaves are written: those of the root in brackets, others as a
tuple. -/
inductive RestForm where
  | list
  | tuple
deriving DecidableEq

def RestForm.text (form : RestForm) (rest : List Tree) : String :=
  match form with
  | list => "[" ++ ", ".intercalate (Tree.writtenList rest) ++ "]"
  | tuple => Value.tupleText (Tree.writtenList rest)

def answerText (form : RestForm) : Match Tree → String
  | none => "None"
  | some (v, rest) => "(" ++ v.written ++ ", " ++ form.text rest ++ ")"

/-- The greatest length of a result in the journal. -/
def answerWidth : Nat := 200

/-- The blanks in front of a line. -/
def Journal.margin (j : Journal) : String :=
  String.ofList (List.replicate (2 * j.depth) ' ')

/-- Enters a method. -/
def enter (rule : Label) (nodes : List Tree) : Run Unit :=
  match Tree.shown nodes with
  | none => throw .noRow
  | some shown => modify fun j =>
    ⟨j.depth + 1,
      (j.margin ++ Code.methodId rule ++ "() .... (looking at " ++ shown ++ ")") :: j.lines⟩

/-- Leaves a method. -/
def leave (rule : Label) (form : RestForm) (answer : Match Tree) : Run Unit :=
  modify fun j =>
    let outer : Journal := ⟨j.depth - 1, j.lines⟩
    let text := String.ofList ((answerText form answer).toList.take answerWidth)
    ⟨outer.depth, (outer.margin ++ "... " ++ Code.methodId rule ++ "() --> " ++ text) :: j.lines⟩

end TreeGrammar.Parser
