import TreeGrammar.Code.Method

/-!
Grammars compiled to modules. A module has a method for each rule of the grammar, in order, and
starts at the entrypoint.
-/
namespace TreeGrammar.Code

/-- A compiled grammar. -/
structure Module where
  entrypoint : String
  extras : List Label
  methods : List Method

/-- Why a grammar is not compiled. -/
inductive BuildError where
  | grammar (error : GrammarError)
  | code (error : CodeError)

/-- Why a module cannot be loaded. -/
inductive ModuleFault where
  /-- Code holds no NUL. -/
  | nul
  /-- An extra is a number that is not finite, which has no form in code. -/
  | notFinite

def ModuleFault.message : ModuleFault → String
  | .nul => "A rule holds a NUL"
  | .notFinite => "An extra is a number that is not finite"

/-- The module of a grammar, whether it has faults or not. -/
def compileGrammar (g : Grammar) : Gen Module := do
  pure ⟨g.entrypoint, g.extras, ← g.rules.mapM compileRule⟩

/-- A compiled grammar and how many names it took. -/
structure Build where
  module : Module
  names : Nat

/-- Checks a grammar and compiles it. -/
def build (g : Grammar) : Except BuildError Build :=
  match g.check with
  | .error e => .error (.grammar e)
  | .ok () =>
    match (compileGrammar g).run.run 0 with
    | (.error e, _) => .error (.code e)
    | (.ok module, names) => .ok ⟨module, names⟩

namespace Module

/-- The first lines, which say what the module was made from. A file name that holds line breaks
takes several lines. -/
def header (fileName : String) : List String :=
  Text.linesOf ("# @generated by cstgen from " ++ fileName ++ "; do not edit!") ++
    ["",
      "from cstgen import combine",
      "from cstgen.runtime import get_loc, logger, simple_parser_main, TreeParser",
      "",
      "",
      "class GeneratedParser(TreeParser):"]

/-- The matchers of nodes by their kind. -/
def nodeMatchers : List Piece :=
  [.line "def _parse_rule(self, type, parse_children):",
    .block
      [.line "def check(node):",
        .block
          [.line "if node.type != type:",
            .block [.line "return None"],
            .line "res = parse_children(node.children)",
            .line "if res is None:",
            .block [.line "return None"],
            .line "value, _ = res",
            .line "return value"],
        .line "return combine.parse_node(check)"],
    .space,
    .line "# Childless rule, from which we extract location and token.",
    .line "def _parse_leaf_rule(self, type):",
    .block
      [.line "def check(node):",
        .block
          [.line "if node.type != type:",
            .block [.line "return None"],
            .line "return get_loc(node), self.get_token(node)"],
        .line "return combine.parse_node(check)"]]

def methodPieces (methods : List Method) : List Piece :=
  methods.flatMap fun method => [.space, .splice method.pieces]

/-- The last lines, which make the module a program. -/
def footer : List Piece :=
  [.space,
    .space,
    .line "if __name__ == '__main__':",
    .block [.line "simple_parser_main(GeneratedParser)"]]

def pieces (module : Module) (fileName : String) : List Piece :=
  [.splice ((header fileName).map .line),
    .block
      [.line ("extras = " ++ Value.tupleText (module.extras.map Json.literal)),
        .space,
        .splice nodeMatchers,
        .splice (methodPieces module.methods),
        .space,
        .line "def start(self):",
        .block [.line ("return self._parse_root(self." ++ methodName module.entrypoint ++ ")")]],
    .splice footer]

/-- Why a module cannot be loaded, if it cannot. The comments hold all names as they are. -/
def fault? (module : Module) : Option ModuleFault :=
  if module.methods.any fun method => method.comment.contains '\x00' then some .nul
  else if module.extras.all Json.isFinite then none
  else some .notFinite

def text (module : Module) (fileName : String) : Except ForeignPiece String :=
  Piece.textOf (module.pieces fileName)

end Module

end TreeGrammar.Code
