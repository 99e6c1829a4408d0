import TreeGrammar.Grammar.Basic
import TreeGrammar.Grammar.Inlining

/-!
Grammars from their descriptions. The first rule is the entrypoint. Declared rules come first, then
the external tokens that are not declared, then the names that aliases give. Hidden rules, whose
names start with an underscore, and rules listed under `inline` or `supertypes` make no node and
are inlined, unless one is the entrypoint.
-/
namespace TreeGrammar

namespace Description

/-- The elements of a value that counts as false or has parts. The parts of a text are its
characters, those of an object its names. -/
def items : Json → Except LoadError (List Json)
  | .arr values => .ok values
  | .str s => .ok (s.toList.map fun c => .str (String.singleton c))
  | .obj members => .ok (members.map fun (name, _) => .str name)
  | value => if value.isTrue then .error (.shape .notListed) else .ok []

/-- The elements of a member that may be left out. -/
def itemsOf (name : String) (members : List (String × Json)) : Except LoadError (List Json) :=
  match Json.member name members with
  | some value => items value
  | none => .ok []

/-- The names of those of the given objects whose `type` is `SYMBOL`, each as `read` gives it. -/
def symbolNames (read : Json → Except LoadError Label) : List Json → Except LoadError (List Label)
  | [] => .ok []
  | .obj members :: rest =>
    match Json.member "type" members with
    | some (.str "SYMBOL") => do
      let name ← read (← needed "name" members)
      pure (name :: (← symbolNames read rest))
    | _ => symbolNames read rest
  | _ :: _ => .error (.shape .bodyNotObject)

/-- The name of a supertype, which is given as it is or as a member of an object. -/
def supertypeName : Json → Except LoadError Label
  | .str name => .ok name
  | .obj members => do scalar (← needed "name" members)
  | _ => .error (.shape .supertypeNotNamed)

/-- The bodies that the rules describe, and the aliases recorded in them, in order. -/
def convertRules : List (String × Json) → Except LoadError (Bodies × Bodies)
  | [] => .ok ([], [])
  | (name, value) :: rest => do
    let (body, aliases) ← convert value
    let (bodies, more) ← convertRules rest
    pure ((.str name, body) :: bodies, aliases ++ more)

def Bodies.has (bodies : Bodies) (name : Label) : Bool :=
  bodies.any fun entry => entry.1.alike name

/-- Adds a body at the end unless there is one of that name. -/
def Bodies.addNew (bodies : Bodies) (entry : Label × Body) : Bodies :=
  if bodies.has entry.1 then bodies else bodies ++ [entry]

/-- The bodies with new ones for the names of external tokens, which describe nothing. -/
def addExternals (bodies : Bodies) (names : List Label) : Bodies :=
  names.foldl (fun bodies name => bodies.addNew (name, .blank)) bodies

/-- Refuses names of rules that are no texts. -/
def checkNames : List Label → Except LoadError Unit
  | [] => .ok ()
  | .str _ :: rest => checkNames rest
  | _ :: _ => .error (.shape .ruleNameNotText)

/-- The first body recorded for each name. -/
def firstOfEach (recorded : Bodies) : Bodies :=
  recorded.foldl Bodies.addNew []

/-- A rule whose body has other rules inlined. -/
def inlineRule (hidden : Bodies) (entry : Label × Body) : Except LoadError Rule := do
  pure ⟨entry.1, ← inlineIn hidden entry.2⟩

/-- The body of an aliased node: that of the rule it renames, if it renames one. -/
def aliased (bodies : Bodies) : Body → Except LoadError Body
  | .symbol name => do
    match bodies.find (← scalar name) with
    | some (_, body) => pure body
    | none => pure (.symbol name)
  | body => .ok body

/-- What a description says about rules before any of them is inlined: the bodies of rules and
external tokens, the body recorded first for each alias, and the names that are listed as those of
rules without nodes. -/
structure Draft where
  entrypoint : String
  bodies : Bodies
  aliases : Bodies
  listed : List Label

namespace Draft

/-- Whether the nodes of a rule are left out of trees. -/
def isHidden (draft : Draft) : Label → Bool
  | .str name =>
    name != draft.entrypoint &&
      (name.toList.head? == some '_' || Label.isAmong draft.listed name)
  | _ => false

/-- The rules to inline. -/
def hidden (draft : Draft) : Bodies :=
  draft.bodies.filter fun entry => draft.isHidden entry.1

/-- The rules that stay. -/
def shown (draft : Draft) : Bodies :=
  draft.bodies.filter fun entry => !draft.isHidden entry.1

/-- The aliases whose names are not those of rules. -/
def named (draft : Draft) : Bodies :=
  draft.aliases.filter fun entry => !draft.bodies.has entry.1

def rules (draft : Draft) : Except LoadError (List Rule) := do
  let shown ← draft.shown.mapM (inlineRule draft.hidden)
  let named ← draft.named.mapM fun (name, body) => do
    inlineRule draft.hidden (name, ← aliased draft.bodies body)
  pure (shown ++ named)

end Draft

/-- The members that describe the rules. -/
def ruleMembers (rules : Json) : Except LoadError (List (String × Json)) :=
  if rules.isTrue then
    match rules with
    | .obj members => .ok members
    | .arr _ | .str _ => .error (.shape .rulesNotObject)
    | _ => .error (.shape .rulesNotListed)
  else .error (.grammar .noRules)

/-- The rules that the members of a description describe. -/
def draftOf (members : List (String × Json)) : Except LoadError Draft := do
  let raw ← ruleMembers (← needed "rules" members)
  let entrypoint := (raw.head?.map Prod.fst).getD ""
  let (bodies, recorded) ← convertRules raw
  let bodies := addExternals bodies (← symbolNames scalar (← itemsOf "externals" members))
  let listed ← (← itemsOf "inline" members).mapM scalar
  let supertypes ← (← itemsOf "supertypes" members).mapM supertypeName
  checkNames (bodies.map Prod.fst)
  pure ⟨entrypoint, bodies, firstOfEach recorded, listed ++ supertypes⟩

end Description

namespace Grammar

open Description

/-- The grammar that the members of a description describe. -/
def ofMembers (members : List (String × Json)) : Except LoadError Grammar := do
  let draft ← draftOf members
  let rules ← draft.rules
  let extras ← symbolNames .ok (← itemsOf "extras" members)
  match ofRules draft.entrypoint rules extras with
  | .ok g => pure g
  | .error e => throw (.grammar e)

def ofJson : Json → Except LoadError Grammar
  | .obj members => ofMembers members
  | _ => .error (.shape .documentNotObject)

def ofText (s : String) : Except LoadError Grammar :=
  match Json.ofText s with
  | .ok value => ofJson value
  | .error e => .error (.unreadable e)

end Grammar

end TreeGrammar
