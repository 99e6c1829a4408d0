import TreeGrammar.Grammar.Body
import TreeGrammar.Grammar.LoadError

/-!
Bodies of grammar descriptions. A body is an object whose `type` says how it is built. Wrappers for
precedence, tokens, fields and reserved words have no part in the tree and are left out. An alias
stands for a node of another name; the bodies of the named aliases are recorded, inner ones first.
-/
namespace TreeGrammar

namespace Description

/-- Bodies by name. -/
abbrev Bodies := List (Label × Body)

/-- Wrappers that leave no trace in the tree. -/
def isTransparent (kind : String) : Bool :=
  ["PREC", "PREC_LEFT", "PREC_RIGHT", "PREC_DYNAMIC", "TOKEN", "IMMEDIATE_TOKEN", "FIELD",
    "RESERVED"].contains kind

/-- A member that has to be there. -/
def needed (name : String) (members : List (String × Json)) : Except LoadError Json :=
  match Json.member name members with
  | some value => .ok value
  | none => .error (.missingMember name)

/-- A value that is looked up among others, which lists and objects cannot be. -/
def scalar (value : Json) : Except LoadError Label :=
  if value.isScalar then .ok value else .error (.shape .nameNotScalar)

mutual

/-- The body that a value describes, and the aliases recorded in it. -/
def convert : Json → Except LoadError (Body × Bodies)
  | .obj members =>
    match Json.member "type" members with
    | none => .error (.grammar (.unknownKind .null))
    | some (.arr _) | some (.obj _) => .error (.shape .kindNotScalar)
    | some (.str kind) =>
      if isTransparent kind then contentOf members
      else if kind = "BLANK" then .ok (.blank, [])
      else if kind = "STRING" then do pure (.literal (← needed "value" members), [])
      else if kind = "PATTERN" then do pure (.pattern (← needed "value" members), [])
      else if kind = "SYMBOL" then do pure (.symbol (← needed "name" members), [])
      else if kind = "SEQ" then do
        let (bodies, aliases) ← membersOf members
        pure (.seq bodies, aliases)
      else if kind = "CHOICE" then do
        let (bodies, aliases) ← membersOf members
        pure (.choice bodies, aliases)
      else if kind = "REPEAT" then do
        let (body, aliases) ← contentOf members
        pure (.star body, aliases)
      else if kind = "REPEAT1" then do
        let (body, aliases) ← contentOf members
        pure (.plus body, aliases)
      else if kind = "ALIAS" then do
        let named ← needed "named" members
        let value ← needed "value" members
        if named.isTrue then
          let (body, aliases) ← contentOf members
          let name ← scalar value
          pure (.symbol name, aliases ++ [(name, body)])
        else pure (.literal value, [])
      else .error (.grammar (.unknownKind (.str kind)))
    | some kind => .error (.grammar (.unknownKind kind))
  | _ => .error (.shape .bodyNotObject)

/-- The body that the member `content` describes. -/
def contentOf : List (String × Json) → Except LoadError (Body × Bodies)
  | [] => .error (.missingMember "content")
  | (name, value) :: rest => if name = "content" then convert value else contentOf rest

/-- The bodies that the member `members` describes. -/
def membersOf : List (String × Json) → Except LoadError (List Body × Bodies)
  | [] => .error (.missingMember "members")
  | (name, value) :: rest => if name = "members" then convertGroup value else membersOf rest

/-- The bodies of a group. Texts and objects have parts too, but these are no bodies. -/
def convertGroup : Json → Except LoadError (List Body × Bodies)
  | .arr values => convertAll values
  | .str s => if s = "" then .ok ([], []) else .error (.shape .bodyNotObject)
  | .obj members => if members.isEmpty then .ok ([], []) else .error (.shape .bodyNotObject)
  | _ => .error (.shape .notListed)

/-- The bodies that some values describe, from left to right. -/
def convertAll : List Json → Except LoadError (List Body × Bodies)
  | [] => .ok ([], [])
  | value :: rest => do
    let (body, aliases) ← convert value
    let (bodies, more) ← convertAll rest
    pure (body :: bodies, aliases ++ more)

end

end Description

end TreeGrammar
