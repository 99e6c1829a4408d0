import TreeGrammar.Grammar.Error
import TreeGrammar.Json.Reader

/-! Why a grammar description is not loaded. -/
namespace TreeGrammar

/-- A value in a description is of a kind that its place does not admit. -/
inductive ShapeFault where
  /-- The whole description is not an object. -/
  | documentNotObject
  /-- The rules are listed, but not as the members of an object. -/
  | rulesNotObject
  /-- The rules are a value without parts. -/
  | rulesNotListed
  /-- A body, an external or an extra is not an object. -/
  | bodyNotObject
  /-- The kind of a body is a list or an object. -/
  | kindNotScalar
  /-- A value without parts stands where a list is needed. -/
  | notListed
  /-- A value that cannot be compared with names stands among names. -/
  | nameNotScalar
  /-- A supertype is neither a name nor an object. -/
  | supertypeNotNamed
  /-- An external token whose name is not a text stands among the rules. -/
  | ruleNameNotText
deriving DecidableEq, Repr

/-- Why a description is not loaded. -/
inductive LoadError where
  /-- It is not JSON. -/
  | unreadable (error : Json.ReadError)
  /-- A member that is needed is not there. -/
  | missingMember (name : String)
  | shape (fault : ShapeFault)
  | grammar (error : GrammarError)

end TreeGrammar
