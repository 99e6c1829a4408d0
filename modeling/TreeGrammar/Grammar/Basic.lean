import TreeGrammar.Grammar.Body
import TreeGrammar.Grammar.Error

/-!
Grammars. The rules of a grammar have different names. Checking a grammar reports the first thing
that keeps it from being compiled: an entrypoint or a symbol without a rule, or an empty group.
-/
namespace TreeGrammar

/-- A named body. -/
structure Rule where
  name : Label
  body : Body
deriving DecidableEq, Inhabited

/-- Leaf rules describe nodes without parts. -/
def Rule.isLeaf (rule : Rule) : Bool :=
  rule.body.isLeaf

/-- What the name of a rule is compared by. -/
def Rule.key (rule : Rule) : Label :=
  rule.name.canonical

/-- The first name of a list that is like an earlier one or like one of `seen`, which are in
canonical form. -/
def firstRepeat (seen : List Label) : List Label → Option Label
  | [] => none
  | name :: names =>
    if name.canonical ∈ seen then some name else firstRepeat (name.canonical :: seen) names

theorem nodup_of_firstRepeat {seen names : List Label} (h : firstRepeat seen names = none) :
    (names.map Json.canonical).Nodup ∧ ∀ key ∈ names.map Json.canonical, key ∉ seen := by
  induction names generalizing seen with
  | nil => simp
  | cons name names ih =>
    unfold firstRepeat at h
    split at h
    · cases h
    · have hs := ih h
      refine ⟨List.nodup_cons.mpr ⟨fun hm => hs.2 _ hm List.mem_cons_self, hs.1⟩, ?_⟩
      intro other ho
      rcases List.mem_cons.mp ho with rfl | ho
      · assumption
      · exact fun hm => hs.2 other ho (List.mem_cons_of_mem _ hm)

/-- A grammar: rules with different names, the rule for the root of a tree, and the kinds of
nodes that may occur anywhere. -/
structure Grammar where
  entrypoint : String
  rules : List Rule
  extras : List Label
  distinct : (rules.map Rule.key).Nodup

namespace Grammar

/-- The grammar of the given rules, unless two of them have one name. -/
def ofRules (entrypoint : String) (rules : List Rule) (extras : List Label) :
    Except GrammarError Grammar :=
  match h : firstRepeat [] (rules.map Rule.name) with
  | some name => .error (.duplicateRule name)
  | none => .ok ⟨entrypoint, rules, extras, by
    have hn := (nodup_of_firstRepeat h).1
    rw [List.map_map] at hn
    exact hn⟩

def withEntrypoint (g : Grammar) (name : String) : Grammar :=
  { g with entrypoint := name }

def names (g : Grammar) : List Label :=
  g.rules.map Rule.name

def rule? (g : Grammar) (name : Label) : Option Rule :=
  g.rules.find? fun rule => rule.name.alike name

end Grammar

namespace Body

mutual

/-- The first fault of a body of the named rule, given the names of all rules. -/
def fault (names : List Label) (rule : Label) : Body → Option GrammarError
  | symbol name => if Label.isAmong names name then none else some (.undefinedSymbol name rule)
  | star body | plus body => fault names rule body
  | choice [] => some (.emptyChoice rule)
  | choice (body :: rest) => (fault names rule body).or (faultIn names rule rest)
  | seq [] => some (.emptySequence rule)
  | seq (body :: rest) => (fault names rule body).or (faultIn names rule rest)
  | literal _ | pattern _ | blank => none

def faultIn (names : List Label) (rule : Label) : List Body → Option GrammarError
  | [] => none
  | body :: rest => (fault names rule body).or (faultIn names rule rest)

end

end Body

namespace Grammar

/-- The first fault that keeps a grammar from being compiled. -/
def fault (g : Grammar) : Option GrammarError :=
  if Label.isAmong g.names g.entrypoint then
    g.rules.findSome? fun rule => rule.body.fault g.names rule.name
  else some (.noEntrypoint g.entrypoint)

/-- Accepts the grammars that can be compiled. -/
def check (g : Grammar) : Except GrammarError Unit :=
  match g.fault with
  | some e => .error e
  | none => .ok ()

end Grammar

end TreeGrammar
