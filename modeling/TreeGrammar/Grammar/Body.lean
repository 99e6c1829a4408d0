import TreeGrammar.Label

/-!
Rule bodies. A body says which sequences of sibling nodes a rule allows: a reference to a rule, a
token given by its text or by a pattern, nothing at all, repetitions, alternatives and sequences.
Equality of bodies is decidable.
-/
namespace TreeGrammar

/-- The body of a grammar rule. -/
inductive Body where
  | symbol (name : Label)
  | literal (text : Label)
  | pattern (text : Label)
  | blank
  | star (body : Body)
  | plus (body : Body)
  | choice (bodies : List Body)
  | seq (bodies : List Body)
deriving Inhabited

namespace Body

/-- Bodies without parts. -/
def isLeaf : Body → Bool
  | symbol _ | literal _ | pattern _ | blank => true
  | _ => false

/-- The elements of a sequence; any other body is a sequence of one element. -/
def elements : Body → List Body
  | seq bodies => bodies
  | body => [body]

section
variable {P : Body → Prop} (symbol : ∀ name, P (.symbol name)) (literal : ∀ text, P (.literal text))
  (pattern : ∀ text, P (.pattern text)) (blank : P .blank) (star : ∀ body, P body → P (.star body))
  (plus : ∀ body, P body → P (.plus body))
  (choice : ∀ bodies, (∀ b ∈ bodies, ∀ e ∈ b.elements, P e) → P (.choice bodies))
  (seq : ∀ bodies, (∀ b ∈ bodies, P b) → P (.seq bodies))
include symbol literal pattern blank star plus choice seq

private theorem and_elements : (body : Body) → P body ∧ ∀ e ∈ body.elements, P e
  | .symbol name => by simpa [elements] using symbol name
  | .literal text => by simpa [elements] using literal text
  | .pattern text => by simpa [elements] using pattern text
  | .blank => by simpa [elements] using blank
  | .star body => by simpa [elements] using star body (and_elements body).1
  | .plus body => by simpa [elements] using plus body (and_elements body).1
  | .choice bodies => by
    simpa [elements] using choice bodies fun b _ => (and_elements b).2
  | .seq bodies =>
    have hall := fun b (_ : b ∈ bodies) => (and_elements b).1
    ⟨seq bodies hall, hall⟩

/-- Induction on bodies in which an alternative of a choice is taken as the sequence that it is
compiled as. -/
@[elab_as_elim]
theorem induction_on_elements (body : Body) : P body :=
  (and_elements symbol literal pattern blank star plus choice seq body).1

end

mutual

/-- Whether two bodies are built alike from equal labels. -/
def same : Body → Body → Bool
  | symbol a, symbol b => a == b
  | literal a, literal b => a == b
  | pattern a, pattern b => a == b
  | blank, blank => true
  | star a, star b => same a b
  | plus a, plus b => same a b
  | choice as, choice bs => sameAll as bs
  | seq as, seq bs => sameAll as bs
  | _, _ => false

/-- Whether two lists of bodies are the same in length and order. -/
def sameAll : List Body → List Body → Bool
  | [], [] => true
  | a :: as, b :: bs => same a b && sameAll as bs
  | _, _ => false

end

mutual

theorem same_iff : (a b : Body) → (same a b = true ↔ a = b)
  | symbol _, b => by cases b <;> simp [same]
  | literal _, b => by cases b <;> simp [same]
  | pattern _, b => by cases b <;> simp [same]
  | blank, b => by cases b <;> simp [same]
  | star a, b => by cases b <;> simp [same, same_iff a]
  | plus a, b => by cases b <;> simp [same, same_iff a]
  | choice as, b => by cases b <;> simp [same, sameAll_iff as]
  | seq as, b => by cases b <;> simp [same, sameAll_iff as]

theorem sameAll_iff : (as bs : List Body) → (sameAll as bs = true ↔ as = bs)
  | [], bs => by cases bs <;> simp [sameAll]
  | a :: as, bs => by cases bs <;> simp [sameAll, same_iff a, sameAll_iff as]

end

instance : DecidableEq Body := fun a b => decidable_of_iff _ (same_iff a b)

mutual

/-- The names of the rules that a body refers to, from left to right. -/
def symbols : Body → List Label
  | symbol name => [name]
  | star body | plus body => symbols body
  | choice bodies | seq bodies => symbolsOf bodies
  | literal _ | pattern _ | blank => []

def symbolsOf : List Body → List Label
  | [] => []
  | body :: rest => symbols body ++ symbolsOf rest

end

end Body

end TreeGrammar
