import Mathlib.Data.List.Nodup
import TreeGrammar.Code.Compile
import TreeGrammar.Proofs.Scope

/-!
What stands in code: the matchers of rules and of leaves, repetitions, and the places where names
are bound, each as often as it stands there. Names are numbered, and each number has one purpose: it
belongs to a function, or to a choice, whose rest and whose alternatives have names.
-/
namespace TreeGrammar

namespace Code

/-- Something that stands in code. -/
inductive Item where
  /-- The matcher of a rule. -/
  | rule (name : Label)
  /-- The matcher of leaves of a kind. -/
  | leaf (kind : Label)
  | star
  | plus
  /-- The definition of a function. -/
  | define (name : Local)
  /-- A name bound to a matcher. -/
  | bind (name : Local)
  /-- The text of a caller. -/
  | given
deriving DecidableEq

def Expr.items : Expr → List Item
  | rule name => [.rule name]
  | leaf kind => [.leaf kind]
  | seq element tail => element.items ++ tail.items
  | star element tail => .star :: (element.items ++ tail.items)
  | plus element tail => .plus :: (element.items ++ tail.items)
  | node _ children => children.items
  | given _ => [.given]
  | success | finish | ref _ => []

def Block.items : Block → List Item
  | define name body next => .define name :: (body.items ++ next.items)
  | bind name value next => .bind name :: (value.items ++ next.items)
  | attempt matcher next => matcher.items ++ next.items
  | ret matcher => matcher.items
  | regroup matcher _ _ => matcher.items
  | insert _ next => .given :: next.items
  | given _ => [.given]

def Def.items : Def → List Item
  | function name body => .define name :: body.items
  | given _ => [.given]

def Term.items (t : Term) : List Item :=
  t.defs.flatMap Def.items ++ t.expr.items

def Fragment.items : Fragment → List Item
  | term t => t.items
  | block b => b.items

theorem Block.items_after (defs : List Def) (b : Block) :
    (b.after defs).items = defs.flatMap Def.items ++ b.items := by
  induction defs with
  | nil => rfl
  | cons d defs ih =>
    cases d with
    | function name body =>
      change .define name :: (body.items ++ (b.after defs).items) = _
      rw [ih, List.flatMap_cons, List.append_assoc]
      rfl
    | given code =>
      change .given :: (b.after defs).items = _
      rw [ih, List.flatMap_cons]
      rfl

theorem Fragment.items_toBlock (code : Fragment) : code.toBlock.items = code.items := by
  cases code with
  | term t => exact Block.items_after t.defs (.ret t.expr)
  | block b => rfl

/-- The name that is bound there, if one is. -/
def Item.bound? : Item → Option Local
  | define name | bind name => some name
  | _ => none

/-- What a number of names is given for. -/
inductive Purpose where
  /-- A function for a block. -/
  | function
  /-- A choice with so many alternatives. -/
  | choice (alternatives : Nat)
deriving DecidableEq

/-- The bindings of the names with a number: that of a function, or what follows a choice and each
of its alternatives. -/
def Purpose.items (id : Nat) : Purpose → List Item
  | function => [.define (.function id)]
  | choice count => .bind (.tail id) :: (List.range count).map fun i => .define (.case id i)

/-- How many alternatives the choice has. -/
def Purpose.alternatives? : Purpose → Option Nat
  | function => none
  | choice count => some count

/-- The bindings for some purposes, which have the numbers after `n` in turn. -/
def itemsAfter (n : Nat) : List Purpose → List Item
  | [] => []
  | purpose :: rest => purpose.items (n + 1) ++ itemsAfter (n + 1) rest

theorem itemsAfter_append (n : Nat) (ps qs : List Purpose) :
    itemsAfter n (ps ++ qs) = itemsAfter n ps ++ itemsAfter (n + ps.length) qs := by
  induction ps generalizing n with
  | nil => rfl
  | cons p ps ih =>
    rw [List.cons_append, itemsAfter, ih, itemsAfter, List.length_cons, List.append_assoc,
      Nat.add_right_comm, Nat.add_assoc n]

end Code

namespace Body

mutual

/-- What the code of a body has to hold. -/
def items : Body → List Code.Item
  | symbol name => [.rule name]
  | literal text | pattern text => [.leaf text]
  | blank => []
  | star body => .star :: items body
  | plus body => .plus :: items body
  | choice bodies | seq bodies => itemsOf bodies

def itemsOf : List Body → List Code.Item
  | [] => []
  | body :: rest => items body ++ itemsOf rest

end

mutual

/-- The counts of alternatives of the choices in a body. -/
def choices : Body → List Nat
  | symbol _ | literal _ | pattern _ | blank => []
  | star body | plus body => choices body
  | choice bodies => bodies.length :: choicesOf bodies
  | seq bodies => choicesOf bodies

def choicesOf : List Body → List Nat
  | [] => []
  | body :: rest => choices body ++ choicesOf rest

end

end Body

end TreeGrammar
