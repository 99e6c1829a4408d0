import TreeGrammar.Code.Error
import TreeGrammar.Value.Basic

/-!
Patterns that take nested pairs apart and expressions that put their parts together to tuples. The
parts are called `e0`, `e1`, … and the rest of the pairs is called `tail`.
-/
namespace TreeGrammar.Code

/-- A name for a part of nested pairs. -/
inductive Part where
  | element (index : Nat)
  | tail
deriving DecidableEq, Repr

def Part.name : Part → String
  | element index => "e" ++ toString index
  | tail => "tail"

/-- A pattern for nested pairs. -/
inductive Pattern where
  | unit
  | part (part : Part)
  | pair (first second : Pattern)
deriving DecidableEq, Repr

def Pattern.text : Pattern → String
  | unit => "()"
  | part p => p.name
  | pair first second => "(" ++ first.text ++ ", " ++ second.text ++ ")"

/-- How a tuple is marked before it is returned. -/
inductive Wrap where
  /-- Not at all. -/
  | plain
  /-- As the result of an alternative. -/
  | case (index : Int)
  /-- By text around it. -/
  | around (before after : String)
deriving DecidableEq, Repr

def Wrap.text (wrap : Wrap) (s : String) : String :=
  match wrap with
  | plain => s
  | case index => "combine.Case(" ++ toString index ++ ", " ++ s ++ ")"
  | around before after => before ++ s ++ after

/-- An expression for the parts of a pattern. -/
inductive Regrouped where
  | unit
  | part (part : Part)
  | tuple (parts : List Part)
  | wrapped (wrap : Wrap) (inner : Regrouped)
  | pair (first second : Regrouped)
deriving Repr

def Regrouped.text : Regrouped → String
  | unit => "()"
  | part p => p.name
  | tuple parts => "(" ++ ", ".intercalate (parts.map Part.name) ++ ")"
  | wrapped wrap inner => wrap.text inner.text
  | pair first second => "(" ++ first.text ++ ", " ++ second.text ++ ")"

/-- Whether `count` of `available` results can be taken. -/
def checkCount (count available : Int) : Except CodeError Unit :=
  if 0 ≤ count ∧ count ≤ available then .ok () else .error .badCount

/-- The pattern for elements from `first` on, `more` further ones following it. -/
def nestedFrom (withTail : Bool) (first : Nat) : Nat → Pattern
  | 0 =>
    if withTail then .pair (.part (.element first)) (.part .tail) else .part (.element first)
  | more + 1 => .pair (.part (.element first)) (nestedFrom withTail (first + 1) more)

/-- The pattern for the first `count` of `available` nested results. -/
def nestedPairs (count available : Int) : Except CodeError Pattern := do
  checkCount count available
  match count.toNat with
  | 0 => pure .unit
  | more + 1 => pure (nestedFrom (count < available) 0 more)

/-- The tuple of the first `count` results; a single one stands for itself. -/
def flatElements : Nat → Regrouped
  | 1 => .part (.element 0)
  | count => .tuple ((List.range count).map .element)

/-- The tuple of the first `count` of `available` results, marked, and paired with the rest if
there is one. -/
def flatTuple (count available : Int) (wrap : Wrap) : Except CodeError Regrouped := do
  checkCount count available
  if count = 0 then pure .unit
  else
    let elements := Regrouped.wrapped wrap (flatElements count.toNat)
    if count < available then pure (.pair elements (.part .tail)) else pure elements

/-- The values that the parts of a pattern stand for. -/
abbrev Parts := List (Part × Value)

/-- The values of the parts of a pattern in the given value, where it has its form. -/
def Pattern.bind : Pattern → Value → Option Parts
  | unit, .tuple [] => some []
  | part p, v => some [(p, v)]
  | pair first second, .tuple [v, w] => do
    let vs ← first.bind v
    let ws ← second.bind w
    pure (vs ++ ws)
  | _, _ => none

/-- What texts before and after an expression make of its value. -/
abbrev Around := String → String → Value → Option Value

/-- A marked value. -/
def Wrap.value (around : Around) (wrap : Wrap) (v : Value) : Option Value :=
  match wrap with
  | plain => some v
  | case index => some (.case index v)
  | .around before after => around before after v

/-- The value of an expression, where all its parts are bound. -/
def Regrouped.value (around : Around) (parts : Parts) : Regrouped → Option Value
  | unit => some .unit
  | part p => parts.lookup p
  | tuple ps => (ps.mapM fun p => parts.lookup p).map .tuple
  | wrapped wrap inner => do wrap.value around (← inner.value around parts)
  | pair first second => do
    pure (.pair (← first.value around parts) (← second.value around parts))

end TreeGrammar.Code
