import Mathlib.Data.List.Basic
import TreeGrammar.Code.Continuation
import TreeGrammar.Code.Meaning

/-!
Names in code. The meaning of code depends only on what the names it mentions are bound to, so code
keeps its meaning where other names are bound before it. A definition that an expression needs
binds its name for all that comes after it.
-/
namespace TreeGrammar.Code

/-- The names that an expression mentions. -/
def Expr.names : Expr → List Local
  | ref name => [name]
  | seq element tail | star element tail | plus element tail => element.names ++ tail.names
  | node _ children => children.names
  | success | finish | rule _ | leaf _ | given _ => []

/-- The names that a block mentions, those that it binds included. -/
def Block.names : Block → List Local
  | define name body next => name :: (body.names ++ next.names)
  | bind name value next => name :: (value.names ++ next.names)
  | attempt matcher next => matcher.names ++ next.names
  | ret matcher => matcher.names
  | regroup matcher _ _ => matcher.names
  | insert _ next => next.names
  | given _ => []

/-- The names that a definition mentions, its own included. -/
def Def.names : Def → List Local
  | function name body => name :: body.names
  | given _ => []

def Term.names (t : Term) : List Local :=
  t.defs.flatMap Def.names ++ t.expr.names

def Fragment.names : Fragment → List Local
  | term t => t.names
  | block b => b.names

variable {m : Type → Type} [Monad m] [MonadExceptOf RunFault m] {ν : Type} (host : Host m ν)

/-- The names with those of a definition. -/
def Env.define (env : Env m ν) : Def → Env m ν
  | .function name body => env.bind name (body.meaning host env)
  | .given _ => env

/-- The names with those of some definitions, each of which may use the ones before. -/
def Env.extend (env : Env m ν) (defs : List Def) : Env m ν :=
  defs.foldl (Env.define host) env

/-- The meaning of an expression with the definitions it needs. -/
def Term.meaning (env : Env m ν) (t : Term) : Matcher m ν :=
  t.expr.meaning host (env.extend host t.defs)

def Fragment.meaning (env : Env m ν) (code : Fragment) : Matcher m ν :=
  code.toBlock.meaning host env

variable {host} {env env' : Env m ν}

theorem Expr.meaning_ref (host : Host m ν) {name : Local} {f : Matcher m ν}
    (h : env name = some f) :
    (Expr.ref name).meaning host env = f := by
  funext nodes
  rw [meaning, h]

theorem Env.extend_append (defs defs' : List Def) :
    env.extend host (defs ++ defs') = (env.extend host defs).extend host defs' :=
  List.foldl_append

theorem Block.meaning_after (defs : List Def) (b : Block) :
    (b.after defs).meaning host env = b.meaning host (env.extend host defs) := by
  induction defs generalizing env with
  | nil => rfl
  | cons d defs ih =>
    cases d with
    | function name body => exact ih
    | given code => exact ih

theorem Fragment.meaning_term (t : Term) :
    (Fragment.term t).meaning host env = t.meaning host env :=
  Block.meaning_after t.defs (.ret t.expr)

theorem Block.names_after (defs : List Def) (b : Block) :
    (b.after defs).names = defs.flatMap Def.names ++ b.names := by
  induction defs with
  | nil => rfl
  | cons d defs ih =>
    cases d with
    | function name body =>
      change name :: (body.names ++ (b.after defs).names) = _
      rw [ih, List.flatMap_cons, List.append_assoc]
      rfl
    | given code =>
      change (b.after defs).names = _
      rw [ih, List.flatMap_cons]
      rfl

theorem Fragment.names_toBlock (code : Fragment) : code.toBlock.names = code.names := by
  cases code with
  | term t => exact Block.names_after t.defs (.ret t.expr)
  | block b => rfl

omit [Monad m] [MonadExceptOf RunFault m] in
theorem Env.bind_congr {names : List Local} (name : Local) {f g : Matcher m ν} (hf : f = g)
    (h : ∀ x ∈ names, env x = env' x) : ∀ x ∈ names, env.bind name f x = env'.bind name g x := by
  intro x hx
  rw [Env.bind, Env.bind, hf, h x hx]

/-- An expression means the same wherever its names do. -/
theorem Expr.meaning_congr (host : Host m ν) (e : Expr) (h : ∀ x ∈ e.names, env x = env' x) :
    e.meaning host env = e.meaning host env' := by
  induction e with
  | ref name =>
    funext nodes
    rw [meaning, meaning, h name (List.mem_singleton_self name)]
  | seq a b iha ihb | star a b iha ihb | plus a b iha ihb =>
    have ha := iha fun x hx => h x (List.mem_append_left _ hx)
    have hb := ihb fun x hx => h x (List.mem_append_right _ hx)
    rw [meaning, meaning, ha, hb]
  | node kind children ih => rw [meaning, meaning, ih h]
  | _ => rfl

theorem Block.meaning_congr (host : Host m ν) (b : Block) (h : ∀ x ∈ b.names, env x = env' x) :
    b.meaning host env = b.meaning host env' := by
  induction b generalizing env env' with
  -- A name that is bound in the block hides what it meant before in both.
  | define name body next ihb ihn =>
    have hin := fun x hx => h x (List.mem_cons_of_mem name hx)
    have hbody := ihb fun x hx => hin x (List.mem_append_left _ hx)
    exact ihn (Env.bind_congr name hbody fun x hx => hin x (List.mem_append_right _ hx))
  | bind name value next ih =>
    have hin := fun x hx => h x (List.mem_cons_of_mem name hx)
    have hvalue := value.meaning_congr host fun x hx =>
      hin x (List.mem_append_left _ hx)
    exact ih (Env.bind_congr name hvalue fun x hx => hin x (List.mem_append_right _ hx))
  | attempt matcher next ih =>
    have hm := matcher.meaning_congr host fun x hx => h x (List.mem_append_left _ hx)
    have hn := ih fun x hx => h x (List.mem_append_right _ hx)
    funext nodes
    rw [meaning, meaning, hm, hn]
  | ret matcher => exact matcher.meaning_congr host h
  | regroup matcher pattern result =>
    funext nodes
    rw [meaning, meaning, matcher.meaning_congr host h]
  | insert code next ih => exact ih h
  | given code => rfl

theorem Fragment.meaning_congr (host : Host m ν) (code : Fragment)
    (h : ∀ x ∈ code.names, env x = env' x) :
    code.meaning host env = code.meaning host env' :=
  Block.meaning_congr host _ fun x hx => h x (code.names_toBlock ▸ hx)

theorem Env.extend_congr (host : Host m ν) (defs : List Def) {names : List Local}
    (hd : ∀ x ∈ defs.flatMap Def.names, x ∈ names) (h : ∀ x ∈ names, env x = env' x) :
    ∀ x ∈ names, env.extend host defs x = env'.extend host defs x := by
  induction defs generalizing env env' with
  | nil => exact h
  | cons d defs ih =>
    have hmore := fun x hx => hd x (List.mem_append_right _ hx)
    cases d with
    | function name body =>
      have hbody := body.meaning_congr host fun x hx =>
        h x (hd x (List.mem_append_left _ (List.mem_cons_of_mem name hx)))
      exact ih hmore (Env.bind_congr name hbody h)
    | given code => exact ih hmore h

/-- Definitions bind no names but those that they mention. -/
theorem Env.extend_of_notMem (defs : List Def) {x : Local} (hx : x ∉ defs.flatMap Def.names) :
    env.extend host defs x = env x := by
  induction defs generalizing env with
  | nil => rfl
  | cons d defs ih =>
    rw [List.flatMap_cons, List.mem_append, not_or] at hx
    change (env.define host d).extend host defs x = _
    rw [ih hx.2]
    cases d with
    | function name body => exact if_neg fun (h : x = name) => hx.1 (h ▸ List.mem_cons_self)
    | given code => rfl

theorem Term.meaning_congr (host : Host m ν) (t : Term) (h : ∀ x ∈ t.names, env x = env' x) :
    t.meaning host env = t.meaning host env' := by
  have hext := Env.extend_congr host t.defs
    (fun x hx => List.mem_append_left _ hx) h
  exact t.expr.meaning_congr host fun x hx => hext x (List.mem_append_right _ hx)

/-- Two expressions that share no name keep their meanings after the definitions of both. -/
theorem meaning_of_disjoint (host : Host m ν) (env : Env m ν) {a b : Term}
    (h : ∀ x ∈ a.names, x ∉ b.names) :
    a.expr.meaning host (env.extend host (a.defs ++ b.defs)) = a.meaning host env ∧
      b.expr.meaning host (env.extend host (a.defs ++ b.defs)) = b.meaning host env := by
  rw [Env.extend_append]
  constructor
  -- The definitions of the second one bind none of the names of the first.
  · apply Expr.meaning_congr
    intro x hx
    apply Env.extend_of_notMem
    exact fun hb => h x (List.mem_append_right _ hx) (List.mem_append_left _ hb)
  · have hb : ∀ x ∈ b.names, env.extend host a.defs x = env x := by
      intro x hx
      apply Env.extend_of_notMem
      exact fun ha => h x (List.mem_append_left _ ha) hx
    exact b.meaning_congr host hb

end TreeGrammar.Code
