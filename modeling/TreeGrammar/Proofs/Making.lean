import Mathlib.Data.Nat.Basic
import Mathlib.Order.Basic
import TreeGrammar.Code.Compile
import TreeGrammar.Proofs.Scope

/-!
How code is put together. Names are numbered in turn, so the names that a step makes lie between
the numbers before and after it. Joining matchers never fails where their code ends with a line,
and where they share no names the joined code means the joined matchers.
-/
namespace TreeGrammar.Code

/-- The number of a name. -/
def Local.id : Local → Nat
  | function id | tail id | case id _ => id

/-- A step that starts after the number `n` makes `a`, and `k` is the last number it gives. -/
def Makes {α : Type} (x : Gen α) (n : Nat) (a : α) (k : Nat) : Prop :=
  x.run.run n = (.ok a, k)

/-- The names are old ones or have numbers after `n` up to `k`. -/
def NamesFrom (old : List Local) (n k : Nat) (names : List Local) : Prop :=
  ∀ x ∈ names, x ∈ old ∨ n < x.id ∧ x.id ≤ k

def NamesUpTo (n : Nat) (names : List Local) : Prop :=
  ∀ x ∈ names, x.id ≤ n

section
variable {α β : Type}

theorem makes_pure (a : α) (n : Nat) : Makes (pure a) n a n := rfl

theorem makes_bind {x : Gen α} {f : α → Gen β} {n k l : Nat} {a : α} {b : β}
    (hx : Makes x n a k) (hf : Makes (f a) k b l) : Makes (x >>= f) n b l := by
  unfold Makes at hx hf ⊢
  rw [ExceptT.run_bind, StateT.run_bind, hx]
  exact hf

theorem makes_lift {x : Except CodeError α} {a : α} (h : x = .ok a) (n : Nat) :
    Makes (liftM x) n a n := by
  subst h
  rfl

theorem makes_freshId (n : Nat) : Makes freshId n (n + 1) (n + 1) := rfl

end

section
variable {old names : List Local} {n k l : Nat}

theorem NamesFrom.of_old (h : ∀ x ∈ names, x ∈ old) : NamesFrom old n k names :=
  fun x hx => .inl (h x hx)

theorem NamesFrom.mono {n' k' : Nat} (h : NamesFrom old n k names) (hn : n' ≤ n) (hk : k ≤ k') :
    NamesFrom old n' k' names := by
  intro x hx
  rcases h x hx with ho | hr
  · exact .inl ho
  · exact .inr ⟨by omega, by omega⟩

/-- Names that a later step takes over come from the step before it. -/
theorem NamesFrom.trans {middle : List Local} (hm : NamesFrom old n k middle)
    (h : NamesFrom middle k l names) (hn : n ≤ k) (hk : k ≤ l) : NamesFrom old n l names := by
  intro x hx
  rcases h x hx with ho | hr
  · exact (hm.mono le_rfl hk) x ho
  · exact .inr ⟨by omega, hr.2⟩

theorem NamesFrom.upTo (h : NamesFrom old n k names) (ho : NamesUpTo n old) (hk : n ≤ k) :
    NamesUpTo k names := by
  intro x hx
  rcases h x hx with hm | hr
  · exact (ho x hm).trans hk
  · exact hr.2

end

/-- The code of an expression ends with a line. -/
def Expr.Closed (e : Expr) : Prop :=
  openEnd? e.pieces = none

def Fragment.Closed : Fragment → Prop
  | term t => t.expr.Closed
  | block _ => True

theorem openEnd?_application (func : String) (args : List (List Piece)) :
    openEnd? (application func args) = none := by
  unfold application
  split <;> rfl

theorem applicationFault?_pair {func : String} {a b : List Piece} (ha : openEnd? a = none)
    (hb : openEnd? b = none) : applicationFault? func [a, b] = none := by
  unfold applicationFault?
  split
  · rfl
  · simp [ha, hb]

/-- A way to write down how two matchers are joined. -/
structure Joins (combine : Expr → Expr → Expr)
    (joined : ∀ {m : Type → Type} [Monad m] {ν : Type},
      Matcher m ν → Matcher m ν → Matcher m ν) : Prop where
  fault : ∀ {a b : Expr}, a.Closed → b.Closed → (combine a b).fault? = none
  closed : ∀ {a b : Expr}, (combine a b).Closed
  names : ∀ a b : Expr, (combine a b).names = a.names ++ b.names
  meaning : ∀ {m : Type → Type} [Monad m] [MonadExceptOf RunFault m] {ν : Type} (host : Host m ν)
    (env : Env m ν) (a b : Expr),
    (combine a b).meaning host env = joined (a.meaning host env) (b.meaning host env)

theorem joins_seq : Joins .seq Matcher.seq :=
  ⟨applicationFault?_pair, openEnd?_application _ _, fun _ _ => rfl, fun _ _ _ _ => rfl⟩

theorem joins_star : Joins .star Matcher.star :=
  ⟨applicationFault?_pair, openEnd?_application _ _, fun _ _ => rfl, fun _ _ _ _ => rfl⟩

theorem joins_plus : Joins .plus Matcher.plus :=
  ⟨applicationFault?_pair, openEnd?_application _ _, fun _ _ => rfl, fun _ _ _ _ => rfl⟩

/-- What joins two matchers to one. -/
inductive Joint where
  | seq
  | star
  | plus

namespace Joint

/-- The name it goes by in text. -/
def func : Joint → String
  | seq => "combine.parse_seq"
  | star => "combine.parse_repeat"
  | plus => "combine.parse_repeat1"

def expr : Joint → Expr → Expr → Expr
  | seq => .seq
  | star => .star
  | plus => .plus

def matcher {m : Type → Type} [Monad m] {ν : Type} : Joint → Matcher m ν → Matcher m ν → Matcher m ν
  | seq => .seq
  | star => .star
  | plus => .plus

theorem joins : (j : Joint) → Joins j.expr j.matcher
  | seq => joins_seq
  | star => joins_star
  | plus => joins_plus

end Joint

/-- Code as an expression has at most one more name, and it means the same. -/
structure Termed (code : Fragment) (n : Nat) (t : Term) (k : Nat) : Prop where
  le : n ≤ k
  names : NamesFrom code.names n k t.names
  closed : code.Closed → t.expr.Closed
  meaning : ∀ {m : Type → Type} [Monad m] [MonadExceptOf RunFault m] {ν : Type} (host : Host m ν)
    (env : Env m ν), t.meaning host env = code.meaning host env

theorem exists_termed (code : Fragment) (n : Nat) :
    ∃ t k, Makes code.toTerm n t k ∧ Termed code n t k := by
  cases code with
  | term t =>
    refine ⟨t, n, makes_pure t n, le_rfl, .of_old fun _ hx => hx, id, ?_⟩
    exact fun host env => (Fragment.meaning_term t).symm
  | block b =>
    refine ⟨_, n + 1, makes_bind (makes_freshId n) (makes_pure _ _), by omega, ?_, fun _ => rfl, ?_⟩
    · intro x hx
      simp only [Term.names, Def.names, Expr.names, List.flatMap_cons, List.flatMap_nil,
        List.append_nil, List.cons_append, List.mem_cons, List.mem_append, List.not_mem_nil,
        or_false] at hx
      rcases hx with rfl | hb | rfl
      · exact .inr ⟨Nat.lt_succ_self n, le_rfl⟩
      · exact .inl hb
      · exact .inr ⟨Nat.lt_succ_self n, le_rfl⟩
    · intro m _ _ ν host env
      funext nodes
      simp [Term.meaning, Expr.meaning, Env.extend, Env.define, Env.bind, Fragment.meaning,
        Fragment.toBlock]

theorem Block.mem_names_bindTerm {name x : Local} {t : Term} {next : Block} :
    x ∈ (bindTerm name t next).names ↔ x = name ∨ x ∈ t.names ∨ x ∈ next.names := by
  rw [bindTerm, names_after, Term.names]
  simp only [names, List.mem_append, List.mem_cons]
  tauto

theorem Block.meaning_bindTerm {m : Type → Type} [Monad m] [MonadExceptOf RunFault m] {ν : Type}
    (host : Host m ν) (env : Env m ν) (name : Local) (t : Term) (next : Block) :
    (bindTerm name t next).meaning host env =
      next.meaning host ((env.extend host t.defs).bind name (t.meaning host env)) :=
  meaning_after t.defs (.bind name t.expr next)

theorem join_meaning {combine : Expr → Expr → Expr}
    {joined : ∀ {m : Type → Type} [Monad m] {ν : Type},
      Matcher m ν → Matcher m ν → Matcher m ν} (hj : Joins combine joined) {a b : Term}
    (h : ∀ x ∈ a.names, x ∉ b.names) {m : Type → Type} [Monad m] [MonadExceptOf RunFault m]
    {ν : Type} (host : Host m ν) (env : Env m ν) :
    (Term.mk (combine a.expr b.expr) (a.defs ++ b.defs)).meaning host env =
      joined (a.meaning host env) (b.meaning host env) := by
  obtain ⟨ha, hb⟩ := meaning_of_disjoint host env h
  rw [Term.meaning, hj.meaning, ha, hb]

theorem join_names {combine : Expr → Expr → Expr}
    {joined : ∀ {m : Type → Type} [Monad m] {ν : Type},
      Matcher m ν → Matcher m ν → Matcher m ν} (hj : Joins combine joined) {a b : Term}
    {x : Local} (hx : x ∈ (Term.mk (combine a.expr b.expr) (a.defs ++ b.defs)).names) :
    x ∈ a.names ∨ x ∈ b.names := by
  simp only [Term.names, hj.names, List.flatMap_append, List.mem_append] at hx ⊢
  tauto

end TreeGrammar.Code
