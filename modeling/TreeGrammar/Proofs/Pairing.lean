import Mathlib.Data.List.Forall2
import TreeGrammar.Code.Meaning

/-!
Code run in two ways. A pairing compares runs of two kinds, and it goes from the parts of runs to the
whole. Where nodes, hosts and names correspond, code does the same in both ways, step by step, so
what a pairing says of the parts that hosts supply it says of all code.
-/
namespace TreeGrammar

open Code

/-- A way to compare runs of two kinds by what they return. -/
structure Pairing (m m' : Type → Type) [Monad m] [Monad m'] [MonadExceptOf RunFault m]
    [MonadExceptOf RunFault m'] where
  agree : {α β : Type} → (α → β → Prop) → m α → m' β → Prop
  agree_pure : ∀ {α β : Type} {R : α → β → Prop} {a : α} {b : β}, R a b →
    agree R (pure a) (pure b)
  agree_bind : ∀ {α β γ δ : Type} {R : α → β → Prop} {S : γ → δ → Prop} {x : m α} {y : m' β}
    {f : α → m γ} {g : β → m' δ}, agree R x y → (∀ a b, R a b → agree S (f a) (g b)) →
      agree S (x >>= f) (y >>= g)
  agree_throw : ∀ {α β : Type} {R : α → β → Prop} (fault : RunFault),
    agree R (throw fault) (throw fault)

section
variable {ν ν' : Type} (R : ν → ν' → Prop)

/-- Matches correspond if they have one value and the nodes that they leave correspond. -/
inductive Match.Corresponds : Match ν → Match ν' → Prop
  | none : Corresponds none none
  | some (v : Value) {rest : List ν} {rest' : List ν'} :
    List.Forall₂ R rest rest' → Corresponds (some (v, rest)) (some (v, rest'))

/-- Searches correspond if their matches do, or if they have come to the same dead ends. -/
inductive Matcher.Found.Corresponds : Matcher.Found ν → Matcher.Found ν' → Prop
  | found (v : Value) {rest : List ν} {rest' : List ν'} :
    List.Forall₂ R rest rest' → Corresponds (.found v rest) (.found v rest')
  | exhausted (dead : List Nat) : Corresponds (.exhausted dead) (.exhausted dead)

end

namespace Pairing

variable {m m' : Type → Type} [Monad m] [Monad m'] [MonadExceptOf RunFault m]
  [MonadExceptOf RunFault m'] (J : Pairing m m') {ν ν' : Type} (R : ν → ν' → Prop)

/-- The matchers agree on nodes that correspond. -/
def Matchers (f : Matcher m ν) (f' : Matcher m' ν') : Prop :=
  ∀ nodes nodes', List.Forall₂ R nodes nodes' →
    J.agree (Match.Corresponds R) (f nodes) (f' nodes')

/-- The hosts agree on nodes that correspond. -/
structure Hosts (host : Host m ν) (host' : Host m' ν') : Prop where
  kind : ∀ n n', R n n' → host.kind n = host'.kind n'
  leaf : ∀ n n', R n n' → J.agree Eq (host.leaf n) (host'.leaf n')
  children : ∀ n n', R n n' → List.Forall₂ R (host.children n) (host'.children n')
  rule : ∀ name, J.Matchers R (host.rule name) (host'.rule name)
  given : ∀ code, J.Matchers R (host.given code) (host'.given code)
  around : host.around = host'.around

/-- The same names are bound, to matchers that agree. -/
def Envs (env : Env m ν) (env' : Env m' ν') : Prop :=
  ∀ name, Option.Rel (J.Matchers R) (env name) (env' name)

variable {J R}

theorem agree_none : J.agree (Match.Corresponds R) (pure none) (pure none) :=
  J.agree_pure .none

theorem agree_some (v : Value) {rest : List ν} {rest' : List ν'} (h : List.Forall₂ R rest rest') :
    J.agree (Match.Corresponds R) (pure (some (v, rest))) (pure (some (v, rest'))) :=
  J.agree_pure (.some v h)

theorem matchers_success : J.Matchers R .success .success :=
  fun _ _ h => agree_some _ h

theorem matchers_finish : J.Matchers R .finish .finish := by
  intro nodes nodes' h
  cases h with
  | nil => exact agree_some _ .nil
  | cons _ _ => exact agree_none

theorem matchers_throw (fault : RunFault) :
    J.Matchers R (fun _ => throw fault) fun _ => throw fault :=
  fun _ _ _ => J.agree_throw fault

theorem matchers_node {check : ν → m (Option Value)} {check' : ν' → m' (Option Value)}
    (h : ∀ n n', R n n' → J.agree Eq (check n) (check' n')) :
    J.Matchers R (.node check) (.node check') := by
  intro nodes nodes' hnodes
  cases hnodes with
  | nil => exact agree_none
  | cons hn hrest =>
    refine J.agree_bind (h _ _ hn) ?_
    rintro found _ rfl
    cases found with
    | none => exact agree_none
    | some v => exact agree_some v hrest

section
variable {element tail : Matcher m ν} {element' tail' : Matcher m' ν'}

theorem matchers_seq (he : J.Matchers R element element') (ht : J.Matchers R tail tail') :
    J.Matchers R (.seq element tail) (.seq element' tail') := by
  intro nodes nodes' hnodes
  refine J.agree_bind (he _ _ hnodes) ?_
  intro found found' hfound
  cases hfound with
  | none => exact agree_none
  | some v hrest =>
    refine J.agree_bind (ht _ _ hrest) ?_
    intro next next' hnext
    cases hnext with
    | none => exact agree_none
    | some w hleft => exact agree_some _ hleft

/-- Whether the tail is tried depends on the number of elements alone, and so does what a failure
adds to the dead ends. -/
theorem agree_searchEnd (ht : J.Matchers R tail tail') (least : Nat) {front : List ν}
    {front' : List ν'} (hfront : List.Forall₂ R front front') (values : List Value)
    (dead : List Nat) :
    J.agree (Matcher.Found.Corresponds R)
      (Matcher.search element tail least front [] values dead)
      (Matcher.search element' tail' least front' [] values dead) := by
  rw [Matcher.search, Matcher.search, hfront.length_eq]
  split
  · refine J.agree_bind (ht _ _ hfront) ?_
    intro found found' hfound
    cases hfound with
    | none => exact J.agree_pure (.exhausted _)
    | some v hrest => exact J.agree_pure (.found _ hrest)
  · exact J.agree_pure (.exhausted _)

theorem agree_search (he : J.Matchers R element element') (ht : J.Matchers R tail tail')
    (least : Nat) {front back : List ν} {front' back' : List ν'}
    (hfront : List.Forall₂ R front front') (hback : List.Forall₂ R back back')
    (values : List Value) (dead : List Nat) :
    J.agree (Matcher.Found.Corresponds R)
      (Matcher.search element tail least front back values dead)
      (Matcher.search element' tail' least front' back' values dead) := by
  -- The induction is on the nodes after those that the element is tried on.
  induction hback generalizing front front' values dead with
  | nil => exact agree_searchEnd ht least hfront values dead
  | @cons n n' back back' hn hback ih =>
    have hslice : List.Forall₂ R (front ++ [n]) (front' ++ [n']) :=
      List.rel_append hfront (.cons hn .nil)
    have hlonger := ih hslice values
    rw [Matcher.search, Matcher.search, hback.length_eq]
    split
    · exact hlonger dead
    · refine J.agree_bind (he _ _ hslice) ?_
      intro found found' hfound
      cases hfound with
      | none => exact hlonger dead
      | some v hrest =>
        cases hrest with
        | cons _ _ => exact hlonger dead
        | nil =>
          refine J.agree_bind (ih .nil (v :: values) dead) ?_
          intro next next' hnext
          cases hnext with
          | found w hleft => exact J.agree_pure (.found w hleft)
          | exhausted dead => exact hlonger dead

theorem matchers_repetition (least : Nat) (he : J.Matchers R element element')
    (ht : J.Matchers R tail tail') :
    J.Matchers R (.repetition least element tail) (.repetition least element' tail') := by
  intro nodes nodes' hnodes
  refine J.agree_bind (agree_search he ht least .nil hnodes [] []) ?_
  intro found found' hfound
  cases hfound with
  | found v hrest => exact agree_some v hrest
  | exhausted _ => exact agree_none

end

section
variable {host : Host m ν} {host' : Host m' ν'} {env : Env m ν} {env' : Env m' ν'}

theorem Hosts.leafMatcher (h : J.Hosts R host host') (kind : Label) :
    J.Matchers R (host.leafMatcher kind) (host'.leafMatcher kind) := by
  rw [Host.leafMatcher, Host.leafMatcher]
  split
  · apply matchers_node
    intro n n' hn
    rw [h.kind n n' hn]
    split
    · refine J.agree_bind (h.leaf n n' hn) ?_
      rintro v _ rfl
      exact J.agree_pure rfl
    · exact J.agree_pure rfl
  · exact matchers_throw _

theorem Hosts.nodeMatcher (h : J.Hosts R host host') (kind : Label) {f : Matcher m ν}
    {f' : Matcher m' ν'} (hf : J.Matchers R f f') :
    J.Matchers R (host.nodeMatcher kind f) (host'.nodeMatcher kind f') := by
  apply matchers_node
  intro n n' hn
  rw [h.kind n n' hn]
  split
  · refine J.agree_bind (hf _ _ (h.children n n' hn)) ?_
    intro found found' hfound
    cases hfound with
    | none => exact J.agree_pure rfl
    | some v _ => exact J.agree_pure rfl
  · exact J.agree_pure rfl

theorem envs_empty : J.Envs R .empty .empty :=
  fun _ => .none

theorem Envs.bind (h : J.Envs R env env') (name : Local) {f : Matcher m ν} {f' : Matcher m' ν'}
    (hf : J.Matchers R f f') : J.Envs R (env.bind name f) (env'.bind name f') := by
  intro other
  rw [Env.bind, Env.bind]
  split
  · exact .some hf
  · exact h other

theorem Hosts.regrouped (h : J.Hosts R host host') (pattern : Pattern) (result : Regrouped)
    (v : Value) : J.agree Eq (Code.regrouped host.around pattern result v)
      (Code.regrouped host'.around pattern result v) := by
  rw [Code.regrouped, Code.regrouped, h.around]
  split
  · exact J.agree_pure rfl
  · exact J.agree_throw _

/-- An expression means matchers that agree. -/
theorem Hosts.expr (h : J.Hosts R host host') (henv : J.Envs R env env') : (e : Expr) →
    J.Matchers R (e.meaning host env) (e.meaning host' env')
  | .success => matchers_success
  | .finish => matchers_finish
  | .ref name => by
    intro nodes nodes' hnodes
    have hname := henv name
    rw [Expr.meaning, Expr.meaning]
    dsimp only
    generalize env name = f at hname ⊢
    generalize env' name = f' at hname ⊢
    cases hname with
    | none => exact J.agree_throw _
    | some hf => exact hf nodes nodes' hnodes
  | .rule name => h.rule name
  | .leaf kind => h.leafMatcher kind
  | .seq element tail => matchers_seq (h.expr henv element) (h.expr henv tail)
  | .star element tail => matchers_repetition 0 (h.expr henv element) (h.expr henv tail)
  | .plus element tail => matchers_repetition 1 (h.expr henv element) (h.expr henv tail)
  | .node kind children => h.nodeMatcher kind (h.expr henv children)
  | .given code => h.given code

/-- A block means matchers that agree: of two runs of it each does what the other one does. -/
theorem Hosts.block (h : J.Hosts R host host') {env : Env m ν} {env' : Env m' ν'}
    (henv : J.Envs R env env') : (b : Block) →
    J.Matchers R (b.meaning host env) (b.meaning host' env')
  | .define name body next => h.block (henv.bind name (h.block henv body)) next
  | .bind name value next => h.block (henv.bind name (h.expr henv value)) next
  | .attempt matcher next => by
    intro nodes nodes' hnodes
    refine J.agree_bind (h.expr henv matcher nodes nodes' hnodes) ?_
    intro found found' hfound
    cases hfound with
    | none => exact h.block henv next nodes nodes' hnodes
    | some v hrest => exact agree_some v hrest
  | .ret matcher => h.expr henv matcher
  | .regroup matcher pattern result => by
    intro nodes nodes' hnodes
    refine J.agree_bind (h.expr henv matcher nodes nodes' hnodes) ?_
    intro found found' hfound
    cases hfound with
    | none => exact agree_none
    | some v hrest =>
      refine J.agree_bind (h.regrouped pattern result v) ?_
      rintro w _ rfl
      exact agree_some w hrest
  | .insert _ next => h.block henv next
  | .given code => h.given code

end

end Pairing

end TreeGrammar
