import Mathlib.Data.List.Basic
import TreeGrammar.Proofs.Alternatives

/-!
Where names are used. A function sees the names that are bound around it before its definition, and
the statements of a block see those that are bound by the statements before them. More names around
it do code no harm.
-/
namespace TreeGrammar.Code

/-- Every name that a block uses is among the visible ones, or it is bound before the place of use
in the same function or in a function around it. -/
def Block.ScopedIn (visible : List Local) : Block → Prop
  | define name body next => body.ScopedIn visible ∧ next.ScopedIn (name :: visible)
  | bind name value next => value.names ⊆ visible ∧ next.ScopedIn (name :: visible)
  | attempt matcher next => matcher.names ⊆ visible ∧ next.ScopedIn visible
  | ret matcher => matcher.names ⊆ visible
  | regroup matcher _ _ => matcher.names ⊆ visible
  | insert _ next => next.ScopedIn visible
  | given _ => True

/-- Each definition uses names that are visible or bound by a definition before it. -/
def DefsScopedIn (visible : List Local) : List Def → Prop
  | [] => True
  | .function name body :: defs => body.ScopedIn visible ∧ DefsScopedIn (name :: visible) defs
  | .given _ :: defs => DefsScopedIn visible defs

/-- The names that some definitions bind, last one first. -/
def boundBy : List Def → List Local
  | [] => []
  | .function name _ :: defs => boundBy defs ++ [name]
  | .given _ :: defs => boundBy defs

def Term.ScopedIn (visible : List Local) (t : Term) : Prop :=
  DefsScopedIn visible t.defs ∧ t.expr.names ⊆ boundBy t.defs ++ visible

def Fragment.ScopedIn (visible : List Local) (code : Fragment) : Prop :=
  code.toBlock.ScopedIn visible

variable {visible more : List Local}

theorem Block.ScopedIn.mono {b : Block} (h : b.ScopedIn visible) (hm : visible ⊆ more) :
    b.ScopedIn more := by
  induction b generalizing visible more with
  | define name body next ihb ihn =>
    exact ⟨ihb h.1 hm, ihn h.2 (List.cons_subset_cons name hm)⟩
  | bind name value next ih =>
    exact ⟨List.Subset.trans h.1 hm, ih h.2 (List.cons_subset_cons name hm)⟩
  | attempt matcher next ih => exact ⟨List.Subset.trans h.1 hm, ih h.2 hm⟩
  | ret matcher => exact List.Subset.trans h hm
  | regroup matcher pattern result => exact List.Subset.trans h hm
  | insert code next ih => exact ih h hm
  | given code => exact trivial

theorem Block.scopedIn_after (defs : List Def) (b : Block) :
    (b.after defs).ScopedIn visible ↔
      DefsScopedIn visible defs ∧ b.ScopedIn (boundBy defs ++ visible) := by
  induction defs generalizing visible with
  | nil => simp [after, DefsScopedIn, boundBy]
  | cons d defs ih =>
    cases d with
    | function name body =>
      have hnames : boundBy (.function name body :: defs) ++ visible =
          boundBy defs ++ (name :: visible) := by simp [boundBy]
      rw [hnames, DefsScopedIn, and_assoc, ← ih]
      rfl
    | given code => exact ih

theorem Fragment.scopedIn_term (t : Term) :
    (Fragment.term t).ScopedIn visible ↔ t.ScopedIn visible :=
  Block.scopedIn_after t.defs (.ret t.expr)

theorem DefsScopedIn.mono {defs : List Def} (h : DefsScopedIn visible defs)
    (hm : visible ⊆ more) : DefsScopedIn more defs := by
  induction defs generalizing visible more with
  | nil => trivial
  | cons d defs ih =>
    cases d with
    | function name body => exact ⟨h.1.mono hm, ih h.2 (List.cons_subset_cons name hm)⟩
    | given code => exact ih h hm

theorem boundBy_append (defs defs' : List Def) :
    boundBy (defs ++ defs') = boundBy defs' ++ boundBy defs := by
  induction defs with
  | nil => simp [boundBy]
  | cons d defs ih => cases d <;> simp [boundBy, ih]

theorem defsScopedIn_append {defs defs' : List Def} :
    DefsScopedIn visible (defs ++ defs') ↔
      DefsScopedIn visible defs ∧ DefsScopedIn (boundBy defs ++ visible) defs' := by
  induction defs generalizing visible with
  | nil => simp [DefsScopedIn, boundBy]
  | cons d defs ih =>
    cases d with
    | function name body => simp [DefsScopedIn, boundBy, ih, and_assoc]
    | given code => simpa [DefsScopedIn, boundBy] using ih

/-- Two terms put together see the definitions of both. -/
theorem Term.ScopedIn.joined {a b : Term} {expr : Expr} (ha : a.ScopedIn visible)
    (hb : b.ScopedIn visible) (hn : expr.names ⊆ a.expr.names ++ b.expr.names) :
    (Term.mk expr (a.defs ++ b.defs)).ScopedIn visible := by
  constructor
  · have hmore : visible ⊆ boundBy a.defs ++ visible := List.subset_append_right _ _
    exact defsScopedIn_append.mpr ⟨ha.1, hb.1.mono hmore⟩
  · intro x hx
    rw [boundBy_append, List.append_assoc, List.mem_append, List.mem_append]
    rcases List.mem_append.mp (hn hx) with hx | hx
    · exact .inr (List.mem_append.mp (ha.2 hx))
    · exact (List.mem_append.mp (hb.2 hx)).imp_right .inr

theorem Block.scopedIn_bindTerm {name : Local} {t : Term} {next : Block} (ht : t.ScopedIn visible)
    (hn : next.ScopedIn (name :: (boundBy t.defs ++ visible))) :
    (bindTerm name t next).ScopedIn visible :=
  (scopedIn_after t.defs (.bind name t.expr next)).mpr ⟨ht.1, ht.2, hn⟩

/-- Alternatives may use what is visible around the choice, and the statements that try them use
the names of all. -/
theorem Block.scopedIn_alternatives {alternatives : List Alternative} {tries : Block}
    (ha : ∀ a ∈ alternatives, a.2.ScopedIn visible)
    (ht : tries.ScopedIn ((alternatives.map Prod.fst).reverse ++ visible)) :
    (tries.after (alternativeDefs alternatives)).ScopedIn visible := by
  induction alternatives generalizing visible with
  | nil => exact ht
  | cons a rest ih =>
    refine ⟨ha a List.mem_cons_self, ih (fun b hb => ?_) ?_⟩
    · exact (ha b (List.mem_cons_of_mem a hb)).mono (List.subset_cons_self a.1 visible)
    · rwa [List.map_cons, List.reverse_cons, List.append_assoc] at ht

section
variable {m : Type → Type} [Monad m] [MonadExceptOf RunFault m] {ν : Type} {host : Host m ν}
  {env env' : Env m ν}

omit [Monad m] [MonadExceptOf RunFault m] in
/-- A new name means the same where it is bound to the same, whatever it was before. -/
theorem Env.bind_congr_cons (name : Local) {f g : Matcher m ν} (hf : f = g)
    (h : ∀ x ∈ visible, env x = env' x) :
    ∀ x ∈ name :: visible, env.bind name f x = env'.bind name g x := by
  intro x hx
  rw [Env.bind, Env.bind, hf]
  split
  · rfl
  · rename_i hne
    exact h x ((List.mem_cons.mp hx).resolve_left hne)

/-- A block means the same wherever the names that are visible to it do. -/
theorem Block.meaning_of_scopedIn (host : Host m ν) {b : Block} (h : b.ScopedIn visible)
    (he : ∀ x ∈ visible, env x = env' x) : b.meaning host env = b.meaning host env' := by
  induction b generalizing visible env env' with
  | define name body next ihb ihn => exact ihn h.2 (Env.bind_congr_cons name (ihb h.1 he) he)
  | bind name value next ih =>
    have hvalue := value.meaning_congr host fun x hx => he x (h.1 hx)
    exact ih h.2 (Env.bind_congr_cons name hvalue he)
  | attempt matcher next ih =>
    have hmatcher := matcher.meaning_congr host fun x hx => he x (h.1 hx)
    have hnext := ih h.2 he
    funext nodes
    rw [meaning, meaning, hmatcher, hnext]
  | ret matcher => exact matcher.meaning_congr host fun x hx => he x (h hx)
  | regroup matcher pattern result =>
    have hmatcher := matcher.meaning_congr host fun x hx => he x (h hx)
    funext nodes
    rw [meaning, meaning, hmatcher]
  | insert code next ih => exact ih h he
  | given code => rfl

/-- Definitions leave other names as they are. -/
theorem Env.extend_of_notMem_boundBy (defs : List Def) {x : Local} (hx : x ∉ boundBy defs) :
    env.extend host defs x = env x := by
  induction defs generalizing env with
  | nil => rfl
  | cons d defs ih =>
    cases d with
    | function name body =>
      rw [boundBy, List.mem_append, List.mem_singleton, not_or] at hx
      exact (ih hx.1).trans (if_neg hx.2)
    | given code => exact ih hx

/-- Terms whose definitions bind different names, none of them a visible one, keep their meanings
after the definitions of both. -/
theorem Term.meaning_beside (host : Host m ν) (env : Env m ν) {a b : Term}
    (ha : a.ScopedIn visible) (hb : b.ScopedIn visible)
    (hva : ∀ x ∈ boundBy a.defs, x ∉ visible) (hvb : ∀ x ∈ boundBy b.defs, x ∉ visible)
    (hab : ∀ x ∈ boundBy a.defs, x ∉ boundBy b.defs) :
    a.expr.meaning host (env.extend host (a.defs ++ b.defs)) = a.meaning host env ∧
      b.expr.meaning host (env.extend host (a.defs ++ b.defs)) = b.meaning host env := by
  rw [Env.extend_append]
  constructor
  · apply Expr.meaning_congr
    intro x hx
    apply Env.extend_of_notMem_boundBy
    rcases List.mem_append.mp (ha.2 hx) with hx | hx
    · exact hab x hx
    · exact fun hmem => hvb x hmem hx
  · have hvisible : ∀ x ∈ visible, env.extend host a.defs x = env x :=
      fun x hx => Env.extend_of_notMem_boundBy a.defs fun hmem => hva x hmem hx
    have hscoped : (Fragment.term b).ScopedIn visible := (Fragment.scopedIn_term b).mpr hb
    have hmeaning := Block.meaning_of_scopedIn host hscoped hvisible
    rwa [← Fragment.meaning, ← Fragment.meaning, Fragment.meaning_term, Fragment.meaning_term]
      at hmeaning

end

end TreeGrammar.Code
