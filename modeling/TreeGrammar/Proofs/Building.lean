import Mathlib.Data.List.Basic
import TreeGrammar.Code.Arrangement
import TreeGrammar.Proofs.Execution
import TreeGrammar.Proofs.Making

/-!
Code that is built from bodies and continuations where the names of some code around it are visible.
Whatever the steps are, the code can be read, it uses no name but visible ones and those that it
binds before, and the names that it binds are new and differ from each other. The induction is on
the steps; a step that compiles keeps this because of what it adds.
-/
namespace TreeGrammar.Code

open Continuation (prependWith flattenHead orEnd)

namespace Joint

theorem readable_expr {a b : Expr} : (j : Joint) → a.Readable → b.Readable → (j.expr a b).Readable
  | seq | star | plus => And.intro

theorem laidOut_expr {a b : Expr} {pieces : List Piece} : (j : Joint) →
    ((j.expr a b).LaidOut pieces ↔
      ∃ first second, a.LaidOut first ∧ b.LaidOut second ∧ Applied j.func [first, second] pieces)
  | seq | star | plus => Iff.rfl

theorem bound_expr (j : Joint) (a b : Expr) : (j.expr a b).items.filterMap Item.bound? = [] :=
  (j.expr a b).bound_items

end Joint

def Fragment.bound (code : Fragment) : List Local :=
  code.items.filterMap Item.bound?

/-- Code that is built where some names are visible, and the last number that is given by then. -/
inductive Built (visible : List Local) : Nat → Fragment → Prop where
  /-- A matcher of visible names, rules and kinds of nodes. -/
  | expr {n : Nat} {e : Expr} (hv : ∀ x ∈ visible, x.id ≤ n) (hr : e.Readable)
      (hn : e.names ⊆ visible) : Built visible n (.ofExpr e)
  /-- Other code is made after it. -/
  | later {n l : Nat} {code : Fragment} (h : Built visible n code) (hl : n ≤ l) :
      Built visible l code
  | asFun {n l : Nat} {code : Fragment} {t : Term} (h : Built visible n code)
      (ht : Makes code.toTerm n t l) : Built visible l (.term t)
  | asBody {n : Nat} {code : Fragment} (h : Built visible n code) :
      Built visible n (.block code.toBlock)
  /-- The application of a combinator to matchers whose definitions are not the same. -/
  | join {n : Nat} {a b t : Term} (j : Joint) (ha : Built visible n (.term a))
      (hb : Built visible n (.term b)) (hab : ∀ x ∈ (Fragment.term a).bound,
        x ∉ (Fragment.term b).bound) (ht : Term.join j.expr a b = .ok t) :
      Built visible n (.term t)
  /-- The matcher of nodes of a kind whose children another one accepts. -/
  | node {n : Nat} {a t : Term} {kind : Label} (ha : Built visible n (.term a)) (hk : kind.IsText)
      (ht : Term.joined (.node kind a.expr) a.defs = .ok t) : Built visible n (.term t)
  | prepend {n l : Nat} {element : Term} {next : Option Continuation} {k : Continuation} (j : Joint)
      (he : Built visible n (.term element)) (hn : Built visible n (orEnd next).code)
      (hen : ∀ x ∈ (Fragment.term element).bound, x ∉ (orEnd next).code.bound)
      (hk : Makes (prependWith j.expr element next) n k l) : Built visible l k.code
  /-- A body in front of a continuation. -/
  | compile {n l : Nat} {body : Body} {next : Option Continuation} {k : Continuation}
      (hn : Built visible n (orEnd next).code) (hr : ∀ x ∈ body.items, x.Readable)
      (hk : Makes (compile next body) n k l) : Built visible l k.code
  /-- Bodies in front of a continuation, their results taken together and marked. -/
  | group {n l : Nat} {wrap : Wrap} {bodies : List Body} {next : Option Continuation}
      {k : Continuation} (hn : Built visible n (orEnd next).code) (hw : wrap.Readable)
      (hr : ∀ x ∈ Body.itemsOf bodies, x.Readable)
      (hk : Makes (compileGroup wrap next bodies) n k l) : Built visible l k.code
  /-- The first results of a continuation taken together. -/
  | flatten {n l : Nat} {count : Int} {wrap : Wrap} {next next' : Option Continuation}
      (hn : Built visible n (orEnd next).code) (hw : wrap.Readable)
      (hk : Makes (flattenHead count next wrap) n next' l) : Built visible l (orEnd next').code

/-- Code that can be placed where some names are visible: it can be read, and names mean what they
should. -/
structure Sound (visible : List Local) (n : Nat) (code : Fragment) : Prop where
  readable : code.Readable
  uses : code.ScopedIn visible
  nodup : code.bound.Nodup
  apart : ∀ x ∈ code.bound, x ∉ visible
  taken : ∀ x ∈ code.bound, x.id ≤ n
  below : ∀ x ∈ visible, x.id ≤ n

theorem id_le_of_mem_itemsAfter {n : Nat} {purposes : List Purpose} {x : Item} {name : Local}
    (h : x ∈ itemsAfter n purposes) (hb : x.bound? = some name) :
    name.id ≤ n + purposes.length := by
  induction purposes generalizing n with
  | nil => cases h
  | cons purpose rest ih =>
    rw [List.length_cons]
    rcases List.mem_append.mp h with h | h
    · obtain ⟨other, hother, hid⟩ := bound?_of_mem_items h
      cases hother.symm.trans hb
      omega
    · have hle := ih h
      omega

section
variable {visible : List Local} {n l : Nat} {old new code : Fragment} {added : List Item}
  {choices : List Nat}

/-- The names that new code binds are those of the old code and new ones. -/
theorem Extends.bound_perm (h : Extends n old added choices new l)
    (ha : ∀ x ∈ added, x.bound? = none) : ∃ purposes : List Purpose, l = n + purposes.length ∧
      new.bound.Perm (old.bound ++ (itemsAfter n purposes).filterMap Item.bound?) := by
  obtain ⟨purposes, hl, hitems, -⟩ := h.grows
  have hperm : new.items.Perm (old.items ++ added ++ itemsAfter n purposes) := by
    rw [List.perm_iff_count]
    intro x
    rw [hitems x, List.count_append, List.count_append]
  have hadded : added.filterMap Item.bound? = [] := List.filterMap_eq_nil_iff.mpr ha
  refine ⟨purposes, hl, ?_⟩
  have hbound := hperm.filterMap Item.bound?
  rwa [List.filterMap_append, List.filterMap_append, hadded, List.append_nil] at hbound

theorem Sound.mono (h : Sound visible n code) (hl : n ≤ l) : Sound visible l code :=
  { h with
    taken := fun x hx => (h.taken x hx).trans hl
    below := fun x hx => (h.below x hx).trans hl }

/-- A step that gives names new numbers keeps code sound. -/
theorem Sound.extends (h : Sound visible n old) (he : Extends n old added choices new l)
    (hb : ∀ x ∈ added, x.bound? = none) (hr : ∀ x ∈ added, x.Readable) : Sound visible l new := by
  obtain ⟨purposes, rfl, hperm⟩ := he.bound_perm hb
  -- The old names have numbers up to `n`, and those of the new ones are greater.
  have hold : ∀ x ∈ old.bound, x ∉ visible ∧ x.id ≤ n := fun x hx => ⟨h.apart x hx, h.taken x hx⟩
  have hnew : ∀ x ∈ (itemsAfter n purposes).filterMap Item.bound?,
      n < x.id ∧ x.id ≤ n + purposes.length := by
    intro x hx
    obtain ⟨item, hitem, hbound⟩ := List.mem_filterMap.mp hx
    obtain ⟨name, hname, hlt⟩ := bound?_of_mem_itemsAfter hitem
    cases hname.symm.trans hbound
    exact ⟨hlt, id_le_of_mem_itemsAfter hitem hbound⟩
  have hmem (x : Local) (hx : x ∈ new.bound) := List.mem_append.mp (hperm.mem_iff.mp hx)
  refine ⟨he.reads hr h.readable, he.uses visible h.uses, hperm.nodup_iff.mpr ?_, fun x hx => ?_,
    fun x hx => ?_, fun x hx => ?_⟩
  · refine h.nodup.append (nodup_bound_itemsAfter n purposes) ?_
    intro x hx hx'
    have hle := (hold x hx).2
    have hlt := (hnew x hx').1
    omega
  · rcases hmem x hx with hx | hx
    · exact (hold x hx).1
    · intro hv
      have hle := h.below x hv
      have hlt := (hnew x hx).1
      omega
  · rcases hmem x hx with hx | hx
    · have hle := (hold x hx).2
      omega
    · exact (hnew x hx).2
  · have hle := h.below x hx
    omega

theorem Term.joined_of_closed {j : Joint} {a b : Term} (ha : a.expr.Closed) (hb : b.expr.Closed) :
    Term.join j.expr a b = .ok ⟨j.expr a.expr b.expr, a.defs ++ b.defs⟩ := by
  rw [Term.join, Term.joined, j.joins.fault ha hb]

theorem Expr.closed_of_readable {e : Expr} (h : e.Readable) : e.Closed := by
  cases e with
  | seq a b | star a b | plus a b | node kind children => exact openEnd?_application _ _
  | given code => exact h.elim
  | _ => rfl

theorem Fragment.bound_joined (j : Joint) (a b : Term) :
    (Fragment.term ⟨j.expr a.expr b.expr, a.defs ++ b.defs⟩).bound.Perm
      ((Fragment.term a).bound ++ (Fragment.term b).bound) := by
  simp only [Fragment.bound, Fragment.items, Term.items, List.flatMap_append, List.filterMap_append,
    j.bound_expr, Expr.bound_items, List.append_nil]
  exact List.Perm.refl _

theorem Sound.joined {a b : Term} (j : Joint) (ha : Sound visible n (.term a))
    (hb : Sound visible n (.term b))
    (hab : ∀ x ∈ (Fragment.term a).bound, x ∉ (Fragment.term b).bound) :
    Sound visible n (.term ⟨j.expr a.expr b.expr, a.defs ++ b.defs⟩) := by
  obtain ⟨hdefs, hexpr⟩ := (Fragment.readable_term a).mp ha.readable
  obtain ⟨hdefs', hexpr'⟩ := (Fragment.readable_term b).mp hb.readable
  have hperm := Fragment.bound_joined j a b
  have hmem (x : Local) (hx : x ∈ _) := List.mem_append.mp (hperm.mem_iff.mp hx)
  refine ⟨(Fragment.readable_term _).mpr ⟨List.forall_mem_append.mpr ⟨hdefs, hdefs'⟩,
    j.readable_expr hexpr hexpr'⟩, ?_, hperm.nodup_iff.mpr ?_, fun x hx => ?_, fun x hx => ?_,
    ha.below⟩
  · have hnames : (j.expr a.expr b.expr).names ⊆ a.expr.names ++ b.expr.names := by
      rw [j.joins.names]
      exact List.Subset.refl _
    exact (Fragment.scopedIn_term _).mpr (((Fragment.scopedIn_term a).mp ha.uses).joined
      ((Fragment.scopedIn_term b).mp hb.uses) hnames)
  · exact ha.nodup.append hb.nodup fun x hx => hab x hx
  · exact (hmem x hx).elim (ha.apart x) (hb.apart x)
  · exact (hmem x hx).elim (ha.taken x) (hb.taken x)

theorem bound?_of_mem_added {x : Item} {body : Body} (h : x ∈ body.items) : x.bound? = none :=
  (bound?_of_mem_body body h).1

/-- Whatever is built is sound. -/
theorem Built.sound (h : Built visible n code) : Sound visible n code := by
  induction h with
  | @expr n e hv hr hn =>
    have hbound : (Fragment.ofExpr e).bound = [] := e.bound_items
    have hmem (x : Local) (hx : x ∈ (Fragment.ofExpr e).bound) : False := by
      rw [hbound] at hx
      cases hx
    exact ⟨hr, hn, hbound ▸ List.nodup_nil, fun x hx => (hmem x hx).elim,
      fun x hx => (hmem x hx).elim, hv⟩
  | later h hl ih => exact ih.mono hl
  | asFun h ht ih =>
    exact ih.extends (extends_toTerm ht) (fun x hx => by cases hx) (fun x hx => by cases hx)
  | @asBody n code h ih =>
    have hbound : (Fragment.block code.toBlock).bound = code.bound :=
      congrArg (List.filterMap Item.bound?) code.items_toBlock
    exact ⟨ih.readable, ih.uses, hbound ▸ ih.nodup, hbound ▸ ih.apart, hbound ▸ ih.taken, ih.below⟩
  | join j ha hb hab ht iha ihb =>
    rw [Term.joined_eq_ok ht]
    exact iha.joined j ihb hab
  | node ha hk ht ih =>
    rw [Term.joined_eq_ok ht]
    obtain ⟨hdefs, hexpr⟩ := (Fragment.readable_term _).mp ih.readable
    have hscoped := (Fragment.scopedIn_term _).mp ih.uses
    exact ⟨(Fragment.readable_term _).mpr ⟨hdefs, hk, hexpr⟩,
      (Fragment.scopedIn_term _).mpr hscoped, ih.nodup, ih.apart, ih.taken, ih.below⟩
  | prepend j he hn hen hk ihe ihn =>
    obtain ⟨t, ht, hcode⟩ := makes_prependWith_inv hk
    rw [hcode]
    have hext := extends_toTerm ht
    obtain ⟨purposes, rfl, hperm⟩ := hext.bound_perm (fun x hx => by cases hx)
    have hsound := ihn.extends hext (fun x hx => by cases hx) (fun x hx => by cases hx)
    refine (ihe.mono (Nat.le_add_right _ _)).joined j hsound fun x hx hx' => ?_
    -- A name for the continuation is newer than those of the element.
    rcases List.mem_append.mp (hperm.mem_iff.mp hx') with hx' | hx'
    · exact hen x hx hx'
    · obtain ⟨item, hitem, hbound⟩ := List.mem_filterMap.mp hx'
      obtain ⟨name, hname, hlt⟩ := bound?_of_mem_itemsAfter hitem
      cases hname.symm.trans hbound
      have hle := ihe.taken x hx
      omega
  | compile hn hr hk ih =>
    exact ih.extends ((adds _).1 _ _ _ _ hk) (fun x hx => bound?_of_mem_added hx) hr
  | group hn hw hr hk ih =>
    exact ih.extends (extends_compileGroup hw (fun b _ => (adds b).1) hk)
      (fun x hx => (bound?_of_mem_bodies _ hx).1) hr
  | flatten hn hw hk ih =>
    rcases makes_flattenHead_inv hk with ⟨-, rfl, rfl⟩ | ⟨-, whole, flat, rfl, rfl, hkept, hregroup⟩
    · exact ih
    · exact ih.extends (extends_regroup hw hkept hregroup) (fun x hx => by cases hx)
        (fun x hx => by cases hx)

end

end TreeGrammar.Code
