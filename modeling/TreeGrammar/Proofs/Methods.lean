import Mathlib.Data.List.Forall2
import TreeGrammar.Code.Module
import TreeGrammar.Proofs.Bodies

/-!
The methods of rules. A grammar without faults whose symbols are texts is always compiled, and the
method of each rule matches a node of the kind of the rule whose children have a complete result.
-/
namespace TreeGrammar

namespace Body

mutual

/-- A body without faults has no empty group. -/
theorem grouped_of_fault {names : List Label} {rule : Label} :
    (body : Body) → fault names rule body = none → body.Grouped
  | symbol _, _ | literal _, _ | pattern _, _ | blank, _ => trivial
  | star body, h | plus body, h => grouped_of_fault body h
  | choice [], h | seq [], h => by simp [fault] at h
  | choice (body :: rest), h | seq (body :: rest), h => by
    obtain ⟨hb, hr⟩ := Option.or_eq_none_iff.mp h
    exact ⟨List.cons_ne_nil body rest, grouped_of_fault body hb, groupedAll_of_faultIn rest hr⟩

theorem groupedAll_of_faultIn {names : List Label} {rule : Label} :
    (bodies : List Body) → faultIn names rule bodies = none → GroupedAll bodies
  | [], _ => trivial
  | body :: rest, h => by
    obtain ⟨hb, hr⟩ := Option.or_eq_none_iff.mp h
    exact ⟨grouped_of_fault body hb, groupedAll_of_faultIn rest hr⟩

end

mutual

/-- The rules that a body without faults relies on are rules of its grammar. -/
theorem isAmong_of_fault {names : List Label} {rule name : Label} :
    (body : Body) → fault names rule body = none → .rule name ∈ body.needs →
      Label.isAmong names name
  | symbol other, h, hm => by
    cases List.mem_singleton.mp hm
    by_contra hn
    simp [fault, hn] at h
  | literal _, _, hm | pattern _, _, hm => by cases List.mem_singleton.mp hm
  | star body, h, hm | plus body, h, hm => isAmong_of_fault body h hm
  | choice [], _, hm | seq [], _, hm => by cases hm
  | choice (body :: rest), h, hm | seq (body :: rest), h, hm => by
    obtain ⟨hb, hr⟩ := Option.or_eq_none_iff.mp h
    rcases List.mem_append.mp hm with hm | hm
    · exact isAmong_of_fault body hb hm
    · exact isAmong_of_faultIn rest hr hm

theorem isAmong_of_faultIn {names : List Label} {rule name : Label} :
    (bodies : List Body) → faultIn names rule bodies = none → .rule name ∈ needsOf bodies →
      Label.isAmong names name
  | [], _, hm => by cases hm
  | body :: rest, h, hm => by
    obtain ⟨hb, hr⟩ := Option.or_eq_none_iff.mp h
    rcases List.mem_append.mp hm with hm | hm
    · exact isAmong_of_fault body hb hm
    · exact isAmong_of_faultIn rest hr hm

end

end Body

namespace Grammar

theorem fault_of_check {g : Grammar} (h : g.check = .ok ()) : g.fault = none := by
  unfold check at h
  split at h
  · cases h
  · assumption

theorem body_fault_of_check {g : Grammar} (h : g.check = .ok ()) {rule : Rule}
    (hr : rule ∈ g.rules) : rule.body.fault g.names rule.name = none := by
  have hf := fault_of_check h
  unfold fault at hf
  split at hf
  · exact List.findSome?_eq_none_iff.mp hf rule hr
  · cases hf

theorem entrypoint_of_check {g : Grammar} (h : g.check = .ok ()) :
    Label.isAmong g.names g.entrypoint := by
  have hf := fault_of_check h
  unfold fault at hf
  split at hf
  · assumption
  · cases hf

end Grammar

namespace Code

theorem makes_bind_inv {α β : Type} {x : Gen α} {f : α → Gen β} {n l : Nat} {b : β}
    (h : Makes (x >>= f) n b l) : ∃ a k, Makes x n a k ∧ Makes (f a) k b l := by
  unfold Makes at h ⊢
  rw [ExceptT.run_bind, StateT.run_bind] at h
  rcases hx : x.run.run n with ⟨e | a, k⟩
  · rw [hx] at h
    cases h
  · rw [hx] at h
    exact ⟨a, k, rfl, h⟩

theorem Makes.unique {α : Type} {x : Gen α} {n k k' : Nat} {a a' : α} (h : Makes x n a k)
    (h' : Makes x n a' k') : a = a' ∧ k = k' := by
  unfold Makes at h h'
  rw [h] at h'
  cases h'
  exact ⟨rfl, rfl⟩

/-- The method of a rule: a leaf rule matches a leaf, any other rule a node with a complete result
for its children. -/
structure MethodOf (rule : Rule) (method : Method) : Prop where
  short : rule.short.isSome
  name : method.rule = rule.name
  leaf : rule.isLeaf → ∀ {m : Type → Type} [Monad m] [MonadExceptOf RunFault m] {ν : Type}
    (host : Host m ν) (env : Env m ν),
      method.block.meaning host env = host.leafMatcher rule.name
  node : ¬ rule.isLeaf → ∃ children : Term, (∀ {m : Type → Type} [Monad m]
    [MonadExceptOf RunFault m] {ν : Type} (host : Host m ν) (env : Env m ν),
      method.block.meaning host env = host.nodeMatcher rule.name (children.meaning host env)) ∧
    ∀ {m : Type → Type} [Monad m] [MonadExceptOf RunFault m] {μ ν : Type}
      (I : Interpretation m μ ν) (env : Env m ν), I.Meets rule.body.needs →
        I.judgement.Answers I.place (children.meaning I.host env) fun nodes =>
          (complete (rule.body.results I.read nodes)).map fun v => (v, [])

/-- A rule with a short form is compiled to its method. -/
theorem exists_compileRule {rule : Rule} (hg : rule.body.Grouped) {text : String}
    (hs : rule.short = some text) (n : Nat) :
    ∃ method k, Makes (compileRule rule) n method k ∧ MethodOf rule method := by
  have hcomment : Makes (commentOf rule) n (Text.onOneLine text) n := by
    rw [commentOf, hs]
    exact makes_pure _ n
  have hshort : rule.short.isSome := by
    rw [hs]
    rfl
  by_cases hl : rule.isLeaf
  · have hblock : Makes (compileBlock rule) n (.ret (.leaf rule.name)) n := by
      rw [compileBlock, if_pos hl]
      exact makes_pure _ n
    refine ⟨_, n, makes_bind hcomment (makes_bind hblock (makes_pure _ n)), hshort, rfl, ?_, ?_⟩
    · exact fun _ _ _ _ _ host env => rfl
    · exact fun h => absurd hl h
  · obtain ⟨children, k, hchildren, hw⟩ :=
      exists_whole (compiles rule.body hg).1 (rfl : Continuation.orEnd (some .atEnd) = .atEnd) n
    have hjoined : Term.joined (.node rule.name children.expr) children.defs =
        .ok ⟨.node rule.name children.expr, children.defs⟩ := by
      have hfault : (Expr.node rule.name children.expr).fault? = none :=
        applicationFault?_pair rfl hw.closed
      rw [Term.joined, hfault]
    have hblock : Makes (compileBlock rule) n
        ((Block.ret (.node rule.name children.expr)).after children.defs) k := by
      rw [compileBlock, if_neg hl]
      exact makes_bind hchildren (makes_bind (makes_lift hjoined k) (makes_pure _ k))
    refine ⟨_, k, makes_bind hcomment (makes_bind hblock (makes_pure _ k)), hshort, rfl, ?_, ?_⟩
    · exact fun h => absurd h hl
    · refine fun _ => ⟨children, ?_, ?_⟩
      · intro m _ _ ν host env
        exact Block.meaning_after _ _
      · intro m _ _ μ ν I env hneeds
        exact hw.answers I env hneeds

theorem methodOf_of_makes {rule : Rule} (hg : rule.body.Grouped) {method : Method} {n k : Nat}
    (h : Makes (compileRule rule) n method k) : MethodOf rule method := by
  rcases hs : rule.short with _ | text
  · obtain ⟨_, _, hcomment, _⟩ := makes_bind_inv h
    rw [commentOf, hs] at hcomment
    cases hcomment
  · obtain ⟨other, l, hother, hmethod⟩ := exists_compileRule hg hs n
    obtain ⟨rfl, -⟩ := h.unique hother
    exact hmethod

theorem exists_compileRules {rules : List Rule} (hg : ∀ rule ∈ rules, rule.body.Grouped)
    (hs : ∀ rule ∈ rules, rule.short.isSome) (n : Nat) :
    ∃ methods k, Makes (rules.mapM compileRule) n methods k := by
  induction rules generalizing n with
  | nil => exact ⟨[], n, makes_pure _ n⟩
  | cons rule rest ih =>
    obtain ⟨text, ht⟩ := Option.isSome_iff_exists.mp (hs rule List.mem_cons_self)
    obtain ⟨method, k, hmethod, -⟩ := exists_compileRule (hg rule List.mem_cons_self) ht n
    obtain ⟨methods, l, hmethods⟩ := ih (fun r hr => hg r (List.mem_cons_of_mem rule hr))
      (fun r hr => hs r (List.mem_cons_of_mem rule hr)) k
    refine ⟨method :: methods, l, ?_⟩
    rw [List.mapM_cons]
    exact makes_bind hmethod (makes_bind hmethods (makes_pure _ l))

theorem methodsOf_of_makes {rules : List Rule} (hg : ∀ rule ∈ rules, rule.body.Grouped)
    {methods : List Method} {n k : Nat} (h : Makes (rules.mapM compileRule) n methods k) :
    List.Forall₂ MethodOf rules methods := by
  induction rules generalizing methods n k with
  | nil =>
    cases h
    exact .nil
  | cons rule rest ih =>
    rw [List.mapM_cons] at h
    obtain ⟨method, l, hmethod, hrest⟩ := makes_bind_inv h
    obtain ⟨others, l', hothers, hall⟩ := makes_bind_inv hrest
    obtain ⟨rfl, -⟩ := hall.unique (makes_pure _ l')
    exact .cons (methodOf_of_makes (hg rule List.mem_cons_self) hmethod)
      (ih (fun r hr => hg r (List.mem_cons_of_mem rule hr)) hothers)

/-- The module of a grammar has the entrypoint and the extras of the grammar, and the methods of
its rules. -/
structure ModuleOf (g : Grammar) (module : Module) : Prop where
  entrypoint : module.entrypoint = g.entrypoint
  extras : module.extras = g.extras
  methods : List.Forall₂ MethodOf g.rules module.methods

theorem ModuleOf.exists_method {g : Grammar} {module : Module} (h : ModuleOf g module) {rule : Rule}
    (hr : rule ∈ g.rules) : ∃ method ∈ module.methods, MethodOf rule method := by
  obtain ⟨i, hi, rfl⟩ := List.getElem_of_mem hr
  have hi' : i < module.methods.length := h.methods.length_eq ▸ hi
  exact ⟨module.methods[i], List.getElem_mem hi', h.methods.get hi hi'⟩

theorem grouped_of_check {g : Grammar} (h : g.check = .ok ()) :
    ∀ rule ∈ g.rules, rule.body.Grouped :=
  fun rule hr => rule.body.grouped_of_fault (Grammar.body_fault_of_check h hr)

/-- A checked grammar whose rules have short forms is compiled. -/
theorem exists_build {g : Grammar} (h : g.check = .ok ())
    (hs : ∀ rule ∈ g.rules, rule.short.isSome) : ∃ b, build g = .ok b := by
  obtain ⟨methods, k, hmethods⟩ := exists_compileRules (grouped_of_check h) hs 0
  have hmake : Makes (compileGrammar g) 0 ⟨g.entrypoint, g.extras, methods⟩ k :=
    makes_bind hmethods (makes_pure _ k)
  refine ⟨⟨⟨g.entrypoint, g.extras, methods⟩, k⟩, ?_⟩
  unfold Makes at hmake
  rw [build, h]
  simp only [hmake]

theorem moduleOf_of_build {g : Grammar} {b : Build} (h : build g = .ok b) :
    ModuleOf g b.module := by
  unfold build at h
  split at h
  · cases h
  · rename_i hcheck
    split at h
    · cases h
    · rename_i module names hmake
      cases h
      obtain ⟨methods, k, hmethods, hmodule⟩ :=
        makes_bind_inv (show Makes (compileGrammar g) 0 module names from hmake)
      obtain ⟨rfl, -⟩ := hmodule.unique (makes_pure _ k)
      exact ⟨rfl, rfl, methodsOf_of_makes (grouped_of_check hcheck) hmethods⟩

end Code

end TreeGrammar
