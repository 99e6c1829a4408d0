import TreeGrammar.Cli.Generate
import TreeGrammar.Proofs.Checking
import TreeGrammar.Proofs.Parses
import TreeGrammar.Proofs.Printing

/-!
The check is what decides. A grammar that fails it is not written. Nothing else can go wrong with
one that passes, as long as its names are texts: every count and every form that the making of code
relies on holds, the module has a text, and each method that is asked for is defined once.
-/
namespace TreeGrammar

namespace Code

section
variable {α β : Type}

/-- A step that starts after the number `n` stops with an error. -/
def Fails (x : Gen α) (n : Nat) (e : CodeError) : Prop :=
  ∃ k, x.run.run n = (.error e, k)

theorem fails_bind {x : Gen α} {n : Nat} {e : CodeError} (h : Fails x n e) (f : α → Gen β) :
    Fails (x >>= f) n e := by
  obtain ⟨k, hk⟩ := h
  refine ⟨k, ?_⟩
  rw [ExceptT.run_bind, StateT.run_bind, hk]
  rfl

theorem Makes.fails_bind {x : Gen α} {f : α → Gen β} {n k : Nat} {a : α} {e : CodeError}
    (hx : Makes x n a k) (hf : Fails (f a) k e) : Fails (x >>= f) n e := by
  obtain ⟨l, hl⟩ := hf
  refine ⟨l, ?_⟩
  unfold Makes at hx
  rw [ExceptT.run_bind, StateT.run_bind, hx]
  exact hl

end

/-- The only thing that can be wrong with a rule without empty groups is a name that is no text. -/
theorem makes_or_fails_compileRule {rule : Rule} (hg : rule.body.Grouped) (n : Nat) :
    (∃ method k, Makes (compileRule rule) n method k) ∨
      Fails (compileRule rule) n .nameNotText := by
  cases hs : rule.short with
  | some text =>
    obtain ⟨method, k, hm, -⟩ := exists_compileRule hg hs n
    exact .inl ⟨method, k, hm⟩
  | none =>
    right
    apply fails_bind
    rw [commentOf, hs]
    exact ⟨n, rfl⟩

theorem makes_or_fails_compileRules {rules : List Rule} (hg : ∀ rule ∈ rules, rule.body.Grouped)
    (n : Nat) : (∃ methods k, Makes (rules.mapM compileRule) n methods k) ∨
      Fails (rules.mapM compileRule) n .nameNotText := by
  induction rules generalizing n with
  | nil => exact .inl ⟨[], n, makes_pure _ n⟩
  | cons rule rest ih =>
    rw [List.mapM_cons]
    rcases makes_or_fails_compileRule (hg rule List.mem_cons_self) n with ⟨method, k, hm⟩ | hf
    · rcases ih (fun r hr => hg r (List.mem_cons_of_mem rule hr)) k with ⟨methods, l, hr⟩ | hf
      · exact .inl ⟨method :: methods, l, makes_bind hm (makes_bind hr (makes_pure _ l))⟩
      · exact .inr (hm.fails_bind (fails_bind hf _))
    · exact .inr (fails_bind hf _)

theorem error_of_build {g : Grammar} (h : g.check = .ok ()) {e : BuildError}
    (hb : build g = .error e) : e = .code .nameNotText := by
  rw [build, h] at hb
  rcases makes_or_fails_compileRules (grouped_of_check h) 0 with ⟨methods, k, hm⟩ | hf
  · have hmake : Makes (compileGrammar g) 0 ⟨g.entrypoint, g.extras, methods⟩ k :=
      makes_bind hm (makes_pure _ k)
    unfold Makes at hmake
    simp only [hmake] at hb
    cases hb
  · obtain ⟨k, hk⟩ : Fails (compileGrammar g) 0 .nameNotText := fails_bind hf _
    simp only [hk] at hb
    cases hb
    rfl

/-- Where results have been taken together, there is one of interest. -/
theorem kept_pos_of_flattenHead {count : Int} {next : Option Continuation} {wrap : Wrap}
    {flat : Continuation} {n l : Nat}
    (h : Makes (Continuation.flattenHead count next wrap) n (some flat) l) (hc : count ≠ 0) :
    0 < flat.kept ∧ flat.kept ≤ flat.captured := by
  rw [Continuation.flattenHead] at h
  split at h
  · obtain ⟨code, k, -, hpure⟩ := makes_bind_inv h
    split at hpure <;>
    · obtain ⟨hflat, -⟩ := makes_pure_inv hpure
      cases hflat
      dsimp only
      omega
  · cases h

/-- The name of the method that code asks for. -/
def Item.method? : Item → Option String
  | rule name => some (methodName name)
  | _ => none

/-- The names of the methods that the code of a module asks for, and that it starts with. -/
def Module.references (module : Module) : List String :=
  module.items.filterMap Item.method? ++ [methodName module.entrypoint]

/-- The names that the methods of a module are defined by. -/
def Module.defined (module : Module) : List String :=
  module.methods.map fun method => methodName method.rule

theorem methodName_str_injective :
    Function.Injective fun text : String => methodName (.str text) := by
  intro a b h
  have ht := congrArg String.toList h
  simp only [methodName, Json.shown, String.toList_append] at ht
  exact String.toList_inj.mp (List.append_cancel_left ht)

/-- The methods are defined by the names of the rules, in order. -/
theorem ModuleOf.defined_eq {g : Grammar} {module : Module} (h : ModuleOf g module) :
    module.defined = g.names.map methodName := by
  have hnames : ∀ {rules : List Rule} {methods : List Method}, List.Forall₂ MethodOf rules methods →
      methods.map Method.rule = rules.map Rule.name := by
    intro rules methods hall
    induction hall with
    | nil => rfl
    | cons hm _ ih => rw [List.map_cons, List.map_cons, hm.name, ih]
  rw [Module.defined, Grammar.names, ← hnames h.methods, List.map_map]
  rfl

/-- What stands in a module and is no binding comes from a rule. -/
theorem exists_rule_of_mem_items {g : Grammar} {b : Build} (hb : build g = .ok b) {x : Item}
    (hx : x.bound? = none) (hm : x ∈ b.module.items) : ∃ rule ∈ g.rules, x ∈ itemsOfRule rule := by
  obtain ⟨⟨purposes, -, hitems, -⟩, -⟩ := extends_build hb
  have hafter : x ∉ itemsAfter 0 purposes := by
    intro ha
    obtain ⟨_, hbound, -⟩ := bound?_of_mem_itemsAfter ha
    rw [hx] at hbound
    cases hbound
  have hpos := List.count_pos_iff.mpr hm
  rw [hitems x, List.count_eq_zero_of_not_mem hafter, List.count_nil, Nat.zero_add,
    Nat.add_zero, List.count_pos_iff] at hpos
  exact List.mem_flatMap.mp hpos

/-- The symbols of a checked grammar are rules of it. -/
theorem isAmong_of_mem_body {g : Grammar} (h : g.check = .ok ()) {rule : Rule} (hr : rule ∈ g.rules)
    {name : Label} (hi : .rule name ∈ rule.body.items) : Label.isAmong g.names name := by
  by_contra hno
  have hfaulty : rule.body.Faulty g.names :=
    ⟨_, rule.body.contains_of_mem_items hi, .symbol hno⟩
  have hfault : (rule.body.fault g.names rule.name).isSome :=
    rule.body.fault_isSome_iff.mpr hfaulty
  rw [Grammar.body_fault_of_check h hr] at hfault
  cases hfault

/-- What the code of a module asks for are rules of the grammar. -/
theorem isAmong_of_mem_items {g : Grammar} (h : g.check = .ok ()) {b : Build}
    (hb : build g = .ok b) {name : Label} (hn : .rule name ∈ b.module.items) :
    Label.isAmong g.names name := by
  obtain ⟨rule, hr, hi⟩ := exists_rule_of_mem_items hb rfl hn
  rw [itemsOfRule] at hi
  split at hi
  · cases List.mem_singleton.mp hi
  · exact isAmong_of_mem_body h hr hi

/-- A compiled module holds no text of a caller. -/
theorem given_notMem_of_build {g : Grammar} {b : Build} (hb : build g = .ok b) :
    ∀ method ∈ b.module.methods, .given ∉ method.block.items := by
  intro method hm hgiven
  have hitems : .given ∈ b.module.items := List.mem_flatMap.mpr ⟨method, hm, hgiven⟩
  obtain ⟨rule, -, hi⟩ := exists_rule_of_mem_items hb rfl hitems
  exact (bound?_of_mem_itemsOfRule hi).2 rfl

/-- Each method that is asked for is defined once. -/
theorem count_defined_of_mem_references {g : Grammar} (h : g.check = .ok ()) {b : Build}
    (hb : build g = .ok b) (ht : ∀ rule ∈ g.rules, ∃ text, rule.name = .str text) {name : String}
    (hn : name ∈ b.module.references) : b.module.defined.count name = 1 := by
  have hmodule := moduleOf_of_build hb
  -- The names of rules are different texts, and so are those of their methods.
  have hnodup : (g.names.map methodName).Nodup := by
    have hcanonical : (g.names.map Json.canonical).Nodup := by
      rw [Grammar.names, List.map_map]
      exact g.distinct
    refine (List.Nodup.of_map _ hcanonical).map_on ?_
    intro a ha c hc hac
    obtain ⟨rule, hr, rfl⟩ := List.mem_map.mp ha
    obtain ⟨other, ho, rfl⟩ := List.mem_map.mp hc
    obtain ⟨text, htext⟩ := ht rule hr
    obtain ⟨otherText, hother⟩ := ht other ho
    rw [htext, hother] at hac ⊢
    rw [methodName_str_injective hac]
  have hmem : name ∈ g.names.map methodName := by
    -- A label that is like the name of a rule, which is a text, is that name.
    have hnamed {label : Label} (ha : Label.isAmong g.names label) : label ∈ g.names := by
      obtain ⟨other, ho, hlike⟩ := List.any_eq_true.mp ha
      obtain ⟨rule, hr, rfl⟩ := List.mem_map.mp ho
      obtain ⟨text, htext⟩ := ht rule hr
      rw [htext] at hlike ho
      have hsame : (Json.str text).alike label :=
        (Json.alike_iff _ _).mpr ((Json.alike_iff _ _).mp hlike).symm
      rwa [(Json.alike_str_left_iff text label).mp hsame]
    rcases List.mem_append.mp hn with hn | hn
    · obtain ⟨item, hi, hname⟩ := List.mem_filterMap.mp hn
      cases item with
      | rule label =>
        cases hname
        exact List.mem_map_of_mem (hnamed (isAmong_of_mem_items h hb hi))
      | _ => cases hname
    · rw [List.mem_singleton.mp hn, hmodule.entrypoint]
      exact List.mem_map_of_mem (hnamed (Grammar.entrypoint_of_check h))
  rw [hmodule.defined_eq]
  exact List.count_eq_one_of_mem hnodup hmem

end Code

open Code Cli.Generate

/-- The check of a grammar is exact, and it is sufficient for the module of the grammar to be
written. It fails where the entrypoint is no rule or a part of a body at any depth is a symbol that
is no rule or an empty group, and then nothing is written but the output emptied. Where it passes,
the making of code can only stop at a name that is no text; if the symbols are texts there is a
module, which has a text for every name of a file. If the names of the rules are texts, each method
that the module asks for is defined once. Results taken together leave one of interest. -/
theorem Grammar.check_exact_and_sufficient (g : Grammar) :
    ((∃ e, g.check = .error e) ↔ g.Faulty) ∧
    (∀ e, g.check = .error e →
      (∀ fileName, moduleText g fileName = .error (.reported e.message)) ∧
      ∀ request output elapsed, writeModule request output elapsed g =
        stopped [(output, "")] (.reported e.message)) ∧
    (g.check = .ok () →
      (∀ e, build g = .error e → e = .code .nameNotText) ∧
      (g.Textual → ∃ b, build g = .ok b ∧
        (∀ fileName, ∃ text, moduleText g fileName = .ok (text, b.names)) ∧
        ((∀ rule ∈ g.rules, ∃ text, rule.name = .str text) →
          ∀ name ∈ b.module.references, b.module.defined.count name = 1))) ∧
    ∀ count next wrap flat n l, count ≠ 0 →
      Makes (Continuation.flattenHead count next wrap) n (some flat) l →
        0 < flat.kept ∧ flat.kept ≤ flat.captured := by
  refine ⟨g.exists_check_error_iff, fun e he => ?_, fun hc => ⟨fun e => error_of_build hc, ?_⟩, ?_⟩
  · have htext : ∀ fileName, moduleText g fileName = .error (.reported e.message) := by
      intro fileName
      rw [moduleText, build, he]
    exact ⟨htext, fun request output elapsed => by rw [writeModule, htext]⟩
  · intro ht
    obtain ⟨b, hb⟩ := exists_build hc fun rule hr => rule.short_isSome_iff.mpr (ht rule hr)
    refine ⟨b, hb, fun fileName => ?_, fun hnames name =>
      count_defined_of_mem_references hc hb hnames⟩
    obtain ⟨text, htext⟩ := b.module.exists_text (given_notMem_of_build hb) fileName
    refine ⟨text, ?_⟩
    rw [moduleText, hb]
    simp only [htext]
  · exact fun count next wrap flat n l hc h => kept_pos_of_flattenHead h hc

/-- A grammar with an empty choice inside a repetition inside a choice. -/
def hollowGrammar : Grammar where
  entrypoint := "list"
  rules := [⟨.str "list", .seq [.choice [.blank, .star (.choice [])], .literal (.str ";")]⟩]
  extras := []
  distinct := by decide

theorem choiceGrammar_sufficient :
    (∃ e, hollowGrammar.check = .error e ∧
      ∀ fileName, moduleText hollowGrammar fileName = .error (.reported e.message)) ∧
    choiceGrammar.check = .ok () ∧ ∃ b, build choiceGrammar = .ok b ∧
      (∀ fileName, ∃ text, moduleText choiceGrammar fileName = .ok (text, b.names)) ∧
      ∀ name ∈ b.module.references, b.module.defined.count name = 1 := by
  have hchoice : Body.Bad hollowGrammar.names (.choice []) := .choice
  have hfaulty : hollowGrammar.Faulty := .inr ⟨_, List.mem_cons_self, _,
    .inside List.mem_cons_self (.inside (List.mem_cons_of_mem _ List.mem_cons_self)
      (.inside List.mem_cons_self (.self _))), hchoice⟩
  obtain ⟨hexact, hfails, -⟩ := hollowGrammar.check_exact_and_sufficient
  obtain ⟨e, he⟩ := hexact.mpr hfaulty
  refine ⟨⟨e, he, (hfails e he).1⟩, rfl, ?_⟩
  have hshort : ∀ rule ∈ choiceGrammar.rules, rule.short.isSome := by decide
  have htextual : choiceGrammar.Textual := fun rule hr => rule.short_isSome_iff.mp (hshort rule hr)
  obtain ⟨-, -, hpasses, -⟩ := choiceGrammar.check_exact_and_sufficient
  obtain ⟨b, hb, htext, hnames⟩ := (hpasses rfl).2 htextual
  refine ⟨b, hb, htext, hnames fun rule hr => ?_⟩
  rcases List.mem_cons.mp hr with rfl | hr
  · exact ⟨"expr", rfl⟩
  · rw [List.mem_singleton.mp hr]
    exact ⟨"num", rfl⟩

end TreeGrammar
