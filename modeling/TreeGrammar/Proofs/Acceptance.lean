import TreeGrammar.Proofs.Compiler
import TreeGrammar.Proofs.Language

/-!
Acceptance. The method of a rule accepts a node if the children of the node, as a word, belong to
the language of the body. It is the ordinary language of the body up to one defect: one or more
elements do not match the empty list even where the element does.
-/
namespace TreeGrammar

theorem Grammar.looksAt_reading (g : Grammar) (leaf : Loc → Value) :
    (g.reading leaf).LooksAt (g.answer leaf) :=
  fun _ _ => rfl

namespace Parser

open Code

/-- The run returns something if and only if `p` holds, whatever the journal is; it has a fault only
if `P` fails. -/
def Decides {α : Type} (P : Prop) (x : Run (Option α)) (p : Prop) : Prop :=
  ∀ journal, match x.run journal with
    | .ok (found, _) => (found.isSome ↔ p)
    | .error _ => ¬ P

theorem Returns.decides {α : Type} {P p : Prop} {x : Run (Option α)} {a : Option α}
    (h : Returns P x a) (ha : a.isSome ↔ p) : Decides P x p := by
  intro journal
  have hr := h journal
  split <;> rename_i heq
  · rw [heq] at hr
    obtain rfl : _ = a := hr
    exact ha
  · rw [heq] at hr
    exact hr

/-- What symbols and tokens ask of the children of a node, by the rules of a grammar. -/
abbrev childTests (g : Grammar) (leaf : Loc → Value) : Tests Tree :=
  (g.reading leaf).tests

/-- A symbol asks whether the method of its name accepts a child, and the method of a rule with
parts accepts the nodes whose children are matched by its body. This is the ordinary language of the
body unless the element of one or more elements can be empty. -/
theorem method_accepts_iff (g : Grammar) (h : g.check = .ok ()) {b : Build} (hb : build g = .ok b)
    {s : Setting} (hs : s.module = b.module) {leaf : Loc → Value} (hleaf : s.src.Tells leaf) :
    (∀ name : String, Label.isAmong g.names name → ∀ form child,
      Decides (g.Writable ∧ child.Placed s.src) (s.callMethod form name [s.mark child])
        ((childTests g leaf).rule name child)) ∧
    ∀ rule ∈ g.rules, ¬ rule.isLeaf →
      (∃ method ∈ s.module.methods, method.rule = rule.name ∧
        ∀ tree, tree.kind.alike rule.name →
          Decides (g.Writable ∧ tree.Placed s.src)
            (method.block.meaning s.host .empty [s.mark tree])
            (tree.children ∈ rule.body.matched (childTests g leaf))) ∧
      (∀ nodes ∈ rule.body.matched (childTests g leaf),
        nodes ∈ rule.body.language (childTests g leaf)) ∧
      (rule.body.NoEmptyElement (childTests g leaf) →
        rule.body.matched (childTests g leaf) = rule.body.language (childTests g leaf)) := by
  have hruns : Runs g s := ⟨h, hs ▸ moduleOf_of_build hb⟩
  have hfaithful := hruns.faithful hleaf
  refine ⟨fun name hn form child => ?_, fun rule hr hl => ⟨?_, ?_, ?_⟩⟩
  · have hcall := (hfaithful.symbol name hn form [child]).mono fun
      hp : g.Writable ∧ child.Placed s.src => ⟨hp.1, hp.2, trivial⟩
    apply hcall.decides
    rw [Match.place, Option.isSome_map, (g.looksAt_reading leaf).rule_iff]
  · obtain ⟨method, hm, hname, hmatches⟩ := hfaithful.method rule hr hl
    refine ⟨method, hm, hname, fun tree hk => ?_⟩
    apply (hmatches tree [] hk).decides
    rw [Option.isSome_map]
    exact rule.body.complete_isSome_iff_mem (g.looksAt_reading leaf) tree.children
  · exact rule.body.mem_language_of_mem_matched
  · exact rule.body.matched_eq_language

/-- One or more elements that are all empty. -/
def emptyGrammar : Grammar where
  entrypoint := "r"
  rules := [⟨.str "r", .plus .blank⟩]
  extras := []
  distinct := by decide

def emptyTree : Tree :=
  .node (.str "r") ⟨.at 0 0, .at 0 0⟩ [] (.bool true) (.bool false)

def emptySource : Source := .ofText ""

theorem nil_mem_language_plus {ν : Type} {tests : Tests ν} {body : Body}
    (h : [] ∈ body.language tests) : [] ∈ (Body.plus body).language tests :=
  Language.append_mem_mul h (Language.nil_mem_kstar _)

theorem nil_notMem_matched_plus {ν : Type} (tests : Tests ν) (body : Body) :
    [] ∉ (Body.plus body).matched tests :=
  fun h => h.2 rfl

/-- The empty list is one empty element, but the parser does not accept a node without children. -/
theorem empty_element_not_accepted :
    ∃ b, build emptyGrammar = .ok b ∧ ∃ method ∈ b.module.methods, method.rule = .str "r" ∧
      (∃ journal, (method.block.meaning (Setting.host ⟨b.module, emptySource, false⟩) .empty
        [Setting.mark ⟨b.module, emptySource, false⟩ emptyTree]).run .empty =
          .ok (none, journal)) ∧
      emptyTree.children ∈ (Body.plus .blank).language
        (childTests emptyGrammar (emptySource.leafOr fun _ => .unit)) := by
  have hcheck : emptyGrammar.check = .ok () := rfl
  obtain ⟨b, hb⟩ := exists_build hcheck (by decide)
  let s : Setting := ⟨b.module, emptySource, false⟩
  obtain ⟨-, hrules⟩ := method_accepts_iff emptyGrammar hcheck hb (rfl : s.module = b.module)
    (s.src.tells_leafOr fun _ => .unit)
  obtain ⟨⟨method, hm, hname, haccepts⟩, -⟩ :=
    hrules ⟨.str "r", .plus .blank⟩ List.mem_cons_self (by decide)
  refine ⟨b, hb, method, hm, hname, ?_, nil_mem_language_plus Language.nil_mem_one⟩
  have hdecides := haccepts emptyTree rfl .empty
  split at hdecides <;> rename_i hrun
  · rename_i found journal
    have hnone : found = none := by
      rw [← Option.not_isSome_iff_eq_none, hdecides]
      exact nil_notMem_matched_plus _ _
    rw [hnone] at hrun
    exact ⟨journal, hrun⟩
  · refine absurd ⟨?_, ⟨⟨_, rfl⟩, trivial⟩⟩ hdecides
    intro rule hr
    rw [List.mem_singleton.mp hr]
    exact ⟨fun hl => absurd hl (by decide), fun text ht => by cases ht⟩

end Parser

end TreeGrammar
