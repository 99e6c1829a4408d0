import Mathlib.Data.List.Nodup
import TreeGrammar.Proofs.Recording

/-!
Aliased nodes. An alias whose content refers to a rule gives its name to the nodes of that rule, and
the rule of the alias matches what the rule matches that it renames. This holds of the content that
is recorded first for the name: other contents of aliases with the same name have no effect.
-/
namespace TreeGrammar

open Description

namespace Description

/-- The value refers to a rule, in any number of wrappers. -/
inductive Refers (name : Label) : Json → Prop
  | symbol {members : List (String × Json)} :
    Json.member "type" members = some (.str "SYMBOL") →
      Json.member "name" members = some name → Refers name (.obj members)
  | wrapper {members : List (String × Json)} {kind : String} {content : Json} :
    Json.member "type" members = some (.str kind) → isTransparent kind →
      Json.member "content" members = some content → Refers name content →
        Refers name (.obj members)

theorem Refers.convert_eq {name : Label} {json : Json} (h : Refers name json) :
    convert json = .ok (.symbol name, []) := by
  induction h with
  | symbol htype hname =>
    rw [convert_symbol htype, needed_eq_ok.mpr hname]
    rfl
  | wrapper htype hwrapper hcontent _ ih =>
    rw [convert_wrapper htype hwrapper]
    exact contentOf_eq_ok.mpr ⟨_, hcontent, ih⟩

/-- What is recorded first for a name is the content of the first alias of that name. -/
theorem exists_recorded {aliases : List (Label × Json)} {recorded : Bodies}
    (h : List.Forall₂ Records aliases recorded) {name : Label} {first : Label × Json}
    (hfirst : aliases.find? (fun occurrence => occurrence.1.alike name) = some first) :
    ∃ entry, recorded.find name = some entry ∧ Records first entry := by
  induction h with
  | nil => cases hfirst
  | @cons occurrence entry _ _ hentry _ ih =>
    rw [Bodies.find, List.find?_cons, hentry.1]
    rw [List.find?_cons] at hfirst
    split at hfirst
    · cases hfirst
      exact ⟨entry, rfl, hentry⟩
    · exact ih hfirst

/-- The names of bodies are those of rules and externals. -/
theorem Draft.ReadFrom.name_mem {draft : Draft} {members rules : List (String × Json)}
    (h : draft.ReadFrom members rules) {entry : Label × Body} (he : entry ∈ draft.bodies) :
    entry.1 ∈ ruleNames rules ∨ entry.1 ∈ externalNames members := by
  obtain ⟨bodies, recorded, hconvert, hbodies, -⟩ := h.converted
  rw [hbodies, addExternals_eq_foldl] at he
  rcases List.mem_append.mp (mem_of_mem_foldl_addNew he) with he | he
  · left
    rw [← names_convertRules hconvert]
    exact List.mem_map_of_mem he
  · right
    obtain ⟨name, hname, rfl⟩ := List.mem_map.mp he
    exact hname

theorem Draft.ReadFrom.exists_find {draft : Draft} {members rules : List (String × Json)}
    (h : draft.ReadFrom members rules) {name : Label} (hname : name ∈ ruleNames rules) :
    ∃ entry, draft.bodies.find name = some entry := by
  obtain ⟨bodies, recorded, hconvert, hbodies, -⟩ := h.converted
  rw [← names_convertRules hconvert] at hname
  obtain ⟨entry, hentry, heq⟩ := List.mem_map.mp hname
  rw [← Option.isSome_iff_exists, hbodies, addExternals_eq_foldl, find_foldl_addNew, Bodies.find,
    List.find?_isSome]
  refine ⟨entry, List.mem_append_left _ hentry, ?_⟩
  rw [heq]
  exact Json.alike_refl _

/-- The first content of an alias that is no rule is the one that is kept. -/
theorem Draft.ReadFrom.exists_named {draft : Draft} {members rules : List (String × Json)}
    (h : draft.ReadFrom members rules) {name : Label} {first : Label × Json}
    (hfirst : (aliasesInRules rules).find? (fun occurrence => occurrence.1.alike name) = some first)
    (hnew : draft.bodies.has name = false) :
    ∃ entry ∈ draft.named, entry.1.alike name ∧ Records first entry := by
  obtain ⟨bodies, recorded, hconvert, -, haliases⟩ := h.converted
  obtain ⟨entry, hentry, hrecords⟩ := exists_recorded (records_convertRules hconvert) hfirst
  have hkept : draft.aliases.find name = some entry := by
    rw [haliases, firstOfEach, find_foldl_addNew, List.nil_append, hentry]
  have hlike : entry.1.alike name := by
    simpa using List.find?_some hkept
  have hmem : entry ∈ draft.named := by
    refine List.mem_filter.mpr ⟨List.mem_of_find?_eq_some hkept, ?_⟩
    rw [draft.bodies.has_congr hlike, hnew]
    rfl
  exact ⟨entry, hmem, hlike, hrecords⟩

/-- The rule of a declared name has the body that is found for the name, with hidden rules
inlined. -/
theorem Draft.Gives.inlineIn_eq {draft : Draft} {g : Grammar} {shown named : List Rule}
    (h : draft.Gives shown named) (hg : g.rules = shown ++ named) (hnamed : draft.bodies.Named)
    {rule : Rule} (hr : rule ∈ g.rules) {name : String} (hname : rule.name = .str name)
    {entry : Label × Body} (hfind : draft.bodies.find (.str name) = some entry) :
    inlineIn draft.hidden entry.2 = .ok rule.body := by
  obtain ⟨hentry, hentryName⟩ := hnamed.name_of_find hfind
  rw [hg] at hr
  rcases List.mem_append.mp hr with hshown | halias
  · obtain ⟨other, hother, hinlined⟩ :=
      exists_mem_of_forall₂ (List.Forall₂.flip (R := flip _) h.shown) hshown
    obtain ⟨hotherName, -⟩ := eq_of_inlineRule hinlined
    -- The entry has the name of another one that stays, so it stays as well and gives a rule.
    have hstays : entry ∈ draft.shown := by
      refine List.mem_filter.mpr ⟨hentry, ?_⟩
      have hnotHidden := (List.mem_filter.mp hother).2
      rwa [← hotherName, hname, ← hentryName] at hnotHidden
    obtain ⟨same, hsame, hsameInlined⟩ := exists_mem_of_forall₂ h.shown hstays
    obtain ⟨hsameName, hbody⟩ := eq_of_inlineRule hsameInlined
    have heq : same = rule := by
      apply List.inj_on_of_nodup_map g.distinct
      · rw [hg]
        exact List.mem_append_left _ hsame
      · rw [hg]
        exact List.mem_append_left _ hshown
      · rw [Rule.key, Rule.key, hsameName, hname, hentryName]
    rw [← heq]
    exact hbody
  · obtain ⟨other, hother, body, -, hinlined⟩ :=
      exists_mem_of_forall₂ (List.Forall₂.flip (R := flip _) h.named) halias
    obtain ⟨hotherName, -⟩ := eq_of_inlineRule hinlined
    have hnew := (List.mem_filter.mp hother).2
    change (!draft.bodies.has other.1) = true at hnew
    rw [← hotherName, hname, draft.bodies.has_eq_isSome_find, hfind] at hnew
    cases hnew

end Description

/-- The rule of an alias matches the children of the rule that is renamed, with the same values, if
the content that is recorded first for the name of the alias refers to that rule. -/
theorem Grammar.renamed_children_matched {members rules : List (String × Json)}
    (hrules : Json.member "rules" members = some (.obj rules)) {g : Grammar}
    (hg : Grammar.ofJson (.obj members) = .ok g) {given : Label} {first : Label × Json}
    (hfirst : (aliasesInRules rules).find? (fun occurrence => occurrence.1.alike given) =
      some first) {name : String} (hrefers : Refers (.str name) first.2)
    (hkey : given ∉ ruleNames rules) (hexternal : given ∉ externalNames members)
    {renamed : Rule} (hr : renamed ∈ g.rules) (hname : renamed.name = .str name)
    (hdeclared : .str name ∈ ruleNames rules) :
    ∃ rule ∈ g.rules, rule.name.alike given ∧ ∀ {ν : Type} (read : Reading ν) (nodes : List ν),
      complete (rule.body.results read nodes) = complete (renamed.body.results read nodes) := by
  obtain ⟨draft, shown, named, hdraft, hgives, heq⟩ := exists_gives hg
  obtain ⟨described, hread⟩ := exists_readFrom hdraft
  obtain rfl : described = rules := by
    have hobj := hread.described.symm.trans hrules
    cases hobj
    rfl
  have hnew : draft.bodies.has given = false := by
    rw [Bool.eq_false_iff, ne_eq, hread.named.has_iff]
    intro hgiven
    obtain ⟨entry, he, rfl⟩ := List.mem_map.mp hgiven
    exact (hread.name_mem he).elim hkey hexternal
  obtain ⟨entry, hentry, hlike, hrecords⟩ := hread.exists_named hfirst hnew
  obtain ⟨rule, hrule, body, hbody, hinlined⟩ := exists_mem_of_forall₂ hgives.named hentry
  obtain ⟨hruleName, hruleBody⟩ := eq_of_inlineRule hinlined
  have hcontent : entry.2 = .symbol (.str name) := by
    obtain ⟨-, inner, hconvert⟩ := hrecords
    exact (Prod.mk.inj (Except.ok.inj (hconvert.symm.trans hrefers.convert_eq))).1
  obtain ⟨declared, hfind⟩ := hread.exists_find hdeclared
  -- The alias takes the body that the renamed rule had before anything was inlined in it, and the
  -- same rules are inlined in both.
  have hrenamed := hgives.inlineIn_eq heq hread.named hr hname hfind
  have hsame : rule.body = renamed.body := by
    have htaken : body = declared.2 := by
      rw [hcontent, aliased_symbol, hfind] at hbody
      exact (Except.ok.inj hbody).symm
    rw [htaken] at hruleBody
    exact Except.ok.inj (hruleBody.symm.trans hrenamed)
  refine ⟨rule, ?_, ?_, ?_⟩
  · rw [heq]
    exact List.mem_append_right _ hrule
  · rwa [hruleName]
  · intro ν read nodes
    rw [hsame]

def twoLetters (first second : String) : Json :=
  .obj [("type", .str "SEQ"), ("members",
    .arr [.obj [("type", .str "STRING"), ("value", .str first)],
      .obj [("type", .str "STRING"), ("value", .str second)]])]

def itemNamed (name : String) : Json :=
  .obj [("type", .str "ALIAS"), ("named", .bool true), ("value", .str "item"),
    ("content", symbolOf name)]

/-- Two rules whose nodes are given the same name. -/
def itemRules : List (String × Json) :=
  [("start", .obj [("type", .str "SEQ"), ("members", .arr [itemNamed "a", itemNamed "b"])]),
    ("a", twoLetters "x" "y"), ("b", twoLetters "z" "w")]

/-- Nodes that are nothing but their kinds. -/
def kindReading : Reading String where
  kind name := .str name
  leaf _ := .unit
  call _ _ := []

/-- The nodes of both rules are called items, but the children of the second rule are no children of
an item. -/
theorem second_items_refused :
    ∃ g, Grammar.ofJson (.obj [("rules", .obj itemRules)]) = .ok g ∧
      ∃ item ∈ g.rules, item.name.alike (.str "item") ∧
        (complete (item.body.results kindReading ["x", "y"])).isSome ∧
        (.str "item", symbolOf "b") ∈ aliasesInRules itemRules ∧
        ∃ second ∈ g.rules, second.name = .str "b" ∧
          (complete (second.body.results kindReading ["z", "w"])).isSome ∧
          complete (item.body.results kindReading ["z", "w"]) = none := by
  let first : Rule := ⟨.str "a", .seq [.literal (.str "x"), .literal (.str "y")]⟩
  let second : Rule := ⟨.str "b", .seq [.literal (.str "z"), .literal (.str "w")]⟩
  have hrules : (Grammar.ofJson (.obj [("rules", .obj itemRules)])).toOption.map Grammar.rules =
      some [⟨.str "start", .seq [.symbol (.str "item"), .symbol (.str "item")]⟩, first, second,
        ⟨.str "item", first.body⟩] := by decide +kernel
  cases hg : Grammar.ofJson (.obj [("rules", .obj itemRules)]) with
  | error e =>
    rw [hg] at hrules
    cases hrules
  | ok g =>
    rw [hg] at hrules
    have hrules : g.rules = _ := Option.some.inj hrules
    have hfirst : first ∈ g.rules := by simp [hrules]
    have hsecond : second ∈ g.rules := by simp [hrules]
    have hkept : (aliasesInRules itemRules).find?
        (fun occurrence => occurrence.1.alike (.str "item")) =
        some (.str "item", symbolOf "a") := by decide
    have hrefers : Refers (.str "a") (symbolOf "a") := .symbol rfl rfl
    obtain ⟨item, hitem, hname, hsame⟩ := Grammar.renamed_children_matched rfl hg hkept hrefers
      (by decide) (by decide) hfirst rfl (by decide)
    refine ⟨g, rfl, item, hitem, hname, ?_, by decide, second, hsecond, rfl, by decide, ?_⟩
    · rw [hsame]
      decide
    · rw [hsame]
      decide

end TreeGrammar
