import Mathlib.Data.List.Forall2
import TreeGrammar.Grammar.OfJson
import TreeGrammar.Proofs.Substitution

/-!
Inlining keeps results. A body in which rules are inlined has the results of the body itself where
the symbols of these rules are matched in place, by the bodies of the rules, however deep such
symbols stand in one another. No symbol of an inlined rule is left.
-/
namespace TreeGrammar

open Description

theorem forall₂_of_mapM_eq_ok {ε α β : Type} {f : α → Except ε β} {as : List α}
    {bs : List β} (h : as.mapM f = .ok bs) : List.Forall₂ (fun a b => f a = .ok b) as bs := by
  induction as generalizing bs with
  | nil =>
    rw [List.mapM_nil] at h
    cases h
    exact .nil
  | cons a as ih =>
    rw [List.mapM_cons] at h
    obtain ⟨b, hb, h⟩ := exists_of_bind_eq_ok h
    obtain ⟨rest, hrest, h⟩ := exists_of_bind_eq_ok h
    cases h
    exact .cons hb (ih hrest)

section
variable {ν : Type}

namespace Description

/-- Reads nodes as given, but the symbols of hidden rules are matched by the bodies of the rules.
Symbols nested deeper than `depth` in such bodies have the results `deeper`. -/
def inPlace (hidden : Bodies) (read : Reading ν)
    (deeper : Label → List ν → List (Value × List ν)) : Nat → Reading ν
  | 0 => { read with
      call name nodes := if hidden.has name then deeper name nodes else read.call name nodes }
  | depth + 1 => { read with
      call name nodes :=
        match hidden.find name with
        | some (_, body) => body.results (inPlace hidden read deeper depth) nodes
        | none => read.call name nodes }

theorem Bodies.has_eq_isSome_find (bodies : Bodies) (name : Label) :
    bodies.has name = (bodies.find name).isSome := by
  rw [has, find, Bool.eq_iff_iff, List.any_eq_true, List.find?_isSome]

/-- The rules that are not being inlined already are left of the hidden ones. -/
structure Remaining (hidden left : Bodies) (chain : List String) : Prop where
  used : ∀ name ∈ chain, left.find (.str name) = none
  unused : ∀ name, name ∉ chain → left.find (.str name) = hidden.find (.str name)

/-- The names of bodies are texts. -/
def Bodies.Named (bodies : Bodies) : Prop :=
  ∀ entry ∈ bodies, ∃ name, entry.1 = .str name

variable {hidden left : Bodies} {chain : List String}

section
variable {text : String}

theorem expand_of_find_eq_some {entry : Label × Body} (h : left.find (.str text) = some entry) :
    expand left chain (.str text) =
      entry.2.bindSymbols (expand (left.without (.str text)) (chain ++ [text])) := by
  rw [expand]
  split
  · rename_i key body hfind
    rw [h] at hfind
    cases hfind
    rfl
  · rename_i hfind
    rw [h] at hfind
    cases hfind

theorem expand_of_find_eq_none (h : left.find (.str text) = none) :
    expand left chain (.str text) =
      if text ∈ chain then .error (.grammar (.recursiveInlining (chain ++ [text])))
      else .ok (.symbol (.str text)) := by
  rw [expand]
  split
  · rename_i hfind
    rw [h] at hfind
    cases hfind
  · rfl

theorem expand_of_ne_str {name : Label} (h : ∀ text, name ≠ .str text) :
    expand left chain name =
      if name.isScalar then .ok (.symbol name) else .error (.shape .nameNotScalar) := by
  have hscalar : expand left chain name = (do pure (Body.symbol (← scalar name))) := by
    cases name with
    | str text => exact absurd rfl (h text)
    | _ =>
      rw [expand]
      exact h
  rw [hscalar, scalar]
  split <;> rfl

end

theorem remaining_nil (hidden : Bodies) : Remaining hidden hidden [] := by
  refine ⟨fun name hn => ?_, fun name hn => rfl⟩
  cases hn

theorem Bodies.find_without_self (bodies : Bodies) (name : Label) :
    (bodies.without name).find name = none := by
  rw [find, without, List.find?_eq_none]
  intro entry he
  simpa using (List.mem_filter.mp he).2

theorem Bodies.find_without_of_ne (bodies : Bodies) {name other : String} (h : other ≠ name) :
    (bodies.without (.str name)).find (.str other) = bodies.find (.str other) := by
  rw [find, without, List.find?_filter, find]
  congr 1
  funext entry
  by_cases hother : entry.1.alike (.str other)
  · have hname : ¬ entry.1.alike (.str name) := by
      intro hname
      rw [Json.alike_iff] at hother hname
      have hlike := (Json.alike_iff _ _).mpr (hother.symm.trans hname)
      rw [Json.alike_str, decide_eq_true_eq] at hlike
      exact h hlike
    simp [hother, hname]
  · simp [hother]

theorem Remaining.cons (h : Remaining hidden left chain) (name : String) :
    Remaining hidden (left.without (.str name)) (chain ++ [name]) := by
  refine ⟨fun other ho => ?_, fun other ho => ?_⟩
  · by_cases heq : other = name
    · rw [heq]
      exact left.find_without_self (.str name)
    · rw [left.find_without_of_ne heq]
      have hc : other ∈ chain := by simpa [heq] using ho
      exact h.used other hc
  · have hne : other ≠ name := fun heq => ho (by simp [heq])
    have hc : other ∉ chain := fun hc => ho (List.mem_append_left _ hc)
    rw [left.find_without_of_ne hne]
    exact h.unused other hc

/-- A rule that is left is not being inlined. -/
theorem Remaining.notMem_of_find (h : Remaining hidden left chain) {text : String}
    {entry : Label × Body} (hfind : left.find (.str text) = some entry) : text ∉ chain := by
  intro hc
  rw [h.used text hc] at hfind
  cases hfind

theorem Bodies.Named.exists_text (h : hidden.Named) {name : Label} {entry : Label × Body}
    (hf : hidden.find name = some entry) : ∃ text, name = .str text := by
  obtain ⟨text, htext⟩ := h entry (List.mem_of_find?_eq_some hf)
  have hlike := List.find?_some hf
  rw [htext, Json.alike_str_left_iff] at hlike
  exact ⟨text, hlike⟩

/-- A reference becomes the body of a rule that is not being inlined already, where references
become what they do inside of that rule, or it is a symbol of another rule and stays. -/
theorem expand_cases (hnamed : hidden.Named) (h : Remaining hidden left chain) {name : Label}
    {part : Body} (hp : expand left chain name = .ok part) :
    (∃ text entry, name = .str text ∧ left.find name = some entry ∧
      hidden.find name = some entry ∧
      entry.2.bindSymbols (expand (left.without name) (chain ++ [text])) = .ok part) ∨
    (hidden.find name = none ∧ name.isScalar ∧ part = .symbol name) := by
  by_cases htext : ∃ text, name = .str text
  · obtain ⟨text, rfl⟩ := htext
    cases hfind : left.find (.str text) with
    | some entry =>
      rw [expand_of_find_eq_some hfind] at hp
      have hfound := (h.unused text (h.notMem_of_find hfind)).symm.trans hfind
      exact .inl ⟨text, entry, rfl, rfl, hfound, hp⟩
    | none =>
      rw [expand_of_find_eq_none hfind] at hp
      split at hp
      · cases hp
      · rename_i hfree
        cases hp
        exact .inr ⟨(h.unused text hfree).symm.trans hfind, rfl, rfl⟩
  -- A name that is no text is looked up in vain, but it has to be one that can be looked up.
  · have hfind : hidden.find name = none := by
      cases hf : hidden.find name with
      | none => rfl
      | some entry => exact absurd (hnamed.exists_text hf) htext
    rw [expand_of_ne_str fun text heq => htext ⟨text, heq⟩] at hp
    split at hp
    · rename_i hs
      cases hp
      exact .inr ⟨hfind, hs, rfl⟩
    · cases hp

section
variable {read : Reading ν} {deeper : Label → List ν → List (Value × List ν)}

theorem inPlace_kind (depth : Nat) : (inPlace hidden read deeper depth).kind = read.kind := by
  cases depth <;> rfl

theorem inPlace_leaf (depth : Nat) : (inPlace hidden read deeper depth).leaf = read.leaf := by
  cases depth <;> rfl

theorem inPlace_call_of_find {name : Label} (h : hidden.find name = none) (depth : Nat) :
    (inPlace hidden read deeper depth).call name = read.call name := by
  funext nodes
  cases depth with
  | zero =>
    have hno : hidden.has name = false := by rw [hidden.has_eq_isSome_find, h]; rfl
    change (if hidden.has name then _ else _) = _
    rw [if_neg (Bool.eq_false_iff.mp hno)]
  | succ depth =>
    change (match hidden.find name with | some (_, body) => _ | none => _) = _
    rw [h]

/-- Nodes are read as given, but the symbols of hidden rules have the results of the bodies of the
rules, in which the symbols of hidden rules do as well. -/
structure MatchedInPlace (hidden : Bodies) (read inner : Reading ν) : Prop where
  kind : inner.kind = read.kind
  leaf : inner.leaf = read.leaf
  inlined : ∀ name entry, hidden.find name = some entry →
    ∀ nodes, inner.call name nodes = entry.2.results inner nodes
  other : ∀ name, hidden.find name = none → inner.call name = read.call name

theorem MatchedInPlace.inPlace_eq {inner : Reading ν} (h : MatchedInPlace hidden read inner)
    (depth : Nat) : inPlace hidden read inner.call depth = inner := by
  induction depth with
  | zero =>
    apply Reading.ext ((inPlace_kind _).trans h.kind.symm) ((inPlace_leaf _).trans h.leaf.symm)
    funext name nodes
    change (if hidden.has name then inner.call name nodes else read.call name nodes) = _
    split
    · rfl
    · rename_i hno
      have hfind : hidden.find name = none := by
        rwa [hidden.has_eq_isSome_find, Option.not_isSome_iff_eq_none] at hno
      rw [h.other name hfind]
  | succ depth ih =>
    apply Reading.ext ((inPlace_kind _).trans h.kind.symm) ((inPlace_leaf _).trans h.leaf.symm)
    funext name nodes
    cases hfind : hidden.find name with
    | none => rw [inPlace_call_of_find hfind, h.other name hfind]
    | some entry =>
      change (match hidden.find name with
        | some (_, body) => body.results (inPlace hidden read inner.call depth) nodes
        | none => read.call name nodes) = _
      rw [hfind, h.inlined name entry hfind, ih]

/-- What a reference becomes has the results of its symbol matched in place. There are no more
rules in one another than are left, so what is nested deeper does not matter. -/
theorem replaces_expand (hnamed : hidden.Named) (h : Remaining hidden left chain) {depth : Nat}
    (hd : left.length ≤ depth) :
    Replaces (expand left chain) (inPlace hidden read deeper depth) read := by
  -- The rule that a reference leads to is left out of the rules for the references in its body.
  induction depth generalizing left chain with
  | zero =>
    refine ⟨inPlace_kind 0, inPlace_leaf 0, fun name part hp nodes => ?_⟩
    obtain ⟨text, entry, -, hfind, -, -⟩ | ⟨hfind, -, rfl⟩ := expand_cases hnamed h hp
    · have hlt := Bodies.length_without_lt hfind
      omega
    · rw [Body.results, inPlace_call_of_find hfind]
  | succ depth ih =>
    refine ⟨inPlace_kind _, inPlace_leaf _, fun name part hp nodes => ?_⟩
    obtain ⟨text, entry, rfl, hfind, hbody, hpart⟩ | ⟨hfind, -, rfl⟩ := expand_cases hnamed h hp
    · have hlt := Bodies.length_without_lt hfind
      have hinner := ih (h.cons text) (by omega)
      rw [entry.2.results_of_bindSymbols hinner hpart]
      change _ = (match hidden.find (.str text) with
        | some (_, body) => body.results (inPlace hidden read deeper depth) nodes
        | none => read.call (.str text) nodes)
      rw [hbody]
    · rw [Body.results, inPlace_call_of_find hfind]

end

/-- The symbols in what a reference becomes are those of rules that are not hidden. -/
theorem find_of_mem_symbols_expand (hnamed : hidden.Named) (h : Remaining hidden left chain)
    {name source : Label} {part : Body} (hp : expand left chain source = .ok part)
    (hn : name ∈ part.symbols) : hidden.find name = none ∧ name.isScalar := by
  -- The induction is on the rules that are left, as for the results.
  induction hlen : left.length using Nat.strongRecOn generalizing left chain source part with
  | ind len ih =>
    obtain ⟨text, entry, rfl, hfind, -, hpart⟩ | ⟨hfind, hscalar, rfl⟩ := expand_cases hnamed h hp
    · obtain ⟨inner, innerPart, hinner, hn⟩ :=
        entry.2.exists_of_mem_symbols_bindSymbols hpart hn
      exact ih _ (hlen ▸ Bodies.length_without_lt hfind) (h.cons text) hinner hn rfl
    · rw [Body.symbols, List.mem_singleton] at hn
      rw [hn]
      exact ⟨hfind, hscalar⟩

theorem expand_of_find {name : Label} (h : hidden.find name = none) (hs : name.isScalar) :
    expand hidden [] name = .ok (.symbol name) := by
  by_cases htext : ∃ text, name = .str text
  · obtain ⟨text, rfl⟩ := htext
    rw [expand_of_find_eq_none h, if_neg List.not_mem_nil]
  · rw [expand_of_ne_str fun text heq => htext ⟨text, heq⟩, if_pos hs]

/-- The second body is the first one with hidden rules inlined. It has the same results, for all
ways to read nodes, as the first one has with the hidden rules matched in place. -/
structure InlinedAs (hidden : Bodies) (body body' : Body) : Prop where
  eq : inlineIn hidden body = .ok body'
  same : ∀ {ν : Type} (read inner : Reading ν), MatchedInPlace hidden read inner →
    ∀ nodes, body'.results read nodes = body.results inner nodes
  results : ∀ {ν : Type} (read : Reading ν) (deeper : Label → List ν → List (Value × List ν)),
    ∀ depth ≥ hidden.length, ∀ nodes,
      body'.results read nodes = body.results (inPlace hidden read deeper depth) nodes
  symbols : ∀ name ∈ body'.symbols, hidden.has name = false
  again : inlineIn hidden body' = .ok body'

theorem inlinedAs_of_inlineIn (hnamed : hidden.Named) {body body' : Body}
    (h : inlineIn hidden body = .ok body') : InlinedAs hidden body body' := by
  have hremaining := remaining_nil hidden
  have hsymbols : ∀ name ∈ body'.symbols, hidden.find name = none ∧ name.isScalar := by
    intro name hn
    obtain ⟨source, part, hp, hn⟩ := body.exists_of_mem_symbols_bindSymbols h hn
    exact find_of_mem_symbols_expand hnamed hremaining hp hn
  have hresults : ∀ {ν : Type} (read : Reading ν)
      (deeper : Label → List ν → List (Value × List ν)), ∀ depth ≥ hidden.length, ∀ nodes,
        body'.results read nodes = body.results (inPlace hidden read deeper depth) nodes := by
    intro ν read deeper depth hd nodes
    have hreplaces : Replaces (expand hidden []) (inPlace hidden read deeper depth) read :=
      replaces_expand hnamed hremaining hd
    rw [body.results_of_bindSymbols hreplaces h]
  refine ⟨h, fun read inner hinner nodes => ?_, hresults, fun name hn => ?_, ?_⟩
  · rw [hresults read inner.call hidden.length (Nat.le_refl _) nodes, hinner.inPlace_eq]
  · rw [hidden.has_eq_isSome_find, (hsymbols name hn).1]
    rfl
  · apply body'.bindSymbols_eq_self
    intro name hn
    exact expand_of_find (hsymbols name hn).1 (hsymbols name hn).2

theorem Draft.named_hidden (draft : Draft) : draft.hidden.Named := by
  intro entry he
  have hhidden := (List.mem_filter.mp he).2
  obtain ⟨name, body⟩ := entry
  cases name with
  | str text => exact ⟨text, rfl⟩
  | _ => cases hhidden

end Description

end

/-- A rule has the name of the entry, and its body is that of the entry with hidden rules
inlined. -/
def Rule.InlinedFrom (hidden : Description.Bodies) (entry : Label × Body) (rule : Rule) : Prop :=
  rule.name = entry.1 ∧ InlinedAs hidden entry.2 rule.body

theorem inlinedFrom_of_inlineRule {hidden : Bodies} (hnamed : hidden.Named) {entry : Label × Body}
    {rule : Rule} (h : inlineRule hidden entry = .ok rule) : rule.InlinedFrom hidden entry := by
  obtain ⟨body, hbody, h⟩ := exists_of_bind_eq_ok h
  cases h
  exact ⟨rfl, inlinedAs_of_inlineIn hnamed hbody⟩

theorem rules_of_ofRules {entrypoint : String} {rules : List Rule} {extras : List Label}
    {g : Grammar} (h : Grammar.ofRules entrypoint rules extras = .ok g) : g.rules = rules := by
  unfold Grammar.ofRules at h
  split at h
  · cases h
  · cases h
    rfl

/-- The rules of a grammar that is read from a description are those that stay and the names given
by aliases, in this order, each with the hidden rules inlined in its body. -/
theorem rules_inlined_of_ofJson {json : Json} {g : Grammar} (h : Grammar.ofJson json = .ok g) :
    ∃ members draft, json = .obj members ∧ draftOf members = .ok draft ∧
      ∃ shown named, g.rules = shown ++ named ∧
        List.Forall₂ (Rule.InlinedFrom draft.hidden) draft.shown shown ∧
        List.Forall₂ (fun entry rule => ∃ body, aliased draft.bodies entry.2 = .ok body ∧
          Rule.InlinedFrom draft.hidden (entry.1, body) rule) draft.named named := by
  cases json with
  | obj members =>
    obtain ⟨draft, hdraft, h⟩ := exists_of_bind_eq_ok h
    obtain ⟨rules, hrules, h⟩ := exists_of_bind_eq_ok h
    obtain ⟨listed, -, h⟩ := exists_of_bind_eq_ok h
    obtain ⟨extras, -, h⟩ := exists_of_bind_eq_ok h
    have heq : g.rules = rules := by
      split at h
      · rename_i hg
        cases h
        exact rules_of_ofRules hg
      · cases h
    obtain ⟨shown, hshown, hrules⟩ := exists_of_bind_eq_ok hrules
    obtain ⟨named, hnamed, hrules⟩ := exists_of_bind_eq_ok hrules
    cases hrules
    refine ⟨members, draft, rfl, hdraft, shown, named, heq, ?_, ?_⟩
    · apply (forall₂_of_mapM_eq_ok hshown).imp
      intro entry rule hr
      exact inlinedFrom_of_inlineRule draft.named_hidden hr
    · apply (forall₂_of_mapM_eq_ok hnamed).imp
      intro entry rule hr
      obtain ⟨body, hbody, hr⟩ := exists_of_bind_eq_ok hr
      exact ⟨body, hbody, inlinedFrom_of_inlineRule draft.named_hidden hr⟩
  | _ => cases h

def symbolOf (name : String) : Json :=
  .obj [("type", .str "SYMBOL"), ("name", .str name)]

/-- A grammar of items that are words or numbers. Items and numbers make no nodes. -/
def itemsDescription : Json :=
  .obj [("rules", .obj
    [("list", .obj [("type", .str "REPEAT"), ("content", symbolOf "_item")]),
      ("_item", .obj [("type", .str "CHOICE"),
        ("members", .arr [symbolOf "word", symbolOf "_number"])]),
      ("_number", .obj [("type", .str "PATTERN"), ("value", .str "[0-9]+")]),
      ("word", .obj [("type", .str "PATTERN"), ("value", .str "[a-z]+")])])]

def hiddenItems : Bodies :=
  [(.str "_item", .choice [.symbol (.str "word"), .symbol (.str "_number")]),
    (.str "_number", .pattern (.str "[0-9]+"))]

theorem hiddenItems_inlined : ∃ g, Grammar.ofJson itemsDescription = .ok g ∧
    ∃ rule ∈ g.rules, rule.name = .str "list" ∧
      rule.body = .star (.choice [.symbol (.str "word"), .pattern (.str "[0-9]+")]) ∧
      InlinedAs hiddenItems (.star (.symbol (.str "_item"))) rule.body := by
  have hrules : (Grammar.ofJson itemsDescription).toOption.map Grammar.rules =
      some [⟨.str "list", .star (.choice [.symbol (.str "word"), .pattern (.str "[0-9]+")])⟩,
        ⟨.str "word", .pattern (.str "[a-z]+")⟩] := by decide +kernel
  cases hg : Grammar.ofJson itemsDescription with
  | error e =>
    rw [hg] at hrules
    cases hrules
  | ok g =>
    rw [hg] at hrules
    have hrules : g.rules = _ := Option.some.inj hrules
    obtain ⟨members, draft, hmembers, hdraft, shown, named, happend, hshown, -⟩ :=
      rules_inlined_of_ofJson hg
    cases hmembers
    cases hdraft
    rw [happend] at hrules
    have hshape : List.Forall₂ (Rule.InlinedFrom hiddenItems)
        [(.str "list", .star (.symbol (.str "_item"))), (.str "word", .pattern (.str "[a-z]+"))]
        shown := hshown
    cases hshape with
    | cons hfirst _ =>
      obtain ⟨rfl, -⟩ := List.cons.inj hrules
      have hmem : (⟨.str "list", .star (.choice [.symbol (.str "word"),
          .pattern (.str "[0-9]+")])⟩ : Rule) ∈ g.rules := by
        rw [happend]
        exact List.mem_cons_self
      exact ⟨g, rfl, _, hmem, rfl, rfl, hfirst.2⟩

end TreeGrammar
