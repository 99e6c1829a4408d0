import TreeGrammar.Proofs.Inlining

/-!
What is read from a description. The kinds of bodies say how a value is converted, one equation for
each. While bodies are converted, the contents of named aliases are recorded, and these are the
contents of the aliases that stand in the description, in the same order.
-/
namespace TreeGrammar

theorem exists_mem_of_forall₂ {α β : Type} {R : α → β → Prop} {as : List α} {bs : List β}
    (h : List.Forall₂ R as bs) {a : α} (ha : a ∈ as) : ∃ b ∈ bs, R a b := by
  induction h with
  | nil => cases ha
  | cons hab _ ih =>
    rcases List.mem_cons.mp ha with rfl | ha
    · exact ⟨_, List.mem_cons_self, hab⟩
    · obtain ⟨b, hb, hab⟩ := ih ha
      exact ⟨b, List.mem_cons_of_mem _ hb, hab⟩

namespace Description

def Bodies.names (bodies : Bodies) : List Label :=
  bodies.map Prod.fst

theorem Bodies.names_append (bodies more : Bodies) :
    Bodies.names (bodies ++ more) = bodies.names ++ more.names :=
  List.map_append

theorem needed_eq_ok {name : String} {members : List (String × Json)} {value : Json} :
    needed name members = .ok value ↔ Json.member name members = some value := by
  rw [needed]
  cases Json.member name members with
  | none => simp
  | some value => simp

theorem eq_of_scalar {value : Json} {name : Label} (h : scalar value = .ok name) :
    name = value := by
  rw [scalar] at h
  split at h
  · exact (Except.ok.inj h).symm
  · cases h

theorem contentOf_eq_ok {members : List (String × Json)} {r : Body × Bodies} :
    contentOf members = .ok r ↔
      ∃ content, Json.member "content" members = some content ∧ convert content = .ok r := by
  induction members with
  | nil => simp [contentOf, Json.member]
  | cons entry members ih =>
    obtain ⟨name, value⟩ := entry
    rw [contentOf, Json.member]
    split
    · simp
    · exact ih

theorem membersOf_eq_ok {members : List (String × Json)} {r : List Body × Bodies} :
    membersOf members = .ok r ↔
      ∃ group, Json.member "members" members = some group ∧ convertGroup group = .ok r := by
  induction members with
  | nil => simp [membersOf, Json.member]
  | cons entry members ih =>
    obtain ⟨name, value⟩ := entry
    rw [membersOf, Json.member]
    split
    · simp
    · exact ih

/-- The kinds of tokens, and what is made of their texts. -/
inductive TokenKind : String → (Label → Body) → Prop
  | string : TokenKind "STRING" .literal
  | pattern : TokenKind "PATTERN" .pattern

/-- The kinds of groups, and what is made of their parts. -/
inductive GroupKind : String → (List Body → Body) → Prop
  | seq : GroupKind "SEQ" .seq
  | choice : GroupKind "CHOICE" .choice

/-- The kinds of repetitions, and what is made of what is repeated. -/
inductive RepetitionKind : String → (Body → Body) → Prop
  | star : RepetitionKind "REPEAT" .star
  | plus : RepetitionKind "REPEAT1" .plus

section
variable {members : List (String × Json)} {kind : String}

theorem convert_wrapper (h : Json.member "type" members = some (.str kind))
    (hk : isTransparent kind) : convert (.obj members) = contentOf members := by
  rw [convert, h]
  exact if_pos hk

theorem convert_blank (h : Json.member "type" members = some (.str "BLANK")) :
    convert (.obj members) = .ok (.blank, []) := by
  rw [convert, h]
  rfl

theorem convert_token {make : Label → Body} (h : Json.member "type" members = some (.str kind))
    (hk : TokenKind kind make) :
    convert (.obj members) = (do pure (make (← needed "value" members), [])) := by
  cases hk with
  | string | pattern =>
    rw [convert, h]
    rfl

theorem convert_symbol (h : Json.member "type" members = some (.str "SYMBOL")) :
    convert (.obj members) = (do pure (.symbol (← needed "name" members), [])) := by
  rw [convert, h]
  rfl

theorem convert_group {make : List Body → Body}
    (h : Json.member "type" members = some (.str kind)) (hk : GroupKind kind make) :
    convert (.obj members) = (do
      let (bodies, aliases) ← membersOf members
      pure (make bodies, aliases)) := by
  cases hk with
  | seq | choice =>
    rw [convert, h]
    rfl

theorem convert_repetition {make : Body → Body}
    (h : Json.member "type" members = some (.str kind)) (hk : RepetitionKind kind make) :
    convert (.obj members) = (do
      let (body, aliases) ← contentOf members
      pure (make body, aliases)) := by
  cases hk with
  | star | plus =>
    rw [convert, h]
    rfl

theorem convert_alias (h : Json.member "type" members = some (.str "ALIAS")) :
    convert (.obj members) = (do
      let named ← needed "named" members
      let value ← needed "value" members
      if named.isTrue then
        let (body, aliases) ← contentOf members
        let name ← scalar value
        pure (.symbol name, aliases ++ [(name, body)])
      else pure (.literal value, [])) := by
  rw [convert, h]
  rfl

/-- The kinds of bodies. -/
inductive BodyKind : String → Prop
  | wrapper {kind : String} : isTransparent kind → BodyKind kind
  | blank : BodyKind "BLANK"
  | token {kind : String} {make : Label → Body} : TokenKind kind make → BodyKind kind
  | symbol : BodyKind "SYMBOL"
  | group {kind : String} {make : List Body → Body} : GroupKind kind make → BodyKind kind
  | repetition {kind : String} {make : Body → Body} : RepetitionKind kind make → BodyKind kind
  | aliased : BodyKind "ALIAS"

theorem kind_of_convert {r : Body × Bodies} (h : convert (.obj members) = .ok r) :
    ∃ kind, Json.member "type" members = some (.str kind) ∧ BodyKind kind := by
  rw [convert] at h
  split at h
  · cases h
  · cases h
  · cases h
  · rename_i kind htype
    refine ⟨kind, htype, ?_⟩
    by_cases hkind : kind ∈ ["BLANK", "STRING", "PATTERN", "SYMBOL", "SEQ", "CHOICE", "REPEAT",
        "REPEAT1", "ALIAS"]
    · simp only [List.mem_cons, List.not_mem_nil, or_false] at hkind
      rcases hkind with rfl | rfl | rfl | rfl | rfl | rfl | rfl | rfl | rfl
      · exact .blank
      · exact .token .string
      · exact .token .pattern
      · exact .symbol
      · exact .group .seq
      · exact .group .choice
      · exact .repetition .star
      · exact .repetition .plus
      · exact .aliased
    · -- No other kind than that of a wrapper passes all the comparisons.
      by_contra hno
      have hwrapper : ¬ isTransparent kind := fun hw => hno (.wrapper hw)
      simp only [List.mem_cons, List.not_mem_nil, or_false, not_or] at hkind
      simp only [hwrapper, hkind] at h
      cases h
  · cases h

end

mutual

/-- The named aliases in the description of a body, each with what describes its content, in the
order in which they are recorded: those in a content before the alias itself. -/
def namedAliases : Json → List (Label × Json)
  | .obj members =>
    match Json.member "type" members with
    | some (.str kind) =>
      if isTransparent kind || kind = "REPEAT" || kind = "REPEAT1" then aliasesInContent members
      else if kind = "SEQ" || kind = "CHOICE" then aliasesInMembers members
      else if kind = "ALIAS" then
        match Json.member "named" members, Json.member "value" members,
          Json.member "content" members with
        | some named, some name, some content =>
          if named.isTrue then aliasesInContent members ++ [(name, content)] else []
        | _, _, _ => []
      else []
    | _ => []
  | _ => []

def aliasesInContent : List (String × Json) → List (Label × Json)
  | [] => []
  | (name, value) :: rest => if name = "content" then namedAliases value else aliasesInContent rest

def aliasesInMembers : List (String × Json) → List (Label × Json)
  | [] => []
  | (name, value) :: rest =>
    if name = "members" then aliasesInGroup value else aliasesInMembers rest

def aliasesInGroup : Json → List (Label × Json)
  | .arr values => aliasesInAll values
  | _ => []

def aliasesInAll : List Json → List (Label × Json)
  | [] => []
  | value :: rest => namedAliases value ++ aliasesInAll rest

end

/-- What is recorded for an alias: its name and the body that its content describes. -/
def Records (occurrence : Label × Json) (entry : Label × Body) : Prop :=
  entry.1 = occurrence.1 ∧ ∃ inner, convert occurrence.2 = .ok (entry.2, inner)

mutual

/-- What is recorded while a body is converted are the aliases in its description. -/
theorem records_convert : (json : Json) → {body : Body} → {aliases : Bodies} →
    convert json = .ok (body, aliases) → List.Forall₂ Records (namedAliases json) aliases
  | .obj members, body, aliases, h => by
    obtain ⟨kind, htype, hkind⟩ := kind_of_convert h
    rw [namedAliases, htype]
    dsimp only
    cases hkind with
    | wrapper hwrapper =>
      rw [convert_wrapper htype hwrapper] at h
      rw [hwrapper]
      exact records_contentOf members h
    | blank =>
      rw [convert_blank htype] at h
      cases h
      exact .nil
    | token htoken =>
      rw [convert_token htype htoken] at h
      obtain ⟨value, -, h⟩ := exists_of_bind_eq_ok h
      cases h
      cases htoken with
      | string | pattern => exact .nil
    | symbol =>
      rw [convert_symbol htype] at h
      obtain ⟨value, -, h⟩ := exists_of_bind_eq_ok h
      cases h
      exact .nil
    | group hgroup =>
      rw [convert_group htype hgroup] at h
      obtain ⟨⟨bodies, aliases⟩, hbodies, h⟩ := exists_of_bind_eq_ok h
      cases h
      cases hgroup with
      | seq | choice => exact records_membersOf members hbodies
    | repetition hrepetition =>
      rw [convert_repetition htype hrepetition] at h
      obtain ⟨⟨body, aliases⟩, hbody, h⟩ := exists_of_bind_eq_ok h
      cases h
      cases hrepetition with
      | star | plus => exact records_contentOf members hbody
    | aliased =>
      rw [convert_alias htype] at h
      obtain ⟨named, hnamed, h⟩ := exists_of_bind_eq_ok h
      obtain ⟨value, hvalue, h⟩ := exists_of_bind_eq_ok h
      rw [needed_eq_ok] at hnamed hvalue
      have hplain : isTransparent "ALIAS" = false := rfl
      rw [hnamed, hvalue]
      split at h
      · rename_i htrue
        obtain ⟨⟨content, inner⟩, hcontent, h⟩ := exists_of_bind_eq_ok h
        obtain ⟨name, hname, h⟩ := exists_of_bind_eq_ok h
        cases h
        obtain ⟨described, hdescribed, hconvert⟩ := contentOf_eq_ok.mp hcontent
        have hlast : Records (value, described) (name, content) :=
          ⟨eq_of_scalar hname, inner, hconvert⟩
        have hall := List.rel_append (records_contentOf members hcontent) (.cons hlast .nil)
        simpa [hdescribed, htrue, hplain] using hall
      · -- An alias without a name is a token, whatever its content is.
        rename_i hfalse
        cases h
        cases hcontent : Json.member "content" members with
        | none => exact .nil
        | some content => simp [hfalse, hplain]
  | .arr _, _, _, h | .null, _, _, h | .bool _, _, _, h | .int _, _, _, h | .real _, _, _, h
  | .infinite _, _, _, h | .nan, _, _, h | .str _, _, _, h => by cases h

theorem records_contentOf : (members : List (String × Json)) → {body : Body} →
    {aliases : Bodies} → contentOf members = .ok (body, aliases) →
      List.Forall₂ Records (aliasesInContent members) aliases
  | [], _, _, h => by cases h
  | (name, value) :: rest, _, _, h => by
    rw [contentOf] at h
    rw [aliasesInContent]
    split at h
    · rename_i hname
      rw [if_pos hname]
      exact records_convert value h
    · rename_i hname
      rw [if_neg hname]
      exact records_contentOf rest h

theorem records_membersOf : (members : List (String × Json)) → {bodies : List Body} →
    {aliases : Bodies} → membersOf members = .ok (bodies, aliases) →
      List.Forall₂ Records (aliasesInMembers members) aliases
  | [], _, _, h => by cases h
  | (name, value) :: rest, _, _, h => by
    rw [membersOf] at h
    rw [aliasesInMembers]
    split at h
    · rename_i hname
      rw [if_pos hname]
      exact records_convertGroup value h
    · rename_i hname
      rw [if_neg hname]
      exact records_membersOf rest h

theorem records_convertGroup : (json : Json) → {bodies : List Body} → {aliases : Bodies} →
    convertGroup json = .ok (bodies, aliases) →
      List.Forall₂ Records (aliasesInGroup json) aliases
  | .arr values, _, _, h => records_convertAll values h
  | .str s, _, _, h => by
    rw [convertGroup] at h
    split at h
    · cases h
      exact .nil
    · cases h
  | .obj members, _, _, h => by
    rw [convertGroup] at h
    split at h
    · cases h
      exact .nil
    · cases h
  | .null, _, _, h | .bool _, _, _, h | .int _, _, _, h | .real _, _, _, h
  | .infinite _, _, _, h | .nan, _, _, h => by cases h

theorem records_convertAll : (values : List Json) → {bodies : List Body} → {aliases : Bodies} →
    convertAll values = .ok (bodies, aliases) →
      List.Forall₂ Records (aliasesInAll values) aliases
  | [], _, _, h => by cases h; exact .nil
  | value :: rest, _, _, h => by
    obtain ⟨⟨body, aliases⟩, hbody, h⟩ := exists_of_bind_eq_ok h
    obtain ⟨⟨bodies, more⟩, hbodies, h⟩ := exists_of_bind_eq_ok h
    cases h
    exact List.rel_append (records_convert value hbody) (records_convertAll rest hbodies)

end

/-- The named aliases in the descriptions of rules. -/
def aliasesInRules (rules : List (String × Json)) : List (Label × Json) :=
  rules.flatMap fun rule => namedAliases rule.2

theorem records_convertRules {rules : List (String × Json)} {bodies recorded : Bodies}
    (h : convertRules rules = .ok (bodies, recorded)) :
    List.Forall₂ Records (aliasesInRules rules) recorded := by
  induction rules generalizing bodies recorded with
  | nil =>
    cases h
    exact .nil
  | cons rule rules ih =>
    obtain ⟨⟨body, aliases⟩, hbody, h⟩ := exists_of_bind_eq_ok h
    obtain ⟨⟨others, more⟩, hothers, h⟩ := exists_of_bind_eq_ok h
    cases h
    exact List.rel_append (records_convert rule.2 hbody) (ih hothers)

/-- The names of rules. -/
def ruleNames (rules : List (String × Json)) : List Label :=
  rules.map fun rule => .str rule.1

theorem names_convertRules {rules : List (String × Json)} {bodies recorded : Bodies}
    (h : convertRules rules = .ok (bodies, recorded)) :
    bodies.names = ruleNames rules := by
  induction rules generalizing bodies recorded with
  | nil =>
    cases h
    rfl
  | cons rule rules ih =>
    obtain ⟨⟨body, aliases⟩, hbody, h⟩ := exists_of_bind_eq_ok h
    obtain ⟨⟨others, more⟩, hothers, h⟩ := exists_of_bind_eq_ok h
    cases h
    exact congrArg _ (ih hothers)

/-- The elements of a member that is a list. -/
def elements (name : String) (members : List (String × Json)) : List Json :=
  match Json.member name members with
  | some (.arr values) => values
  | _ => []

/-- The name in an object of kind `SYMBOL`. -/
def symbolName? : Json → Option Label
  | .obj members =>
    if Json.member "type" members = some (.str "SYMBOL") then Json.member "name" members else none
  | _ => none

/-- The names of the externals that are references to rules. -/
def externalNames (members : List (String × Json)) : List Label :=
  (elements "externals" members).filterMap symbolName?

theorem symbolNames_eq_ok {read : Json → Except LoadError Label}
    (hread : ∀ value name, read value = .ok name → name = value) {values : List Json}
    {names : List Label} (h : symbolNames read values = .ok names) :
    names = values.filterMap symbolName? := by
  induction values generalizing names with
  | nil =>
    cases h
    rfl
  | cons value values ih =>
    cases value with
    | obj members =>
      rw [symbolNames] at h
      rw [List.filterMap_cons, symbolName?]
      split at h
      · rename_i htype
        obtain ⟨value, hvalue, h⟩ := exists_of_bind_eq_ok h
        obtain ⟨name, hname, h⟩ := exists_of_bind_eq_ok h
        obtain ⟨others, hothers, h⟩ := exists_of_bind_eq_ok h
        cases h
        rw [if_pos htype, needed_eq_ok.mp hvalue, hread value name hname, ih hothers]
      · rename_i htype
        rw [if_neg htype, ih h]
    | _ => cases h

/-- The parts of texts and objects have no names, so the names are those in a list. -/
theorem symbolNames_itemsOf {read : Json → Except LoadError Label}
    (hread : ∀ value name, read value = .ok name → name = value) {member : String}
    {members : List (String × Json)} {values : List Json} {names : List Label}
    (hvalues : itemsOf member members = .ok values) (h : symbolNames read values = .ok names) :
    names = (elements member members).filterMap symbolName? := by
  rw [symbolNames_eq_ok hread h, elements]
  rw [itemsOf] at hvalues
  cases hmember : Json.member member members with
  | none =>
    rw [hmember] at hvalues
    cases hvalues
    rfl
  | some value =>
    rw [hmember] at hvalues
    cases value with
    | arr elements =>
      cases hvalues
      rfl
    | str s =>
      cases hvalues
      simp [symbolName?]
    | obj fields =>
      cases hvalues
      simp [symbolName?]
    | _ =>
      dsimp only [items] at hvalues
      split at hvalues
      · cases hvalues
      · cases hvalues
        rfl

/-- The first body of a name stays the first one. -/
theorem find_foldl_addNew (bodies more : Bodies) (name : Label) :
    (more.foldl Bodies.addNew bodies).find name = Bodies.find (bodies ++ more) name := by
  induction more generalizing bodies with
  | nil => rw [List.append_nil]; rfl
  | cons entry more ih =>
    rw [List.foldl_cons, ih, Bodies.addNew]
    split
    · rename_i hhas
      obtain ⟨same, hsame, hlike⟩ := List.any_eq_true.mp hhas
      rw [Bodies.find, Bodies.find, List.find?_append, List.find?_append, List.find?_cons]
      split
      · -- There is one of that name among the bodies before.
        rename_i hname
        rw [Json.alike_iff] at hlike hname
        have hfirst : (List.find? (fun entry => entry.1.alike name) bodies).isSome := by
          rw [List.find?_isSome]
          exact ⟨same, hsame, (Json.alike_iff _ _).mpr (hlike.trans hname)⟩
        rw [Option.or_of_isSome hfirst, Option.or_of_isSome hfirst]
      · rfl
    · rw [List.append_assoc]
      rfl

theorem mem_of_mem_foldl_addNew {bodies more : Bodies} {entry : Label × Body}
    (h : entry ∈ more.foldl Bodies.addNew bodies) : entry ∈ bodies ++ more := by
  induction more generalizing bodies with
  | nil => rwa [List.append_nil]
  | cons first more ih =>
    have hrest := ih h
    rw [Bodies.addNew] at hrest
    split at hrest
    · rcases List.mem_append.mp hrest with hrest | hrest
      · exact List.mem_append_left _ hrest
      · exact List.mem_append_right _ (List.mem_cons_of_mem _ hrest)
    · rwa [List.append_assoc] at hrest

theorem addExternals_eq_foldl (bodies : Bodies) (names : List Label) :
    addExternals bodies names =
      (names.map fun name => (name, Body.blank)).foldl Bodies.addNew bodies := by
  rw [List.foldl_map]
  rfl

theorem named_of_checkNames {bodies : Bodies} (h : checkNames (bodies.map Prod.fst) = .ok ()) :
    bodies.Named := by
  induction bodies with
  | nil => exact fun entry he => nomatch he
  | cons first rest ih =>
    obtain ⟨name, body⟩ := first
    cases name with
    | str text =>
      intro entry he
      rcases List.mem_cons.mp he with rfl | he
      · exact ⟨text, rfl⟩
      · exact ih h entry he
    | _ => cases h

theorem Bodies.has_congr (bodies : Bodies) {a b : Label} (h : a.alike b) :
    bodies.has a = bodies.has b := by
  rw [Json.alike_iff] at h
  simp only [Bodies.has, Json.alike, h]

theorem Bodies.Named.has_iff {bodies : Bodies} (h : bodies.Named) (name : Label) :
    bodies.has name ↔ name ∈ bodies.names := by
  rw [Bodies.has, List.any_eq_true, Bodies.names, List.mem_map]
  refine exists_congr fun entry => and_congr_right fun he => ?_
  obtain ⟨text, htext⟩ := h entry he
  rw [htext, Json.alike_str_left_iff]
  exact eq_comm

theorem Bodies.Named.name_of_find {bodies : Bodies} (h : bodies.Named) {name : String}
    {entry : Label × Body} (hfind : bodies.find (.str name) = some entry) :
    entry ∈ bodies ∧ entry.1 = .str name := by
  have hmem : entry ∈ bodies := List.mem_of_find?_eq_some hfind
  have hlike : entry.1.alike (.str name) := by
    simpa using List.find?_some hfind
  obtain ⟨text, htext⟩ := h entry hmem
  rw [htext, Json.alike_str_left_iff] at hlike
  exact ⟨hmem, htext.trans hlike.symm⟩

theorem eq_of_ruleMembers {value : Json} {rules : List (String × Json)}
    (h : ruleMembers value = .ok rules) : value = .obj rules := by
  unfold ruleMembers at h
  by_cases htrue : value.isTrue
  · rw [if_pos htrue] at h
    cases value <;> cases h
    rfl
  · rw [if_neg htrue] at h
    cases h

/-- The rules that a draft is read from: their bodies come first, then those of the externals, and
the aliases are those in the rules. -/
structure Draft.ReadFrom (draft : Draft) (members rules : List (String × Json)) : Prop where
  described : Json.member "rules" members = some (.obj rules)
  converted : ∃ bodies recorded, convertRules rules = .ok (bodies, recorded) ∧
    draft.bodies = addExternals bodies (externalNames members) ∧
    draft.aliases = firstOfEach recorded
  named : draft.bodies.Named

theorem exists_readFrom {members : List (String × Json)} {draft : Draft}
    (h : draftOf members = .ok draft) : ∃ rules, draft.ReadFrom members rules := by
  obtain ⟨value, hvalue, h⟩ := exists_of_bind_eq_ok h
  obtain ⟨rules, hrules, h⟩ := exists_of_bind_eq_ok h
  obtain ⟨⟨bodies, recorded⟩, hconvert, h⟩ := exists_of_bind_eq_ok h
  obtain ⟨externals, hexternals, h⟩ := exists_of_bind_eq_ok h
  obtain ⟨names, hnames, h⟩ := exists_of_bind_eq_ok h
  obtain ⟨inlined, -, h⟩ := exists_of_bind_eq_ok h
  obtain ⟨listed, -, h⟩ := exists_of_bind_eq_ok h
  obtain ⟨supers, -, h⟩ := exists_of_bind_eq_ok h
  obtain ⟨supertypes, -, h⟩ := exists_of_bind_eq_ok h
  obtain ⟨⟨⟩, hcheck, h⟩ := exists_of_bind_eq_ok h
  cases h
  have hobj : value = .obj rules := eq_of_ruleMembers hrules
  refine ⟨rules, ?_, ⟨bodies, recorded, hconvert, ?_, rfl⟩, named_of_checkNames hcheck⟩
  · rw [needed_eq_ok.mp hvalue, hobj]
  · rw [symbolNames_itemsOf (fun _ _ => eq_of_scalar) hexternals hnames]
    rfl

theorem aliased_symbol (bodies : Bodies) (text : String) :
    aliased bodies (.symbol (.str text)) =
      .ok (((bodies.find (.str text)).map Prod.snd).getD (.symbol (.str text))) := by
  have hname : scalar (.str text) = .ok (.str text) := rfl
  rw [aliased, hname]
  simp only [bind, Except.bind]
  cases bodies.find (.str text) with
  | none => rfl
  | some entry => rfl

theorem eq_of_inlineRule {hidden : Bodies} {entry : Label × Body} {rule : Rule}
    (h : inlineRule hidden entry = .ok rule) :
    rule.name = entry.1 ∧ inlineIn hidden entry.2 = .ok rule.body := by
  obtain ⟨body, hbody, h⟩ := exists_of_bind_eq_ok h
  cases h
  exact ⟨rfl, hbody⟩

/-- The rules of a draft: one for each body that stays, then one for each alias. -/
structure Draft.Gives (draft : Draft) (shown named : List Rule) : Prop where
  shown : List.Forall₂ (fun entry rule => inlineRule draft.hidden entry = .ok rule) draft.shown shown
  named : List.Forall₂ (fun entry rule => ∃ body, aliased draft.bodies entry.2 = .ok body ∧
    inlineRule draft.hidden (entry.1, body) = .ok rule) draft.named named

theorem exists_gives {members : List (String × Json)} {g : Grammar}
    (h : Grammar.ofJson (.obj members) = .ok g) : ∃ draft shown named,
      draftOf members = .ok draft ∧ draft.Gives shown named ∧ g.rules = shown ++ named := by
  obtain ⟨draft, hdraft, h⟩ := exists_of_bind_eq_ok h
  obtain ⟨rules, hrules, h⟩ := exists_of_bind_eq_ok h
  obtain ⟨values, -, h⟩ := exists_of_bind_eq_ok h
  obtain ⟨extras, -, h⟩ := exists_of_bind_eq_ok h
  have heq : g.rules = rules := by
    split at h
    · rename_i hg
      cases h
      exact rules_of_ofRules hg
    · cases h
  obtain ⟨shown, hshown, hrules⟩ := exists_of_bind_eq_ok hrules
  obtain ⟨named, hnamed, hrules⟩ := exists_of_bind_eq_ok hrules
  cases hrules
  refine ⟨draft, shown, named, hdraft, ⟨forall₂_of_mapM_eq_ok hshown, ?_⟩, heq⟩
  apply (forall₂_of_mapM_eq_ok hnamed).imp
  intro entry rule hr
  exact exists_of_bind_eq_ok hr

end Description

end TreeGrammar
