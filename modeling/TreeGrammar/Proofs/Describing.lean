import TreeGrammar.Proofs.Methods
import TreeGrammar.Proofs.Recording

/-!
Well-shaped descriptions. Their bodies are of known kinds, none of their groups is empty, and they
refer to rules and externals that are there. So they are converted to bodies without faults: a
symbol is the name of a rule, of an external or of an alias that is recorded.
-/
namespace TreeGrammar

open Description

namespace Body

/-- No group is empty, and all symbols are among the names. -/
structure Closed (names : List Label) (body : Body) : Prop where
  grouped : body.Grouped
  symbols : body.symbols ⊆ names

/-- No group in the bodies is empty, and all their symbols are among the names. -/
structure ClosedAll (names : List Label) (bodies : List Body) : Prop where
  grouped : GroupedAll bodies
  symbols : symbolsOf bodies ⊆ names

variable {names : List Label}

theorem closed_symbol {name : Label} (h : name ∈ names) : (symbol name).Closed names :=
  ⟨trivial, List.cons_subset.mpr ⟨h, List.nil_subset names⟩⟩

theorem closed_blank : blank.Closed names :=
  ⟨trivial, List.nil_subset names⟩

theorem closedAll_nil : ClosedAll names [] :=
  ⟨trivial, List.nil_subset names⟩

theorem ClosedAll.cons {body : Body} {rest : List Body} (h : body.Closed names)
    (hrest : ClosedAll names rest) : ClosedAll names (body :: rest) :=
  ⟨⟨h.grouped, hrest.grouped⟩, List.append_subset.mpr ⟨h.symbols, hrest.symbols⟩⟩

theorem closed_token {kind : String} {make : Label → Body} (hk : TokenKind kind make)
    (text : Label) : (make text).Closed names := by
  cases hk with
  | string | pattern => exact ⟨trivial, List.nil_subset names⟩

theorem Closed.repetition {kind : String} {make : Body → Body} (hk : RepetitionKind kind make)
    {body : Body} (h : body.Closed names) : (make body).Closed names := by
  cases hk with
  | star | plus => exact ⟨h.grouped, h.symbols⟩

theorem ClosedAll.group {kind : String} {make : List Body → Body} (hk : GroupKind kind make)
    {bodies : List Body} (hne : bodies ≠ []) (h : ClosedAll names bodies) :
    (make bodies).Closed names := by
  cases hk with
  | seq | choice => exact ⟨⟨hne, h.grouped⟩, h.symbols⟩

mutual

/-- A body whose symbols are names of rules has no fault. -/
theorem fault_eq_none (rule : Label) : (body : Body) → body.Closed names →
    body.fault names rule = none
  | symbol name, h => by
    have hmem : name ∈ names := h.symbols List.mem_cons_self
    exact if_pos (List.any_eq_true.mpr ⟨name, hmem, Json.alike_refl name⟩)
  | literal _, _ | pattern _, _ | blank, _ => rfl
  | star body, h | plus body, h => fault_eq_none rule body ⟨h.grouped, h.symbols⟩
  | choice [], h | seq [], h => absurd rfl h.grouped.1
  | choice (body :: rest), h | seq (body :: rest), h => by
    obtain ⟨hbody, hrest⟩ := List.append_subset.mp h.symbols
    have hfirst := fault_eq_none rule body ⟨h.grouped.2.1, hbody⟩
    have hothers := faultIn_eq_none rule rest ⟨h.grouped.2.2, hrest⟩
    rw [fault, hfirst, hothers]
    rfl

theorem faultIn_eq_none (rule : Label) : (bodies : List Body) → ClosedAll names bodies →
    faultIn names rule bodies = none
  | [], _ => rfl
  | body :: rest, h => by
    obtain ⟨hbody, hrest⟩ := List.append_subset.mp h.symbols
    have hfirst := fault_eq_none rule body ⟨h.grouped.1, hbody⟩
    have hothers := faultIn_eq_none rule rest ⟨h.grouped.2, hrest⟩
    rw [faultIn, hfirst, hothers]
    rfl

end

end Body

namespace Description

/-- The value describes a body: the kinds in it are known, no group is empty, and it refers to
declared names alone. -/
inductive Describes (declared : List Label) : Json → Prop
  | wrapper {members : List (String × Json)} {kind : String} {content : Json} :
    Json.member "type" members = some (.str kind) → isTransparent kind →
      Json.member "content" members = some content → Describes declared content →
        Describes declared (.obj members)
  | blank {members : List (String × Json)} :
    Json.member "type" members = some (.str "BLANK") → Describes declared (.obj members)
  | token {members : List (String × Json)} {kind : String} {make : Label → Body} {text : Json} :
    Json.member "type" members = some (.str kind) → TokenKind kind make →
      Json.member "value" members = some text → Describes declared (.obj members)
  | symbol {members : List (String × Json)} {name : Label} :
    Json.member "type" members = some (.str "SYMBOL") →
      Json.member "name" members = some name → name ∈ declared →
        Describes declared (.obj members)
  | group {members : List (String × Json)} {kind : String} {make : List Body → Body}
    {parts : List Json} :
    Json.member "type" members = some (.str kind) → GroupKind kind make →
      Json.member "members" members = some (.arr parts) → parts ≠ [] →
        (∀ part ∈ parts, Describes declared part) → Describes declared (.obj members)
  | repetition {members : List (String × Json)} {kind : String} {make : Body → Body}
    {content : Json} :
    Json.member "type" members = some (.str kind) → RepetitionKind kind make →
      Json.member "content" members = some content → Describes declared content →
        Describes declared (.obj members)
  | unnamed {members : List (String × Json)} {named text : Json} :
    Json.member "type" members = some (.str "ALIAS") →
      Json.member "named" members = some named → named.isTrue = false →
        Json.member "value" members = some text → Describes declared (.obj members)
  | named {members : List (String × Json)} {named content : Json} {name : String} :
    Json.member "type" members = some (.str "ALIAS") →
      Json.member "named" members = some named → named.isTrue = true →
        Json.member "value" members = some (.str name) →
          Json.member "content" members = some content → Describes declared content →
            Describes declared (.obj members)

/-- What is recorded has texts as names, and with these names and the declared ones everything is
closed. Which names aliases give is known at the end only, so this is said of all names that include
those given so far. -/
structure Converted (declared : List Label) (closed : List Label → Prop) (aliases : Bodies) :
    Prop where
  named : aliases.Named
  closed : ∀ names, declared ⊆ names → aliases.names ⊆ names →
    closed names ∧ ∀ entry ∈ aliases, entry.2.Closed names

variable {declared : List Label}

theorem Bodies.named_nil : Bodies.Named [] :=
  fun _ he => nomatch he

theorem converted_nil {closed : List Label → Prop} (h : ∀ names, declared ⊆ names → closed names) :
    Converted declared closed [] :=
  ⟨Bodies.named_nil, fun names hd _ => ⟨h names hd, fun _ he => nomatch he⟩⟩

theorem Converted.mono {closed closed' : List Label → Prop} {aliases : Bodies}
    (h : Converted declared closed aliases) (hmono : ∀ names, closed names → closed' names) :
    Converted declared closed' aliases :=
  ⟨h.named, fun names hd ha => ⟨hmono names (h.closed names hd ha).1, (h.closed names hd ha).2⟩⟩

theorem Bodies.Named.append {bodies more : Bodies} (hb : bodies.Named) (hm : more.Named) :
    Bodies.Named (bodies ++ more) :=
  fun entry he => (List.mem_append.mp he).elim (hb entry) (hm entry)

theorem Converted.append {closed closed' : List Label → Prop} {aliases more : Bodies}
    (h : Converted declared closed aliases) (h' : Converted declared closed' more) :
    Converted declared (fun names => closed names ∧ closed' names) (aliases ++ more) := by
  refine ⟨h.named.append h'.named, fun names hd ha => ?_⟩
  rw [Bodies.names_append, List.append_subset] at ha
  obtain ⟨hclosed, haliases⟩ := h.closed names hd ha.1
  obtain ⟨hclosed', hmore⟩ := h'.closed names hd ha.2
  refine ⟨⟨hclosed, hclosed'⟩, fun entry he => ?_⟩
  exact (List.mem_append.mp he).elim (haliases entry) (hmore entry)

/-- An alias is recorded with its content, and its symbol is the name that is recorded. -/
theorem Converted.record {body : Body} {aliases : Bodies}
    (h : Converted declared (fun names => body.Closed names) aliases) (name : String) :
    Converted declared (fun names => (Body.symbol (.str name)).Closed names)
      (aliases ++ [(.str name, body)]) := by
  refine ⟨?_, fun names hd ha => ?_⟩
  · intro entry he
    rcases List.mem_append.mp he with he | he
    · exact h.named entry he
    · exact ⟨name, congrArg Prod.fst (List.mem_singleton.mp he)⟩
  · rw [Bodies.names_append, List.append_subset] at ha
    obtain ⟨hbody, haliases⟩ := h.closed names hd ha.1
    refine ⟨Body.closed_symbol (ha.2 List.mem_cons_self), fun entry he => ?_⟩
    rcases List.mem_append.mp he with he | he
    · exact haliases entry he
    · rw [List.mem_singleton.mp he]
      exact hbody

theorem exists_convertAll {parts : List Json}
    (h : ∀ part ∈ parts, ∃ body aliases, convert part = .ok (body, aliases) ∧
      Converted declared (fun names => body.Closed names) aliases) :
    ∃ bodies aliases, convertAll parts = .ok (bodies, aliases) ∧
      bodies.length = parts.length ∧
      Converted declared (fun names => Body.ClosedAll names bodies) aliases := by
  induction parts with
  | nil => exact ⟨[], [], rfl, rfl, converted_nil fun _ _ => Body.closedAll_nil⟩
  | cons part parts ih =>
    obtain ⟨body, aliases, hbody, hfirst⟩ := h part List.mem_cons_self
    obtain ⟨bodies, more, hbodies, hlength, hrest⟩ :=
      ih fun other ho => h other (List.mem_cons_of_mem part ho)
    refine ⟨body :: bodies, aliases ++ more, ?_, congrArg Nat.succ hlength, ?_⟩
    · rw [convertAll, hbody, hbodies]
      rfl
    · exact (hfirst.append hrest).mono fun names hc => .cons hc.1 hc.2

/-- What describes a body is converted. -/
theorem Describes.exists_convert {json : Json} (h : Describes declared json) :
    ∃ body aliases, convert json = .ok (body, aliases) ∧
      Converted declared (fun names => body.Closed names) aliases := by
  induction h with
  | wrapper htype hkind hcontent _ ih =>
    obtain ⟨body, aliases, hbody, hconverted⟩ := ih
    refine ⟨body, aliases, ?_, hconverted⟩
    rw [convert_wrapper htype hkind]
    exact contentOf_eq_ok.mpr ⟨_, hcontent, hbody⟩
  | blank htype =>
    exact ⟨_, _, convert_blank htype, converted_nil fun _ _ => Body.closed_blank⟩
  | @token _ _ make text htype hkind htext =>
    refine ⟨make text, [], ?_, converted_nil fun _ _ => Body.closed_token hkind text⟩
    rw [convert_token htype hkind, needed_eq_ok.mpr htext]
    rfl
  | @symbol _ name htype hname hdeclared =>
    refine ⟨.symbol name, [], ?_, converted_nil fun _ hd => Body.closed_symbol (hd hdeclared)⟩
    rw [convert_symbol htype, needed_eq_ok.mpr hname]
    rfl
  | @group _ _ make parts htype hkind hmembers hne _ ih =>
    obtain ⟨bodies, aliases, hbodies, hlength, hconverted⟩ := exists_convertAll ih
    have hbodiesNe : bodies ≠ [] := by
      rw [← List.length_pos_iff, hlength]
      exact List.length_pos_iff.mpr hne
    refine ⟨make bodies, aliases, ?_, hconverted.mono fun _ hc => hc.group hkind hbodiesNe⟩
    rw [convert_group htype hkind, membersOf_eq_ok.mpr ⟨_, hmembers, hbodies⟩]
    rfl
  | @repetition _ _ make _ htype hkind hcontent _ ih =>
    obtain ⟨body, aliases, hbody, hconverted⟩ := ih
    refine ⟨make body, aliases, ?_, hconverted.mono fun _ hc => hc.repetition hkind⟩
    rw [convert_repetition htype hkind, contentOf_eq_ok.mpr ⟨_, hcontent, hbody⟩]
    rfl
  | @unnamed _ _ text htype hnamed hfalse htext =>
    refine ⟨.literal text, [], ?_, converted_nil fun _ _ => Body.closed_token .string text⟩
    rw [convert_alias htype, needed_eq_ok.mpr hnamed, needed_eq_ok.mpr htext]
    change (if _ then _ else _) = _
    rw [hfalse]
    rfl
  | @named _ _ _ name htype hnamed htrue hvalue hcontent _ ih =>
    -- The aliases in the content are recorded before the alias itself.
    obtain ⟨body, aliases, hbody, hconverted⟩ := ih
    refine ⟨.symbol (.str name), aliases ++ [(.str name, body)], ?_, ?_⟩
    · rw [convert_alias htype, needed_eq_ok.mpr hnamed, needed_eq_ok.mpr hvalue]
      change (if _ then _ else _) = _
      rw [htrue, contentOf_eq_ok.mpr ⟨_, hcontent, hbody⟩]
      rfl
    · exact hconverted.record name

theorem exists_convertRules {rules : List (String × Json)}
    (h : ∀ rule ∈ rules, Describes declared rule.2) :
    ∃ bodies recorded, convertRules rules = .ok (bodies, recorded) ∧
      Converted declared (fun names => ∀ entry ∈ bodies, entry.2.Closed names) recorded := by
  induction rules with
  | nil => exact ⟨[], [], rfl, converted_nil fun _ _ _ he => nomatch he⟩
  | cons rule rules ih =>
    obtain ⟨body, aliases, hbody, hfirst⟩ := (h rule List.mem_cons_self).exists_convert
    obtain ⟨bodies, more, hbodies, hrest⟩ :=
      ih fun other ho => h other (List.mem_cons_of_mem rule ho)
    refine ⟨(.str rule.1, body) :: bodies, aliases ++ more, ?_, ?_⟩
    · rw [convertRules, hbody, hbodies]
      rfl
    · refine (hfirst.append hrest).mono fun names hc entry he => ?_
      rcases List.mem_cons.mp he with rfl | he
      · exact hc.1
      · exact hc.2 entry he

/-- An external or an extra: an object, which has a name if it refers to a rule. -/
def IsToken (value : Json) : Prop :=
  ∃ fields, value = .obj fields ∧ (Json.member "type" fields = some (.str "SYMBOL") →
    ∃ name, Json.member "name" fields = some (.str name))

/-- A supertype: a name, or an object that has a name. -/
inductive IsSupertype : Json → Prop
  | text (name : String) : IsSupertype (.str name)
  | object {fields : List (String × Json)} {name : String} :
    Json.member "name" fields = some (.str name) → IsSupertype (.obj fields)

/-- A well-shaped description and its rules: there are rules, with different names, whose bodies
refer to rules and externals that are there. -/
structure WellShaped (members rules : List (String × Json)) : Prop where
  described : Json.member "rules" members = some (.obj rules)
  nonempty : rules ≠ []
  distinct : (rules.map Prod.fst).Nodup
  bodies : ∀ rule ∈ rules, Describes (ruleNames rules ++ externalNames members) rule.2
  listed : ∀ name ∈ ["externals", "inline", "supertypes", "extras"], ∀ value,
    Json.member name members = some value → ∃ values, value = .arr values
  externals : ∀ value ∈ elements "externals" members, IsToken value
  inlined : ∀ value ∈ elements "inline" members, ∃ name, value = .str name
  supertypes : ∀ value ∈ elements "supertypes" members, IsSupertype value
  extras : ∀ value ∈ elements "extras" members, IsToken value

theorem itemsOf_eq {name : String} {members : List (String × Json)}
    (h : ∀ value, Json.member name members = some value → ∃ values, value = .arr values) :
    itemsOf name members = .ok (elements name members) := by
  rw [itemsOf, elements]
  cases hmember : Json.member name members with
  | none => rfl
  | some value =>
    obtain ⟨values, rfl⟩ := h value hmember
    rfl

theorem WellShaped.items_eq {members rules : List (String × Json)} (h : WellShaped members rules)
    (name : String) (hname : name ∈ ["externals", "inline", "supertypes", "extras"]) :
    itemsOf name members = .ok (elements name members) :=
  itemsOf_eq (h.listed name hname)

theorem symbolNames_of_tokens (read : Json → Except LoadError Label)
    (hread : ∀ name, read (.str name) = .ok (.str name)) {values : List Json}
    (h : ∀ value ∈ values, IsToken value) :
    symbolNames read values = .ok (values.filterMap symbolName?) := by
  induction values with
  | nil => rfl
  | cons value values ih =>
    obtain ⟨fields, rfl, hname⟩ := h value List.mem_cons_self
    have hrest := ih fun other ho => h other (List.mem_cons_of_mem _ ho)
    rw [symbolNames, List.filterMap_cons, symbolName?]
    split
    · rename_i htype
      obtain ⟨name, hname⟩ := hname htype
      rw [if_pos htype, needed_eq_ok.mpr hname, hname, hrest]
      change (do let first ← read (.str name); _) = _
      rw [hread]
      rfl
    · rename_i htype
      rw [if_neg htype, hrest]

theorem mapM_eq_ok {ε α β : Type} {f : α → Except ε β} {g : α → β} {as : List α}
    (h : ∀ a ∈ as, f a = .ok (g a)) : as.mapM f = .ok (as.map g) := by
  induction as with
  | nil => rfl
  | cons a as ih =>
    rw [List.mapM_cons, h a List.mem_cons_self, ih fun b hb => h b (List.mem_cons_of_mem a hb)]
    rfl

/-- What a supertype is called. -/
def supertypeLabel : Json → Label
  | .obj fields => (Json.member "name" fields).getD .null
  | value => value

/-- The names that are listed as those of rules without nodes. -/
def listedNames (members : List (String × Json)) : List Label :=
  elements "inline" members ++ (elements "supertypes" members).map supertypeLabel

theorem IsSupertype.name_eq {value : Json} (h : IsSupertype value) :
    supertypeName value = .ok (supertypeLabel value) := by
  cases h with
  | text name => rfl
  | object hname =>
    rw [supertypeName, needed_eq_ok.mpr hname, supertypeLabel, hname]
    rfl

theorem checkNames_eq_ok {bodies : Bodies} (h : bodies.Named) :
    checkNames (bodies.map Prod.fst) = .ok () := by
  induction bodies with
  | nil => rfl
  | cons first rest ih =>
    obtain ⟨text, htext⟩ := h first List.mem_cons_self
    rw [List.map_cons, htext, checkNames]
    exact ih fun entry he => h entry (List.mem_cons_of_mem first he)

theorem IsToken.exists_text {value : Json} (h : IsToken value) {name : Label}
    (hname : symbolName? value = some name) : ∃ text, name = .str text := by
  obtain ⟨fields, rfl, hfields⟩ := h
  rw [symbolName?] at hname
  split at hname
  · rename_i htype
    obtain ⟨text, htext⟩ := hfields htype
    exact ⟨text, Option.some.inj (hname.symm.trans htext)⟩
  · cases hname

theorem named_convertRules {rules : List (String × Json)} {bodies recorded : Bodies}
    (h : convertRules rules = .ok (bodies, recorded)) : bodies.Named := by
  intro entry he
  have hname : entry.1 ∈ ruleNames rules := by
    rw [← names_convertRules h]
    exact List.mem_map_of_mem he
  obtain ⟨rule, -, hrule⟩ := List.mem_map.mp hname
  exact ⟨rule.1, hrule.symm⟩

theorem WellShaped.named_externals {members rules : List (String × Json)}
    (h : WellShaped members rules) :
    Bodies.Named ((externalNames members).map fun name => (name, .blank)) := by
  intro entry he
  obtain ⟨name, hname, rfl⟩ := List.mem_map.mp he
  obtain ⟨value, hvalue, hsymbol⟩ := List.mem_filterMap.mp hname
  exact (h.externals value hvalue).exists_text hsymbol

theorem Bodies.Named.foldl_addNew {bodies more : Bodies} (hb : bodies.Named) (hm : more.Named) :
    Bodies.Named (more.foldl Bodies.addNew bodies) :=
  fun entry he => hb.append hm entry (mem_of_mem_foldl_addNew he)

/-- The draft that a description makes, given the bodies of its rules and what is recorded in
them. -/
def drafted (members rules : List (String × Json)) (bodies recorded : Bodies) : Draft where
  entrypoint := (rules.head?.map Prod.fst).getD ""
  bodies := addExternals bodies (externalNames members)
  aliases := firstOfEach recorded
  listed := listedNames members

/-- What a well-shaped description says about rules can be read. -/
theorem WellShaped.exists_draft {members rules : List (String × Json)}
    (h : WellShaped members rules) : ∃ bodies recorded,
      convertRules rules = .ok (bodies, recorded) ∧
      Converted (ruleNames rules ++ externalNames members)
        (fun names => ∀ entry ∈ bodies, entry.2.Closed names) recorded ∧
      draftOf members = .ok (drafted members rules bodies recorded) := by
  obtain ⟨bodies, recorded, hconvert, hconverted⟩ := exists_convertRules h.bodies
  have hneeded : needed "rules" members = .ok (.obj rules) := needed_eq_ok.mpr h.described
  have hrules : ruleMembers (.obj rules) = .ok rules :=
    if_pos (by rw [Json.isTrue, Bool.not_eq_true', List.isEmpty_eq_false_iff]; exact h.nonempty)
  have hexternals : symbolNames scalar (elements "externals" members) =
      .ok (externalNames members) := symbolNames_of_tokens scalar (fun _ => rfl) h.externals
  have hinlined : (elements "inline" members).mapM scalar = .ok (elements "inline" members) := by
    rw [mapM_eq_ok (g := id), List.map_id]
    intro value hvalue
    obtain ⟨name, rfl⟩ := h.inlined value hvalue
    rfl
  have hsupertypes := mapM_eq_ok fun value hv => (h.supertypes value hv).name_eq
  -- Externals are texts in a well-shaped description, so the check of names has nothing to refuse.
  have hnames := checkNames_eq_ok ((named_convertRules hconvert).foldl_addNew h.named_externals)
  rw [← addExternals_eq_foldl] at hnames
  refine ⟨bodies, recorded, hconvert, hconverted, ?_⟩
  simp only [draftOf, hneeded, hrules, hconvert, h.items_eq "externals" (by simp), hexternals,
    h.items_eq "inline" (by simp), hinlined, h.items_eq "supertypes" (by simp), hsupertypes,
    hnames, drafted, listedNames, bind, Except.bind, pure, Except.pure]

end Description

end TreeGrammar
