import Mathlib.Data.List.Nodup
import TreeGrammar.Proofs.Describing

/-!
Loaded grammars are closed. The rules of a well-shaped description are those that are not inlined,
the externals that are not declared and the new names that aliases give, in this order, and every
symbol that is left in them is the name of one of them. The only way to fail is to inline a rule
inside of itself.
-/
namespace TreeGrammar

open Description

/-- The result has the property, unless a rule was to be inlined inside of itself. -/
def UnlessCircular {α : Type} (P : α → Prop) : Except LoadError α → Prop
  | .ok a => P a
  | .error e => ∃ chain, e = .grammar (.recursiveInlining chain)

section
variable {α β : Type} {P : α → Prop} {Q : β → Prop}

theorem UnlessCircular.bind {x : Except LoadError α} (h : UnlessCircular P x)
    {f : α → Except LoadError β} (hf : ∀ a, P a → UnlessCircular Q (f a)) :
    UnlessCircular Q (x >>= f) := by
  cases x with
  | ok a => exact hf a h
  | error e => exact h

theorem UnlessCircular.mapM {P : α → β → Prop} {f : α → Except LoadError β} {as : List α}
    (h : ∀ a ∈ as, UnlessCircular (P a) (f a)) :
    UnlessCircular (List.Forall₂ P as) (as.mapM f) := by
  induction as with
  | nil => exact .nil
  | cons a as ih =>
    rw [List.mapM_cons]
    refine (h a List.mem_cons_self).bind fun b hb => ?_
    refine (ih fun other ho => h other (List.mem_cons_of_mem a ho)).bind fun bs hbs => ?_
    exact .cons hb hbs

end

namespace Body

variable {known names : List Label} {f : Label → Except LoadError Body}

mutual

/-- A body is closed again after its symbols are replaced by closed bodies. -/
theorem closed_bindSymbols (hf : ∀ name ∈ known, UnlessCircular (Closed names) (f name)) :
    (body : Body) → body.Closed known → UnlessCircular (Closed names) (body.bindSymbols f)
  | symbol name, h => hf name (h.symbols List.mem_cons_self)
  | literal _, _ => closed_token .string _
  | pattern _, _ => closed_token .pattern _
  | blank, _ => closed_blank
  | star body, h =>
    (closed_bindSymbols hf body ⟨h.grouped, h.symbols⟩).bind fun _ hb => hb.repetition .star
  | plus body, h =>
    (closed_bindSymbols hf body ⟨h.grouped, h.symbols⟩).bind fun _ hb => hb.repetition .plus
  | choice bodies, h => by
    refine (closed_bindSymbolsIn hf bodies ⟨h.grouped.2, h.symbols⟩).bind fun parts hp => ?_
    exact hp.2.group .choice (hp.1 h.grouped.1)
  | seq bodies, h => by
    refine (closed_bindSymbolsIn hf bodies ⟨h.grouped.2, h.symbols⟩).bind fun parts hp => ?_
    exact hp.2.group .seq (hp.1 h.grouped.1)

theorem closed_bindSymbolsIn (hf : ∀ name ∈ known, UnlessCircular (Closed names) (f name)) :
    (bodies : List Body) → ClosedAll known bodies →
      UnlessCircular (fun parts => (bodies ≠ [] → parts ≠ []) ∧ ClosedAll names parts)
        (bindSymbolsIn f bodies)
  | [], _ => ⟨id, closedAll_nil⟩
  | body :: rest, h => by
    obtain ⟨hbody, hrest⟩ := List.append_subset.mp h.symbols
    refine (closed_bindSymbols hf body ⟨h.grouped.1, hbody⟩).bind fun part hpart => ?_
    refine (closed_bindSymbolsIn hf rest ⟨h.grouped.2, hrest⟩).bind fun parts hparts => ?_
    exact ⟨fun _ => List.cons_ne_nil part parts, .cons hpart hparts.2⟩

end

end Body

namespace Description

/-- The bodies of hidden rules refer to known names, which are texts, and the known names that are
not hidden are names of rules. -/
structure Inlinable (hidden : Bodies) (known names : List Label) : Prop where
  texts : ∀ name ∈ known, ∃ text, name = .str text
  closed : ∀ entry ∈ hidden, entry.2.Closed known
  shown : ∀ name ∈ known, hidden.find name = none → name ∈ names

section
variable {hidden left : Bodies} {known names : List Label} {chain : List String}

/-- What a known name becomes is closed. -/
theorem Inlinable.closed_expand (h : Inlinable hidden known names) (hr : Remaining hidden left chain)
    {name : Label} (hname : name ∈ known) :
    UnlessCircular (Body.Closed names) (expand left chain name) := by
  -- The induction is on the rules that are left: a rule is inlined without itself.
  induction hlen : left.length using Nat.strongRecOn generalizing left chain name with
  | ind len ih =>
    obtain ⟨text, rfl⟩ := h.texts name hname
    rw [expand]
    split
    · rename_i key body hfind
      have hfree := hr.notMem_of_find hfind
      have hbody : body.Closed known := by
        rw [hr.unused text hfree] at hfind
        exact h.closed (key, body) (List.mem_of_find?_eq_some hfind)
      apply Body.closed_bindSymbols _ body hbody
      intro inner hinner
      exact ih _ (hlen ▸ Bodies.length_without_lt hfind) (hr.cons text) hinner rfl
    · rename_i hfind
      split
      · exact ⟨_, rfl⟩
      · rename_i hfree
        rw [hr.unused text hfree] at hfind
        exact Body.closed_symbol (h.shown _ hname hfind)

theorem Inlinable.closed_inlineRule (h : Inlinable hidden known names) (entry : Label × Body)
    (he : entry.2.Closed known) :
    UnlessCircular (fun rule => rule.name = entry.1 ∧ rule.body.Closed names)
      (inlineRule hidden entry) := by
  have hexpand : ∀ name ∈ known, UnlessCircular (Body.Closed names) (expand hidden [] name) :=
    fun name hname => h.closed_expand (remaining_nil hidden) hname
  refine (Body.closed_bindSymbols hexpand entry.2 he).bind fun body hbody => ?_
  exact ⟨rfl, hbody⟩

end

theorem Bodies.Named.of_cons {entry : Label × Body} {more : Bodies}
    (h : Bodies.Named (entry :: more)) : Bodies.Named [entry] ∧ more.Named :=
  List.forall_mem_append.mp h

/-- A name is added where it is a new one. -/
theorem Bodies.Named.names_addNew {bodies : Bodies} (h : bodies.Named) (entry : Label × Body) :
    (bodies.addNew entry).names =
      if entry.1 ∈ bodies.names then bodies.names else bodies.names ++ [entry.1] := by
  rw [Bodies.addNew]
  by_cases hentry : entry.1 ∈ bodies.names
  · rw [if_pos hentry, if_pos ((h.has_iff _).mpr hentry)]
  · rw [if_neg hentry, if_neg fun hhas => hentry ((h.has_iff _).mp hhas), Bodies.names_append]
    rfl

/-- New names are added once, in the order in which they occur first. -/
theorem names_foldl_addNew {bodies more : Bodies} (hb : bodies.Named) (hm : more.Named) :
    Bodies.names (more.foldl Bodies.addNew bodies) =
      bodies.names ++ (more.names.filter fun name => name ∉ bodies.names).eraseDups := by
  induction more generalizing bodies with
  | nil => exact (List.append_nil _).symm
  | cons entry more ih =>
    obtain ⟨hfirst, hmore⟩ := hm.of_cons
    have hstep : Bodies.Named (bodies.addNew entry) := hb.foldl_addNew hfirst
    have hcons : Bodies.names (entry :: more) = entry.1 :: Bodies.names more := rfl
    rw [List.foldl_cons, ih hstep hmore, hb.names_addNew, hcons, List.filter_cons]
    by_cases hentry : entry.1 ∈ bodies.names
    · rw [if_pos hentry, if_neg (by simpa using hentry)]
    · -- The first occurrence is kept, so those of the same name after it are not new.
      have hnew : ((Bodies.names more).filter fun name => name ∉ bodies.names ++ [entry.1]) =
          ((Bodies.names more).filter fun name => name ∉ bodies.names).filter
            fun name => !name == entry.1 := by
        rw [List.filter_filter]
        apply List.filter_congr
        intro name _
        rw [Bool.eq_iff_iff]
        simp [and_comm]
      rw [if_neg hentry, if_pos (by simpa using hentry), hnew, List.eraseDups_cons,
        List.append_assoc, List.singleton_append]

theorem nodup_foldl_addNew {bodies more : Bodies} (hb : bodies.Named) (hm : more.Named)
    (h : bodies.names.Nodup) : (Bodies.names (more.foldl Bodies.addNew bodies)).Nodup := by
  induction more generalizing bodies with
  | nil => exact h
  | cons entry more ih =>
    obtain ⟨hfirst, hmore⟩ := hm.of_cons
    have hstep : Bodies.Named (bodies.addNew entry) := hb.foldl_addNew hfirst
    apply ih hstep hmore
    rw [hb.names_addNew]
    split
    · exact h
    · rename_i hentry
      rw [← List.concat_eq_append]
      exact h.concat hentry

theorem names_filter (bodies : Bodies) (p : Label → Bool) :
    Bodies.names (bodies.filter fun entry => p entry.1) = bodies.names.filter p := by
  rw [Bodies.names, Bodies.names, List.filter_map]
  rfl

namespace Draft

/-- The names that a draft gives bodies to. -/
def known (draft : Draft) : List Label :=
  draft.bodies.names ++ draft.aliases.names

/-- The names of the rules of a draft. -/
def names (draft : Draft) : List Label :=
  draft.shown.names ++ draft.named.names

/-- The names of a draft are different texts, apart from aliases of the names of rules, and its
bodies refer to them alone. -/
structure Sound (draft : Draft) : Prop where
  bodiesNamed : draft.bodies.Named
  aliasesNamed : draft.aliases.Named
  bodiesClosed : ∀ entry ∈ draft.bodies, entry.2.Closed draft.known
  aliasesClosed : ∀ entry ∈ draft.aliases, entry.2.Closed draft.known
  bodiesNodup : draft.bodies.names.Nodup
  aliasesNodup : draft.aliases.names.Nodup

variable {draft : Draft}

theorem names_shown (draft : Draft) :
    draft.shown.names = draft.bodies.names.filter fun name => !draft.isHidden name :=
  names_filter draft.bodies fun name => !draft.isHidden name

theorem Sound.names_named (h : draft.Sound) :
    draft.named.names = draft.aliases.names.filter fun name => name ∉ draft.bodies.names := by
  have hhas (name : Label) : (!draft.bodies.has name) = decide (name ∉ draft.bodies.names) := by
    rw [Bool.eq_iff_iff, Bool.not_eq_true', Bool.eq_false_iff, decide_eq_true_eq, ne_eq,
      h.bodiesNamed.has_iff]
  have hfilter := names_filter draft.aliases fun name => !draft.bodies.has name
  simp only [hhas] at hfilter
  rw [← hfilter, named]
  simp only [hhas]

/-- A known name is that of a rule to inline or of a rule of the draft. -/
theorem Sound.inlinable (h : draft.Sound) : Inlinable draft.hidden draft.known draft.names := by
  refine ⟨?_, ?_, ?_⟩
  · intro name hname
    rcases List.mem_append.mp hname with hname | hname
    · obtain ⟨entry, he, rfl⟩ := List.mem_map.mp hname
      exact h.bodiesNamed entry he
    · obtain ⟨entry, he, rfl⟩ := List.mem_map.mp hname
      exact h.aliasesNamed entry he
  · intro entry he
    exact h.bodiesClosed entry (List.mem_filter.mp he).1
  · intro name hname hfind
    -- A body that is not found among those to inline stays, and a name without a body is an alias.
    by_cases hbody : name ∈ draft.bodies.names
    · refine List.mem_append_left _ ?_
      rw [draft.names_shown, List.mem_filter]
      refine ⟨hbody, ?_⟩
      by_contra hhidden
      obtain ⟨entry, he, rfl⟩ := List.mem_map.mp hbody
      have hmem : entry ∈ draft.hidden := List.mem_filter.mpr ⟨he, by simpa using hhidden⟩
      rw [Bodies.find, List.find?_eq_none] at hfind
      exact hfind entry hmem (Json.alike_refl _)
    · refine List.mem_append_right _ ?_
      rw [h.names_named, List.mem_filter]
      exact ⟨(List.mem_append.mp hname).resolve_left hbody, decide_eq_true hbody⟩

theorem Sound.names_subset_known (h : draft.Sound) : draft.names ⊆ draft.known := by
  intro name hname
  rcases List.mem_append.mp hname with hname | hname
  · rw [draft.names_shown] at hname
    exact List.mem_append_left _ (List.mem_filter.mp hname).1
  · rw [h.names_named] at hname
    exact List.mem_append_right _ (List.mem_filter.mp hname).1

theorem Sound.names_nodup (h : draft.Sound) : draft.names.Nodup := by
  rw [names, List.nodup_append]
  refine ⟨?_, ?_, ?_⟩
  · rw [draft.names_shown]
    exact h.bodiesNodup.filter _
  · rw [h.names_named]
    exact h.aliasesNodup.filter _
  · rw [draft.names_shown, h.names_named]
    intro name hshown other hnamed heq
    have hother := (List.mem_filter.mp hnamed).2
    rw [← heq] at hother
    exact of_decide_eq_true hother (List.mem_filter.mp hshown).1

/-- The content of an alias is a known rule, or it stays what it is. -/
theorem Sound.exists_aliased (h : draft.Sound) {body : Body} (hb : body.Closed draft.known) :
    ∃ content, aliased draft.bodies body = .ok content ∧ content.Closed draft.known := by
  cases body with
  | symbol name =>
    obtain ⟨text, rfl⟩ := h.inlinable.texts name (hb.symbols List.mem_cons_self)
    refine ⟨_, aliased_symbol draft.bodies text, ?_⟩
    cases hfind : draft.bodies.find (.str text) with
    | none => exact hb
    | some entry => exact h.bodiesClosed entry (List.mem_of_find?_eq_some hfind)
  | _ => exact ⟨_, rfl, hb⟩

/-- The rule has the name of the entry, and its body refers to the names alone. -/
def Loads (names : List Label) (entry : Label × Body) (rule : Rule) : Prop :=
  rule.name = entry.1 ∧ rule.body.Closed names

theorem names_of_loads {names : List Label} {entries : Bodies} {rules : List Rule}
    (h : List.Forall₂ (Loads names) entries rules) :
    rules.map Rule.name = entries.names ∧ ∀ rule ∈ rules, rule.body.Closed names := by
  induction h with
  | nil => exact ⟨rfl, fun _ hr => nomatch hr⟩
  | @cons entry rule entries rules hrule _ ih =>
    refine ⟨?_, fun other ho => ?_⟩
    · rw [List.map_cons, hrule.1, ih.1]
      rfl
    · rcases List.mem_cons.mp ho with rfl | ho
      · exact hrule.2
      · exact ih.2 other ho

/-- The rules of a draft have its names, and their bodies refer to these names alone. -/
theorem Sound.closed_rules (h : draft.Sound) :
    UnlessCircular (fun rules => rules.map Rule.name = draft.names ∧
      ∀ rule ∈ rules, rule.body.Closed draft.names) draft.rules := by
  have hshown : ∀ entry ∈ draft.shown,
      UnlessCircular (Loads draft.names entry) (inlineRule draft.hidden entry) :=
    fun entry he =>
      h.inlinable.closed_inlineRule entry (h.bodiesClosed entry (List.mem_filter.mp he).1)
  have hnamed : ∀ entry ∈ draft.named, UnlessCircular (Loads draft.names entry) (do
      inlineRule draft.hidden (entry.1, ← aliased draft.bodies entry.2)) := by
    intro entry he
    obtain ⟨content, hcontent, hclosed⟩ :=
      h.exists_aliased (h.aliasesClosed entry (List.mem_filter.mp he).1)
    rw [hcontent]
    exact h.inlinable.closed_inlineRule (entry.1, content) hclosed
  -- Both halves are closed over the names of the whole, so they can be put together.
  refine (UnlessCircular.mapM hshown).bind fun shown hs => ?_
  refine (UnlessCircular.mapM hnamed).bind fun named hn => ?_
  obtain ⟨hshownNames, hshownClosed⟩ := names_of_loads hs
  obtain ⟨hnamedNames, hnamedClosed⟩ := names_of_loads hn
  refine ⟨?_, fun rule hr => ?_⟩
  · rw [List.map_append, hshownNames, hnamedNames]
    rfl
  · exact (List.mem_append.mp hr).elim (hshownClosed rule) (hnamedClosed rule)

end Draft

/-- The names that aliases give. -/
def aliasNames (rules : List (String × Json)) : List Label :=
  (aliasesInRules rules).map Prod.fst

theorem names_of_records {aliases : List (Label × Json)} {recorded : Bodies}
    (h : List.Forall₂ Records aliases recorded) : recorded.names = aliases.map Prod.fst := by
  induction h with
  | nil => rfl
  | cons hentry _ ih =>
    rw [Bodies.names, List.map_cons, List.map_cons, hentry.1]
    exact congrArg _ ih

/-- Whether the nodes of a rule are left out of trees: its name starts with an underscore or is
listed, and it is not the first rule. -/
def isInlined (members rules : List (String × Json)) : Label → Bool
  | .str name =>
    rules.head?.map Prod.fst != some name &&
      (name.toList.head? == some '_' || decide (.str name ∈ listedNames members))
  | _ => false

/-- The names of the rules of a grammar, given its description: the rules that are not inlined, then
the externals that are no rules and not inlined, then the new names that aliases give. -/
def namesOf (members rules : List (String × Json)) : List Label :=
  (ruleNames rules ++
      ((externalNames members).filter fun name => name ∉ ruleNames rules).eraseDups).filter
        (fun name => !isInlined members rules name) ++
    (aliasNames rules).eraseDups.filter fun name =>
      name ∉ ruleNames rules ∧ name ∉ externalNames members

theorem isHidden_eq {members rules : List (String × Json)} {draft : Draft}
    (hentry : rules.head?.map Prod.fst = some draft.entrypoint)
    (hlisted : draft.listed = listedNames members) (name : Label) :
    draft.isHidden name = isInlined members rules name := by
  cases name with
  | str text =>
    have hamong : Label.isAmong (listedNames members) (.str text) =
        decide (.str text ∈ listedNames members) := by
      rw [Bool.eq_iff_iff, Label.isAmong, List.any_eq_true, decide_eq_true_eq]
      simp only [Json.alike_str_left_iff, exists_eq_right]
    have hfirst : (text != draft.entrypoint) = (some draft.entrypoint != some text) := by
      rw [Bool.eq_iff_iff, bne_iff_ne, bne_iff_ne]
      exact not_congr ⟨fun heq => congrArg some heq.symm, fun heq => (Option.some.inj heq).symm⟩
    rw [Draft.isHidden, isInlined, hentry, hlisted, hamong, hfirst]
  | _ => rfl

theorem names_firstOfEach {recorded : Bodies} (h : recorded.Named) :
    (firstOfEach recorded).names = recorded.names.eraseDups := by
  rw [firstOfEach, names_foldl_addNew Bodies.named_nil h]
  have hall : (recorded.names.filter fun name => name ∉ Bodies.names []) = recorded.names := by
    apply List.filter_eq_self.mpr
    intro name _
    rfl
  rw [hall]
  rfl

section
variable {members rules : List (String × Json)} {bodies recorded : Bodies}

theorem WellShaped.names_addExternals (h : WellShaped members rules)
    (hconvert : convertRules rules = .ok (bodies, recorded)) :
    (addExternals bodies (externalNames members)).names = ruleNames rules ++
      ((externalNames members).filter fun name => name ∉ ruleNames rules).eraseDups := by
  have hnames : bodies.names = ruleNames rules := names_convertRules hconvert
  have hmore : Bodies.names ((externalNames members).map fun name => (name, .blank)) =
      externalNames members := by
    rw [Bodies.names, List.map_map]
    exact List.map_id _
  rw [addExternals_eq_foldl, names_foldl_addNew (named_convertRules hconvert) h.named_externals,
    hnames, hmore]

theorem WellShaped.mem_names_addExternals (h : WellShaped members rules)
    (hconvert : convertRules rules = .ok (bodies, recorded)) {name : Label} :
    name ∈ (addExternals bodies (externalNames members)).names ↔
      name ∈ ruleNames rules ∨ name ∈ externalNames members := by
  rw [h.names_addExternals hconvert, List.mem_append, List.mem_eraseDups, List.mem_filter,
    decide_eq_true_eq]
  by_cases hname : name ∈ ruleNames rules
  · simp [hname]
  · simp [hname]

theorem WellShaped.nodup_addExternals (h : WellShaped members rules)
    (hconvert : convertRules rules = .ok (bodies, recorded)) :
    (addExternals bodies (externalNames members)).names.Nodup := by
  rw [addExternals_eq_foldl]
  apply nodup_foldl_addNew (named_convertRules hconvert) h.named_externals
  have hnames : bodies.names = (rules.map Prod.fst).map Json.str := by
    rw [names_convertRules hconvert, ruleNames, List.map_map]
    rfl
  rw [hnames]
  exact h.distinct.map fun _ _ heq => Json.str.inj heq

theorem WellShaped.entrypoint_drafted (h : WellShaped members rules) (bodies recorded : Bodies) :
    rules.head?.map Prod.fst = some (drafted members rules bodies recorded).entrypoint := by
  rw [drafted]
  cases hrules : rules with
  | nil => exact absurd hrules h.nonempty
  | cons first rest => rfl

/-- Every symbol in the draft of a well-shaped description is a name that the draft knows. -/
theorem WellShaped.sound_drafted (h : WellShaped members rules)
    (hconvert : convertRules rules = .ok (bodies, recorded))
    (hconverted : Converted (ruleNames rules ++ externalNames members)
      (fun names => ∀ entry ∈ bodies, entry.2.Closed names) recorded) :
    (drafted members rules bodies recorded).Sound := by
  let draft := drafted members rules bodies recorded
  have hdeclared : ruleNames rules ++ externalNames members ⊆ draft.known := by
    intro name hname
    exact List.mem_append_left _
      ((h.mem_names_addExternals hconvert).mpr (List.mem_append.mp hname))
  have hrecorded : recorded.names ⊆ draft.known := by
    intro name hname
    refine List.mem_append_right _ ?_
    change name ∈ (firstOfEach recorded).names
    rw [names_firstOfEach hconverted.named]
    exact List.mem_eraseDups.mpr hname
  -- Conversion promises closed bodies for all names that include these, so for the known ones.
  obtain ⟨hbodies, hcontents⟩ := hconverted.closed draft.known hdeclared hrecorded
  have hfold : draft.bodies = ((externalNames members).map fun name => (name, .blank)).foldl
      Bodies.addNew bodies := addExternals_eq_foldl bodies _
  refine ⟨?_, Bodies.named_nil.foldl_addNew hconverted.named, ?_, ?_, ?_, ?_⟩
  · change draft.bodies.Named
    rw [hfold]
    exact (named_convertRules hconvert).foldl_addNew h.named_externals
  · intro entry he
    change entry ∈ draft.bodies at he
    rw [hfold] at he
    rcases List.mem_append.mp (mem_of_mem_foldl_addNew he) with he | he
    · exact hbodies entry he
    · obtain ⟨name, -, rfl⟩ := List.mem_map.mp he
      exact Body.closed_blank
  · intro entry he
    exact hcontents entry (mem_of_mem_foldl_addNew he)
  · exact h.nodup_addExternals hconvert
  · exact nodup_foldl_addNew Bodies.named_nil hconverted.named .nil

theorem WellShaped.names_drafted (h : WellShaped members rules)
    (hconvert : convertRules rules = .ok (bodies, recorded))
    (hsound : (drafted members rules bodies recorded).Sound) (hnamed : recorded.Named) :
    (drafted members rules bodies recorded).names = namesOf members rules := by
  have haliases : (firstOfEach recorded).names = (aliasNames rules).eraseDups := by
    rw [names_firstOfEach hnamed, names_of_records (records_convertRules hconvert)]
    rfl
  have hhidden (name : Label) : (drafted members rules bodies recorded).isHidden name =
      isInlined members rules name :=
    isHidden_eq (h.entrypoint_drafted bodies recorded) rfl name
  have hnew (name : Label) : name ∉ (addExternals bodies (externalNames members)).names ↔
      name ∉ ruleNames rules ∧ name ∉ externalNames members := by
    rw [h.mem_names_addExternals hconvert, not_or]
  rw [Draft.names, Draft.names_shown, hsound.names_named]
  simp only [hhidden]
  simp only [drafted, hnew]
  rw [haliases, h.names_addExternals hconvert]
  rfl

/-- The draft of a well-shaped description is sound, and its names are those of the description. -/
theorem WellShaped.exists_sound (h : WellShaped members rules) :
    ∃ draft, draftOf members = .ok draft ∧ draft.Sound ∧
      rules.head?.map Prod.fst = some draft.entrypoint ∧ draft.names = namesOf members rules := by
  obtain ⟨bodies, recorded, hconvert, hconverted, hdraft⟩ := h.exists_draft
  have hsound := h.sound_drafted hconvert hconverted
  exact ⟨_, hdraft, hsound, h.entrypoint_drafted bodies recorded,
    h.names_drafted hconvert hsound hconverted.named⟩

end

end Description

theorem firstRepeat_eq_none {seen names : List Label} (h : (names.map Json.canonical).Nodup)
    (hseen : ∀ key ∈ names.map Json.canonical, key ∉ seen) : firstRepeat seen names = none := by
  induction names generalizing seen with
  | nil => rfl
  | cons name names ih =>
    obtain ⟨hname, hnames⟩ := List.nodup_cons.mp h
    rw [firstRepeat, if_neg (hseen _ List.mem_cons_self)]
    apply ih hnames
    intro key hkey hmem
    rcases List.mem_cons.mp hmem with rfl | hmem
    · exact hname hkey
    · exact hseen key (List.mem_cons_of_mem _ hkey) hmem

theorem exists_ofRules {rules : List Rule} (h : (rules.map Rule.name).Nodup)
    (htexts : ∀ name ∈ rules.map Rule.name, ∃ text, name = .str text) (entrypoint : String)
    (extras : List Label) : ∃ g, Grammar.ofRules entrypoint rules extras = .ok g ∧
      g.rules = rules ∧ g.entrypoint = entrypoint := by
  -- Names are compared by their canonical forms, in which different texts stay different.
  have hkeys : ((rules.map Rule.name).map Json.canonical).Nodup := by
    apply h.map_on
    intro a ha b hb heq
    obtain ⟨s, rfl⟩ := htexts a ha
    obtain ⟨t, rfl⟩ := htexts b hb
    exact heq
  have hfirst : firstRepeat [] (rules.map Rule.name) = none :=
    firstRepeat_eq_none hkeys fun _ _ => List.not_mem_nil
  unfold Grammar.ofRules
  split
  · rename_i hname
    rw [hfirst] at hname
    cases hname
  · exact ⟨_, rfl, rfl, rfl⟩

theorem check_eq_ok {g : Grammar} (hentry : .str g.entrypoint ∈ g.names)
    (hrules : ∀ rule ∈ g.rules, rule.body.Closed g.names) : g.check = .ok () := by
  have hamong : Label.isAmong g.names g.entrypoint :=
    List.any_eq_true.mpr ⟨_, hentry, Json.alike_refl _⟩
  have hfaults : (g.rules.findSome? fun rule => rule.body.fault g.names rule.name) = none := by
    rw [List.findSome?_eq_none_iff]
    exact fun rule hr => Body.fault_eq_none rule.name rule.body (hrules rule hr)
  rw [Grammar.check, Grammar.fault, if_pos hamong, hfaults]

/-- The first rule is not inlined. -/
theorem head_namesOf {members rules : List (String × Json)} {first : String}
    (h : rules.head?.map Prod.fst = some first) :
    (namesOf members rules).head? = some (.str first) := by
  cases rules with
  | nil => cases h
  | cons rule rest =>
    obtain rfl : rule.1 = first := Option.some.inj h
    have hstays : isInlined members (rule :: rest) (.str rule.1) = false := by
      simp [isInlined]
    rw [namesOf, ruleNames, List.map_cons, List.cons_append, List.filter_cons, hstays]
    rfl

/-- A well-shaped description is one of a closed grammar, unless a rule would have to be inlined
inside of itself. The grammar passes its check, and it starts at its first rule, which is the first
one of the description. -/
theorem Grammar.ofJson_closed {members rules : List (String × Json)}
    (h : WellShaped members rules) :
    (∃ chain, Grammar.ofJson (.obj members) = .error (.grammar (.recursiveInlining chain))) ∨
    ∃ g, Grammar.ofJson (.obj members) = .ok g ∧ g.check = .ok () ∧
      rules.head?.map Prod.fst = some g.entrypoint ∧ g.names.head? = some (.str g.entrypoint) ∧
      g.names.Nodup ∧ g.names = namesOf members rules := by
  obtain ⟨draft, hdraft, hsound, hentry, hnames⟩ := h.exists_sound
  have hextras : symbolNames .ok (elements "extras" members) =
      .ok ((elements "extras" members).filterMap symbolName?) :=
    symbolNames_of_tokens .ok (fun _ => rfl) h.extras
  have hitems := h.items_eq "extras" (by simp)
  have hrules := hsound.closed_rules
  cases hdone : draft.rules with
  | error e =>
    rw [hdone] at hrules
    obtain ⟨chain, rfl⟩ := hrules
    refine .inl ⟨chain, ?_⟩
    simp only [Grammar.ofJson, Grammar.ofMembers, hdraft, hdone, bind, Except.bind]
  | ok loaded =>
    rw [hdone] at hrules
    obtain ⟨hloaded, hclosed⟩ := hrules
    have htexts : ∀ name ∈ loaded.map Rule.name, ∃ text, name = .str text := by
      rw [hloaded]
      exact fun name hname => hsound.inlinable.texts name (hsound.names_subset_known hname)
    have hnodup : (loaded.map Rule.name).Nodup := hloaded ▸ hsound.names_nodup
    obtain ⟨g, hg, hgRules, hgEntry⟩ := exists_ofRules hnodup htexts draft.entrypoint
      ((elements "extras" members).filterMap symbolName?)
    have hgNames : g.names = namesOf members rules := by
      rw [Grammar.names, hgRules, hloaded, hnames]
    have hhead : g.names.head? = some (.str g.entrypoint) := by
      rw [hgNames, hgEntry, head_namesOf hentry]
    have hcheck : g.check = .ok () := by
      apply check_eq_ok (List.mem_of_mem_head? hhead)
      intro rule hr
      rw [hgNames, ← hnames]
      exact hclosed rule (hgRules ▸ hr)
    refine .inr ⟨g, ?_, hcheck, hgEntry ▸ hentry, hhead, ?_, hgNames⟩
    · simp only [Grammar.ofJson, Grammar.ofMembers, hdraft, hdone, hitems, hextras, hg, bind,
        Except.bind, pure, Except.pure]
    · rw [Grammar.names, hgRules]
      exact hnodup

def lineRules : List (String × Json) :=
  [("line", .obj [("type", .str "SEQ"), ("members", .arr [symbolOf "indent", symbolOf "_text",
      .obj [("type", .str "ALIAS"), ("named", .bool true), ("value", .str "label"),
        ("content", symbolOf "word")]])]),
    ("_text", .obj [("type", .str "REPEAT"), ("content", symbolOf "word")]),
    ("word", .obj [("type", .str "PATTERN"), ("value", .str "[a-z]+")])]

/-- A line of words with a label, which starts with an external token. -/
def lineMembers : List (String × Json) :=
  [("rules", .obj lineRules), ("externals", .arr [symbolOf "indent"])]

theorem lineMembers_wellShaped : WellShaped lineMembers lineRules := by
  have hsymbol (name : String)
      (h : .str name ∈ ruleNames lineRules ++ externalNames lineMembers) :
      Describes (ruleNames lineRules ++ externalNames lineMembers) (symbolOf name) :=
    .symbol rfl rfl h
  have hlabel : Describes (ruleNames lineRules ++ externalNames lineMembers)
      (.obj [("type", .str "ALIAS"), ("named", .bool true), ("value", .str "label"),
        ("content", symbolOf "word")]) :=
    .named rfl rfl rfl rfl rfl (hsymbol "word" (by decide))
  refine ⟨rfl, List.cons_ne_nil _ _, by decide, ?_, ?_, ?_, ?_, ?_, ?_⟩
  · intro rule hr
    simp only [lineRules, List.mem_cons, List.not_mem_nil, or_false] at hr
    rcases hr with rfl | rfl | rfl
    · refine .group rfl .seq rfl (List.cons_ne_nil _ _) fun part hp => ?_
      simp only [List.mem_cons, List.not_mem_nil, or_false] at hp
      rcases hp with rfl | rfl | rfl
      · exact hsymbol "indent" (by decide)
      · exact hsymbol "_text" (by decide)
      · exact hlabel
    · exact .repetition rfl .star rfl (hsymbol "word" (by decide))
    · exact .token rfl .pattern rfl
  · intro name hn value hv
    simp only [List.mem_cons, List.not_mem_nil, or_false] at hn
    rcases hn with rfl | rfl | rfl | rfl
    · exact ⟨_, (Option.some.inj hv).symm⟩
    · cases hv
    · cases hv
    · cases hv
  · intro value hv
    rw [List.mem_singleton.mp hv]
    exact ⟨_, rfl, fun _ => ⟨"indent", rfl⟩⟩
  · exact fun _ hv => nomatch hv
  · exact fun _ hv => nomatch hv
  · exact fun _ hv => nomatch hv

/-- The rule of a line, the word, the external and the label make up a closed grammar. -/
theorem lineMembers_closed : WellShaped lineMembers lineRules ∧
    ∃ g, Grammar.ofJson (.obj lineMembers) = .ok g ∧ g.check = .ok () ∧
      g.names = [.str "line", .str "word", .str "indent", .str "label"] := by
  refine ⟨lineMembers_wellShaped, ?_⟩
  obtain ⟨chain, herror⟩ | ⟨g, hg, hcheck, -, -, -, hnames⟩ :=
    Grammar.ofJson_closed lineMembers_wellShaped
  · have hok : (Grammar.ofJson (.obj lineMembers)).isOk := by decide +kernel
    rw [herror] at hok
    cases hok
  · refine ⟨g, hg, hcheck, ?_⟩
    rw [hnames]
    decide

end TreeGrammar
