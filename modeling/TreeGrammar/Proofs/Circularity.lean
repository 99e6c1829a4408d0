import Mathlib.Data.List.Nodup
import Mathlib.Data.List.Perm.Subperm
import TreeGrammar.Grammar.Expansion
import TreeGrammar.Proofs.Inlining

/-!
Rules that would be inlined in themselves. Inlining ends, as the names on the stack are different
names of rules to inline, and it leaves the stack as it was. It fails exactly where references lead
through the bodies of rules to inline back to one of them, and then it names the rules on the way.
-/
namespace TreeGrammar.Description

section
variable {α β : Type}

/-- The run ends as given and leaves the stack as it was. -/
def StackRun.Settles (run : StackRun α) (stack : List String) (outcome : Except LoadError α) :
    Prop :=
  run stack = some (outcome, stack)

theorem StackRun.Settles.bind {run : StackRun α} {stack : List String}
    {outcome : Except LoadError α} (h : run.Settles stack outcome) {next : α → StackRun β}
    {after : α → Except LoadError β} (hnext : ∀ a, (next a).Settles stack (after a)) :
    StackRun.Settles (run >>= next) stack (outcome >>= after) := by
  have hrun : (run >>= next) stack =
      (run stack).bind fun ended => ExceptT.bindCont next ended.1 ended.2 := rfl
  rw [Settles, hrun, h, Option.bind_some]
  cases outcome with
  | ok a => exact hnext a
  | error e => rfl

theorem StackRun.Settles.holding {run : StackRun α} {stack : List String} {name : String}
    {outcome : Except LoadError α} (h : run.Settles (stack ++ [name]) outcome) :
    (run.holding name).Settles stack outcome := by
  rw [StackRun.Settles] at h
  rw [StackRun.Settles, StackRun.holding, h]
  simp

theorem StackRun.Settles.eq {run : StackRun α} {stack : List String}
    {outcome other : Except LoadError α} (h : run.Settles stack outcome)
    (hother : run.Settles stack other) : outcome = other :=
  congrArg Prod.fst (Option.some.inj (h.symm.trans hother))

theorem StackRun.settles_pure (a : α) (stack : List String) :
    StackRun.Settles (pure a) stack (.ok a) :=
  rfl

theorem StackRun.settles_get_bind {next : List String → StackRun β} {stack : List String}
    {outcome : Except LoadError β} :
    StackRun.Settles (get >>= next) stack outcome ↔ (next stack).Settles stack outcome :=
  Iff.rfl

theorem StackRun.settles_throw (e : LoadError) (stack : List String) :
    StackRun.Settles (throw e : StackRun α) stack (.error e) :=
  rfl

end

open StackRun

section
variable {f : Label → StackRun Body} {g : Label → Except LoadError Body} {stack : List String}

mutual

theorem settles_bindSymbols (h : ∀ name, (f name).Settles stack (g name)) : (body : Body) →
    StackRun.Settles (body.bindSymbols f) stack (body.bindSymbols g)
  | .symbol name => h name
  | .literal _ | .pattern _ | .blank => rfl
  | .star body | .plus body => by
    rw [Body.bindSymbols, Body.bindSymbols]
    exact (settles_bindSymbols h body).bind fun _ => rfl
  | .choice bodies | .seq bodies => by
    rw [Body.bindSymbols, Body.bindSymbols]
    exact (settles_bindSymbolsIn h bodies).bind fun _ => rfl

theorem settles_bindSymbolsIn (h : ∀ name, (f name).Settles stack (g name)) :
    (bodies : List Body) →
    StackRun.Settles (Body.bindSymbolsIn f bodies) stack (Body.bindSymbolsIn g bodies)
  | [] => rfl
  | body :: rest => by
    rw [Body.bindSymbolsIn, Body.bindSymbolsIn]
    exact (settles_bindSymbols h body).bind fun _ =>
      (settles_bindSymbolsIn h rest).bind fun _ => rfl

end

end

namespace Expansion

variable {x : Expansion}

/-- The bodies that are inlined are those of the names to inline. -/
theorem find_hidden (x : Expansion) (name : String) :
    x.hidden.find (.str name) = if name ∈ x.inlined then x.bodies.find (.str name) else none := by
  have hentry (entry : Label × Body) (hlike : entry.1.alike (.str name)) :
      (x.inlined.any fun other => entry.1.alike (.str other)) = decide (name ∈ x.inlined) := by
    rw [(Json.alike_str_right_iff _ _).mp hlike, Bool.eq_iff_iff]
    simp [Json.alike_str]
  rw [hidden, Bodies.find, List.find?_filter]
  by_cases hname : name ∈ x.inlined
  · rw [if_pos hname, Bodies.find]
    congr 1
    funext entry
    by_cases hlike : entry.1.alike (.str name)
    · rw [hentry entry hlike]
      simp [hname, hlike]
    · simp [hlike]
  · rw [if_neg hname, List.find?_eq_none]
    intro entry _ hboth
    rw [decide_eq_true_eq] at hboth
    rw [hentry entry hboth.2, decide_eq_true_eq] at hboth
    exact hname hboth.1

/-- What holds of the stack while bodies are inlined: it has different names of rules to inline, and
`left` are the bodies of the others. -/
structure Holds (x : Expansion) (left : Bodies) (stack : List String) : Prop where
  remaining : Remaining x.hidden left stack
  distinct : stack.Nodup
  inlined : stack ⊆ x.inlined

theorem Holds.cons {left : Bodies} {stack : List String} (h : x.Holds left stack) {name : String}
    (hname : name ∈ x.inlined) (hfree : name ∉ stack) :
    x.Holds (left.without (.str name)) (stack ++ [name]) := by
  refine ⟨h.remaining.cons name, ?_, ?_⟩
  · rw [← List.concat_eq_append]
    exact h.distinct.concat hfree
  · simp [h.inlined, hname]

theorem Holds.length_le {left : Bodies} {stack : List String} (h : x.Holds left stack) :
    stack.length ≤ x.inlined.length :=
  (List.subperm_of_subset h.distinct h.inlined).length_le

/-- The names to inline have bodies. -/
def Known (x : Expansion) : Prop :=
  ∀ name ∈ x.inlined, ∃ entry, x.bodies.find (.str name) = some entry

/-- What a reference becomes is what it becomes without a stack, if that holds of the bodies that
are inlined for it. -/
theorem settles_reference (hknown : x.Known) {left : Bodies} {stack : List String}
    (h : x.Holds left stack) {inner : Body → StackRun Body}
    (hinner : ∀ name ∈ x.inlined, name ∉ stack → ∀ body, (inner body).Settles (stack ++ [name])
      (body.bindSymbols (expand (left.without (.str name)) (stack ++ [name]))))
    (name : Label) : (x.reference inner name).Settles stack (expand left stack name) := by
  by_cases htext : ∃ text, name = .str text
  · obtain ⟨text, rfl⟩ := htext
    have hfind := x.find_hidden text
    rw [reference]
    by_cases hinlined : text ∈ x.inlined
    · rw [if_pos hinlined] at hfind ⊢
      rw [settles_get_bind]
      by_cases hheld : text ∈ stack
      -- No body is left for a name on the stack, so both ways refuse it with the same names.
      · rw [if_pos hheld, expand_of_find_eq_none (h.remaining.used text hheld), if_pos hheld]
        exact settles_throw _ _
      · obtain ⟨entry, hentry⟩ := hknown text hinlined
        have hleft : left.find (.str text) = some entry := by
          rw [h.remaining.unused text hheld, hfind, hentry]
        rw [if_neg hheld, hentry, expand_of_find_eq_some hleft]
        exact (hinner text hinlined hheld entry.2).holding
    -- Only names to inline come on the stack, so any other name stays as it is.
    · have hheld : text ∉ stack := fun hm => hinlined (h.inlined hm)
      rw [if_neg hinlined] at hfind ⊢
      rw [expand_of_find_eq_none ((h.remaining.unused text hheld).trans hfind), if_neg hheld]
      exact settles_pure _ _
  · have hlabel : ∀ text, name ≠ .str text := fun text heq => htext ⟨text, heq⟩
    rw [expand_of_ne_str hlabel, reference]
    · split
      · exact settles_pure _ _
      · exact settles_throw _ _
    · exact hlabel

/-- A body is inlined as it is without a stack, and the stack is left as it was. More names than
there are to inline cannot be on it, so the bound does not matter if it is greater. -/
theorem settles_inlineWithin (hknown : x.Known) {left : Bodies} {stack : List String}
    (h : x.Holds left stack) {depth : Nat} (hd : x.inlined.length < depth + stack.length)
    (body : Body) :
    (x.inlineWithin depth body).Settles stack (body.bindSymbols (expand left stack)) := by
  induction depth generalizing left stack body with
  | zero =>
    -- The names on the stack would be more than there are to inline.
    have hle := h.length_le
    omega
  | succ depth ih =>
    rw [inlineWithin]
    refine settles_bindSymbols (settles_reference hknown h fun name hname hfree inner => ?_) body
    apply ih (h.cons hname hfree)
    rw [List.length_append, List.length_singleton]
    omega

/-- Names lead from one body to another: the first is referred to in the one, each other name in the
body of the rule before it, and the last is that of the rule with the other body. All of them are
names of rules to inline. -/
inductive Leads (x : Expansion) : Body → List String → Body → Prop
  | here (body : Body) : Leads x body [] body
  | through {body target : Body} {name : String} {names : List String} {entry : Label × Body} :
    .str name ∈ body.symbols → name ∈ x.inlined → x.bodies.find (.str name) = some entry →
      Leads x entry.2 names target → Leads x body (name :: names) target

section
variable {body between target : Body} {names : List String} {name : String}

theorem Leads.concat {entry : Label × Body} (h : x.Leads body names between)
    (hname : .str name ∈ between.symbols) (hinlined : name ∈ x.inlined)
    (hentry : x.bodies.find (.str name) = some entry) : x.Leads body (names ++ [name]) entry.2 := by
  induction h with
  | here => exact .through hname hinlined hentry (.here _)
  | through hfirst hfirstInlined hfirstEntry _ ih =>
    exact .through hfirst hfirstInlined hfirstEntry (ih hname)

theorem Leads.exists_entry (h : x.Leads body names target) (hname : name ∈ names) :
    name ∈ x.inlined ∧ ∃ entry, x.bodies.find (.str name) = some entry := by
  induction h with
  | here => cases hname
  | through _ hinlined hentry _ ih =>
    rcases List.mem_cons.mp hname with rfl | hname
    · exact ⟨hinlined, _, hentry⟩
    · exact ih hname

/-- The names lead from a body around in a circle: all but the last are different, and the last is
one of these. -/
structure Circular (x : Expansion) (body : Body) (names : List String) : Prop where
  leads : ∃ target, x.Leads body names target
  distinct : names.dropLast.Nodup
  closed : ∃ last ∈ names.dropLast, names.getLast? = some last

/-- Why a body cannot be inlined: references lead from it around in a circle, or to one whose name
cannot be looked up. -/
inductive Fails (x : Expansion) (body : Body) : LoadError → Prop
  | circular {names : List String} : x.Circular body names →
    Fails x body (.grammar (.recursiveInlining names))
  | unsearchable {names : List String} {target : Body} {label : Label} :
    x.Leads body names target → label ∈ target.symbols → label.isScalar = false →
      Fails x body (.shape .nameNotScalar)

end

section
variable {left : Bodies} {stack : List String}

/-- Of the bodies that are left, one is found for a name to inline that is not on the stack. -/
theorem Holds.of_find (h : x.Holds left stack) {text : String} {entry : Label × Body}
    (hfind : left.find (.str text) = some entry) :
    text ∉ stack ∧ text ∈ x.inlined ∧ x.bodies.find (.str text) = some entry := by
  have hfree := h.remaining.notMem_of_find hfind
  rw [h.remaining.unused text hfree, x.find_hidden] at hfind
  split at hfind
  · exact ⟨hfree, ‹_›, hfind⟩
  · cases hfind

/-- Where a reference fails in a body that the names on the stack lead to, the body that they lead
from fails. -/
theorem fails_of_expand (h : x.Holds left stack) {root body : Body}
    (hleads : x.Leads root stack body) {name : Label} (hname : name ∈ body.symbols) {e : LoadError}
    (he : expand left stack name = .error e) : x.Fails root e := by
  -- The induction is on the bodies that are left, of which each rule takes its own away.
  induction hlen : left.length using Nat.strongRecOn generalizing left stack body name with
  | ind len ih =>
    by_cases htext : ∃ text, name = .str text
    · obtain ⟨text, rfl⟩ := htext
      cases hfind : left.find (.str text) with
      | some entry =>
        obtain ⟨hfree, hinlined, hentry⟩ := h.of_find hfind
        rw [expand_of_find_eq_some hfind] at he
        obtain ⟨inner, hinner, he⟩ := entry.2.exists_symbol_of_bindSymbols_eq_error he
        exact ih _ (hlen ▸ Bodies.length_without_lt hfind) (h.cons hinlined hfree)
          (hleads.concat hname hinlined hentry) hinner he rfl
      | none =>
        rw [expand_of_find_eq_none hfind] at he
        split at he
        -- The name is one of those on the stack, so the path to it closes when it is added.
        · rename_i hheld
          cases he
          obtain ⟨hinlined, entry, hentry⟩ := hleads.exists_entry hheld
          refine .circular ⟨⟨entry.2, hleads.concat hname hinlined hentry⟩, ?_, text, ?_, ?_⟩
          · rw [List.dropLast_concat]
            exact h.distinct
          · rw [List.dropLast_concat]
            exact hheld
          · exact List.getLast?_concat
        · cases he
    · rw [expand_of_ne_str fun text heq => htext ⟨text, heq⟩] at he
      split at he
      · cases he
      · rename_i hscalar
        cases he
        exact .unsearchable hleads hname (Bool.eq_false_iff.mpr hscalar)

/-- Where a body is inlined, so are the bodies that names lead to, with these names on the stack. -/
theorem Holds.along (h : x.Holds left stack) {body whole target : Body}
    (hwhole : body.bindSymbols (expand left stack) = .ok whole) {names : List String}
    (hleads : x.Leads body names target) : ∃ rest part, x.Holds rest (stack ++ names) ∧
      target.bindSymbols (expand rest (stack ++ names)) = .ok part := by
  induction hleads generalizing left stack whole with
  | here =>
    rw [List.append_nil]
    exact ⟨left, whole, h, hwhole⟩
  | @through body target name names entry hname hinlined hentry _ ih =>
    -- All references in the body were inlined, this one too, so its name was not on the stack.
    obtain ⟨part, hpart⟩ := body.exists_part_of_bindSymbols hwhole _ hname
    have hfree : name ∉ stack := by
      intro hheld
      rw [expand_of_find_eq_none (h.remaining.used name hheld), if_pos hheld] at hpart
      cases hpart
    have hfind : left.find (.str name) = some entry := by
      rw [h.remaining.unused name hfree, x.find_hidden, if_pos hinlined, hentry]
    rw [expand_of_find_eq_some hfind] at hpart
    rw [List.append_cons]
    exact ih (h.cons hinlined hfree) hpart

end

theorem isScalar_of_expand {left : Bodies} {stack : List String} {name : Label} {part : Body}
    (h : expand left stack name = .ok part) : name.isScalar := by
  by_cases htext : ∃ text, name = .str text
  · obtain ⟨text, rfl⟩ := htext
    rfl
  · rw [expand_of_ne_str fun text heq => htext ⟨text, heq⟩] at h
    split at h
    · assumption
    · cases h

/-- References lead from the body to one that they led to before. -/
def Repeats (x : Expansion) (body : Body) : Prop :=
  ∃ names target, x.Leads body names target ∧ ¬ names.Nodup

/-- All names that references lead to from the body can be looked up. -/
def Searchable (x : Expansion) (body : Body) : Prop :=
  ∀ names target, x.Leads body names target → ∀ label ∈ target.symbols, label.isScalar

theorem Circular.repeats {body : Body} {names : List String} (h : x.Circular body names) :
    x.Repeats body := by
  obtain ⟨target, hleads⟩ := h.leads
  obtain ⟨last, hearlier, hlast⟩ := h.closed
  obtain ⟨earlier, rfl⟩ := List.getLast?_eq_some_iff.mp hlast
  rw [List.dropLast_concat] at hearlier
  refine ⟨_, target, hleads, fun hnodup => ?_⟩
  rw [← List.concat_eq_append, List.nodup_concat] at hnodup
  exact hnodup.1 hearlier

theorem holds_nil (x : Expansion) : x.Holds x.hidden [] :=
  ⟨remaining_nil _, .nil, List.nil_subset _⟩

theorem fails_of_inlineIn {body : Body} {e : LoadError} (h : inlineIn x.hidden body = .error e) :
    x.Fails body e := by
  obtain ⟨name, hname, he⟩ := body.exists_symbol_of_bindSymbols_eq_error h
  exact fails_of_expand x.holds_nil (.here body) hname he

theorem not_repeats_of_inlineIn {body whole : Body} (h : inlineIn x.hidden body = .ok whole) :
    ¬ x.Repeats body := by
  rintro ⟨names, target, hleads, hrepeated⟩
  obtain ⟨rest, part, hholds, -⟩ := x.holds_nil.along h hleads
  exact hrepeated hholds.distinct

theorem searchable_of_inlineIn {body whole : Body} (h : inlineIn x.hidden body = .ok whole) :
    x.Searchable body := by
  intro names target hleads label hlabel
  obtain ⟨rest, part, -, hpart⟩ := x.holds_nil.along h hleads
  obtain ⟨_, hexpand⟩ := target.exists_part_of_bindSymbols hpart label hlabel
  exact isScalar_of_expand hexpand

/-- How a body is inlined. -/
structure InlinedTo (x : Expansion) (body : Body) (outcome : Except LoadError Body) : Prop where
  /-- Inlining ends, and then the stack is as empty as before. -/
  settles : ∀ depth > x.inlined.length, (x.inlineWithin depth body).Settles [] outcome
  /-- It fails where references lead around or to a name that cannot be looked up. -/
  failed_iff : (∃ e, outcome = .error e) ↔ x.Repeats body ∨ ¬ x.Searchable body
  /-- Where all names can be looked up, the grammar is refused if and only if references lead
  around. -/
  refused_iff : x.Searchable body → ((∃ e, outcome = .error (.grammar e)) ↔ x.Repeats body)
  /-- The message has the names that lead from the body around. -/
  message : ∀ e, outcome = .error (.grammar e) → ∃ names, x.Circular body names ∧
    e = .recursiveInlining names ∧
    e.message = "Rules can't be inlined recursively: " ++ " -> ".intercalate names

/-- A body is inlined with a stack of the names of rules, however these refer to one another, unless
references lead from the body around in a circle. -/
theorem inlined_unless_circular (hknown : x.Known) (body : Body) :
    x.InlinedTo body (inlineIn x.hidden body) := by
  have hcircle (e : GrammarError) (he : inlineIn x.hidden body = .error (.grammar e)) :
      ∃ names, x.Circular body names ∧ e = .recursiveInlining names := by
    cases fails_of_inlineIn he with
    | circular hnames => exact ⟨_, hnames, rfl⟩
  have hfailed : (∃ e, inlineIn x.hidden body = .error e) ↔
      x.Repeats body ∨ ¬ x.Searchable body := by
    cases hrun : inlineIn x.hidden body with
    | ok whole =>
      have hsound := not_repeats_of_inlineIn hrun
      have hsearchable := searchable_of_inlineIn hrun
      simp [hsound, hsearchable]
    | error e =>
      refine ⟨fun _ => ?_, fun _ => ⟨e, rfl⟩⟩
      cases fails_of_inlineIn hrun with
      | circular hnames => exact .inl hnames.repeats
      | unsearchable hleads hlabel hscalar =>
        refine .inr fun hsearchable => ?_
        rw [hsearchable _ _ hleads _ hlabel] at hscalar
        cases hscalar
  refine ⟨fun depth hdepth => ?_, hfailed, fun hsearchable => ⟨?_, fun hrepeats => ?_⟩, ?_⟩
  · exact settles_inlineWithin hknown x.holds_nil hdepth body
  · rintro ⟨e, he⟩
    obtain ⟨names, hnames, -⟩ := hcircle e he
    exact hnames.repeats
  · obtain ⟨e, he⟩ := hfailed.mpr (.inl hrepeats)
    cases fails_of_inlineIn he with
    | circular _ => exact ⟨_, he⟩
    | unsearchable hleads hlabel hscalar =>
      rw [hsearchable _ _ hleads _ hlabel] at hscalar
      cases hscalar
  · intro e he
    obtain ⟨names, hnames, rfl⟩ := hcircle e he
    exact ⟨names, hnames, rfl, rfl⟩

end Expansion

theorem Draft.mem_inlined_iff (draft : Draft) (name : String) : name ∈ draft.expansion.inlined ↔
    draft.isHidden (.str name) ∧ ∃ entry ∈ draft.bodies, entry.1 = .str name := by
  rw [expansion, List.mem_filterMap]
  constructor
  · rintro ⟨⟨label, body⟩, he, hname⟩
    cases label with
    | str text =>
      dsimp only at hname
      split at hname
      · rename_i hhidden
        cases hname
        exact ⟨hhidden, _, he, rfl⟩
      · cases hname
    | _ => cases hname
  · rintro ⟨hhidden, ⟨label, body⟩, he, rfl⟩
    exact ⟨_, he, if_pos hhidden⟩

theorem Draft.known_expansion (draft : Draft) : draft.expansion.Known := by
  intro name hname
  obtain ⟨-, entry, he, hentry⟩ := (draft.mem_inlined_iff name).mp hname
  apply Option.isSome_iff_exists.mp
  rw [Bodies.find, List.find?_isSome]
  exact ⟨entry, he, (Json.alike_str_right_iff _ _).mpr hentry⟩

/-- The bodies that the rules of a draft are inlined with are those of its hidden rules. -/
theorem Draft.hidden_expansion (draft : Draft) : draft.expansion.hidden = draft.hidden := by
  apply List.filter_congr
  intro entry he
  rw [Bool.eq_iff_iff, List.any_eq_true]
  constructor
  · rintro ⟨name, hname, hlike⟩
    rw [(Json.alike_str_right_iff _ _).mp hlike]
    exact ((draft.mem_inlined_iff name).mp hname).1
  · intro hhidden
    obtain ⟨label, body⟩ := entry
    cases label with
    | str name =>
      exact ⟨name, (draft.mem_inlined_iff name).mpr ⟨hhidden, _, he, rfl⟩, by simp [Json.alike_str]⟩
    | _ => cases hhidden

/-- The hidden rules of pairs refer to one another, the hidden rule of items does not, and that of
rows refers to itself. -/
def pairsDraft : Draft where
  entrypoint := "list"
  bodies :=
    [(.str "list", .star (.symbol (.str "_item"))),
      (.str "_item", .choice [.symbol (.str "word"), .pattern (.str "[0-9]+")]),
      (.str "_pair", .seq [.literal (.str "("), .symbol (.str "_rest")]),
      (.str "_rest", .choice [.symbol (.str "_pair"), .blank]),
      (.str "_rows", .star (.symbol (.str "_rows"))),
      (.str "word", .pattern (.str "[a-z]+"))]
  aliases := []
  listed := []

theorem pairsDraft_circular :
    pairsDraft.expansion.Known ∧
    (pairsDraft.expansion.inlineWithin 5 (.symbol (.str "_pair"))).Settles []
      (.error (.grammar (.recursiveInlining ["_pair", "_rest", "_pair"]))) ∧
    pairsDraft.expansion.Circular (.symbol (.str "_pair")) ["_pair", "_rest", "_pair"] ∧
    inlineIn pairsDraft.hidden (.star (.symbol (.str "_item"))) =
      .ok (.star (.choice [.symbol (.str "word"), .pattern (.str "[0-9]+")])) ∧
    ¬ pairsDraft.expansion.Repeats (.star (.symbol (.str "_item"))) := by
  have hknown := pairsDraft.known_expansion
  have hpair := Expansion.inlined_unless_circular hknown (.symbol (.str "_pair"))
  have hitems := Expansion.inlined_unless_circular hknown (.star (.symbol (.str "_item")))
  rw [pairsDraft.hidden_expansion] at hpair hitems
  have hrun : (pairsDraft.expansion.inlineWithin 5 (.symbol (.str "_pair"))).Settles []
      (.error (.grammar (.recursiveInlining ["_pair", "_rest", "_pair"]))) := by rfl
  have hends : (pairsDraft.expansion.inlineWithin 5 (.star (.symbol (.str "_item")))).Settles []
      (.ok (.star (.choice [.symbol (.str "word"), .pattern (.str "[0-9]+")]))) := by rfl
  have hrefused := (hpair.settles 5 (by decide)).eq hrun
  have hinlined := (hitems.settles 5 (by decide)).eq hends
  refine ⟨hknown, hrun, ?_, hinlined, fun hrepeats => ?_⟩
  · obtain ⟨names, hnames, heq, -⟩ := hpair.message _ hrefused
    cases heq
    exact hnames
  · obtain ⟨e, he⟩ := hitems.failed_iff.mpr (.inl hrepeats)
    rw [hinlined] at he
    cases he

end TreeGrammar.Description
