import TreeGrammar.Parser.Basic
import TreeGrammar.Proofs.Methods
import TreeGrammar.Proofs.Pairing
import TreeGrammar.Proofs.Spelling

/-!
The journal of a parse. Its lines are those of calls within calls: a method that is entered is left
again at the same margin, and between these two lines are those of calls further in. A parse that
keeps a journal ends as one that does not. Both are shown at once: of two runs of the same code one
does what the other does, and besides it writes the lines of some calls.
-/
namespace TreeGrammar

mutual

/-- The nodes start in rows that are numbers, as a journal can show them. -/
def Tree.Numbered : Tree → Prop
  | node _ loc children _ _ => loc.start.short.isSome ∧ NumberedAll children

def Tree.NumberedAll : List Tree → Prop
  | [] => True
  | tree :: rest => Numbered tree ∧ NumberedAll rest

end

mutual

theorem Tree.Numbered.withoutExtras (extras : List Label) : (tree : Tree) → tree.Numbered →
    (tree.withoutExtras extras).Numbered
  | .node _ _ children _ _, h => by
    rw [Tree.withoutExtras]
    exact ⟨h.1, NumberedAll.keepOthers extras children h.2⟩

theorem Tree.NumberedAll.keepOthers (extras : List Label) : (trees : List Tree) →
    NumberedAll trees → NumberedAll (Tree.keepOthers extras trees)
  | [], _ => trivial
  | tree :: rest, h => by
    rw [Tree.keepOthers]
    split
    · exact NumberedAll.keepOthers extras rest h.2
    · exact ⟨h.1.withoutExtras extras, NumberedAll.keepOthers extras rest h.2⟩

end

theorem Tree.Numbered.of_stripped {extras : List Label} {tree root : Tree} (h : tree.Numbered)
    (hroot : tree.stripped extras = some root) : root.Numbered := by
  rw [stripped] at hroot
  split at hroot
  · cases hroot
    exact h
  · split at hroot
    · cases hroot
      exact h.withoutExtras extras
    · cases hroot

namespace Parser

open Code

/-- What a line of a journal tells: a method is entered or left while so many others are running. -/
inductive Event where
  | entry (level : Nat) (rule : Label) (shown : String)
  | exit (level : Nat) (rule : Label) (answer : String)

namespace Event

def level : Event → Nat
  | entry level _ _ | exit level _ _ => level

/-- The line without its margin. -/
def text : Event → String
  | entry _ rule shown => methodId rule ++ "() .... (looking at " ++ shown ++ ")"
  | exit _ rule answer => "... " ++ methodId rule ++ "() --> " ++ answer

def line (e : Event) : String :=
  String.ofList (List.replicate (2 * e.level) ' ') ++ e.text

/-- The text of a line does not start with a blank, so the margin can be told from it. -/
theorem text_head (e : Event) : ∃ c rest, e.text.toList = c :: rest ∧ c ≠ ' ' := by
  cases e with
  | entry _ rule shown =>
    obtain ⟨after, hafter⟩ := methodId_head rule
    rw [text, String.append_assoc, String.append_assoc, String.toList_append, hafter]
    exact ⟨'p', _, rfl, by decide⟩
  | exit _ rule answer =>
    rw [text, String.append_assoc, String.append_assoc, String.toList_append]
    exact ⟨'.', _, rfl, by decide⟩

end Event

/-- How far a line is indented: the blanks that it starts with. -/
def indentation (line : String) : Nat :=
  (line.toList.takeWhile (· = ' ')).length

theorem Event.indentation_line (e : Event) : indentation e.line = 2 * e.level := by
  obtain ⟨c, rest, htext, hc⟩ := e.text_head
  rw [indentation, line, String.toList_append, String.toList_ofList, htext, List.takeWhile_append]
  simp [hc]

/-- The events of calls that follow each other, each with the calls inside of it. -/
inductive Nested : Nat → List Event → Prop
  | nil {level : Nat} : Nested level []
  | call {level : Nat} {rule : Label} {shown answer : String} {inner rest : List Event} :
    Nested (level + 1) inner → Nested level rest →
      Nested level (.entry level rule shown :: (inner ++ .exit level rule answer :: rest))

section
variable {level : Nat} {events : List Event}

theorem Nested.append {more : List Event} (h : Nested level events) (hmore : Nested level more) :
    Nested level (events ++ more) := by
  induction h with
  | nil => exact hmore
  | call hinner _ _ ih =>
    rw [List.cons_append, List.append_assoc, List.cons_append]
    exact .call hinner (ih hmore)

theorem Nested.level_le (h : Nested level events) : ∀ e ∈ events, level ≤ e.level := by
  induction h with
  | nil => exact fun e he => nomatch he
  | call _ _ ihinner ihrest =>
    intro e he
    rcases List.mem_cons.mp he with rfl | he
    · exact Nat.le_refl _
    · rcases List.mem_append.mp he with he | he
      · exact Nat.le_of_succ_le (ihinner e he)
      · rcases List.mem_cons.mp he with rfl | he
        · exact Nat.le_refl _
        · exact ihrest e he

/-- The events up to the one that leaves the method again, all of them further in. -/
def Within (level : Nat) (rule : Label) (later inside : List Event) : Prop :=
  ∃ left answer after, methodId left = methodId rule ∧
    later = inside ++ .exit level left answer :: after ∧ ∀ e ∈ inside, level < e.level

theorem Within.eq {rule : Label} {later inside inside' : List Event}
    (h : Within level rule later inside) (h' : Within level rule later inside') :
    inside = inside' := by
  obtain ⟨left, answer, after, -, rfl, hinside⟩ := h
  obtain ⟨left', answer', after', -, heq, hinside'⟩ := h'
  -- Of two such events the later one would stand among the deeper ones before the other.
  rcases List.append_eq_append_iff.mp heq with ⟨cs, rfl, htail⟩ | ⟨cs, rfl, htail⟩
  · cases cs with
    | nil => rw [List.append_nil]
    | cons c cs =>
      obtain ⟨rfl, -⟩ := List.cons.inj htail
      exact absurd (hinside' _ (List.mem_append_right _ List.mem_cons_self)) (Nat.lt_irrefl _)
  · cases cs with
    | nil => rw [List.append_nil]
    | cons c cs =>
      obtain ⟨rfl, -⟩ := List.cons.inj htail
      exact absurd (hinside _ (List.mem_append_right _ List.mem_cons_self)) (Nat.lt_irrefl _)

theorem Within.append {rule : Label} {later inside : List Event}
    (h : Within level rule later inside) (more : List Event) :
    Within level rule (later ++ more) inside := by
  obtain ⟨left, answer, after, hleft, rfl, hinside⟩ := h
  exact ⟨left, answer, after ++ more, hleft, by rw [List.append_assoc, List.cons_append], hinside⟩

/-- A method that is entered is left again. -/
theorem Nested.exists_within (h : Nested level events) {before later : List Event} {l : Nat}
    {rule : Label} {shown : String} (hsplit : events = before ++ .entry l rule shown :: later) :
    ∃ inside, Within l rule later inside := by
  induction h generalizing before later with
  | nil => exact absurd hsplit.symm (List.append_ne_nil_of_right_ne_nil _ (List.cons_ne_nil _ _))
  | @call level _ _ answer inner rest hinner hrest ihinner ihrest =>
    -- The entry is the first event, or it stands inside of the first call or after it.
    cases before with
    | nil =>
      cases hsplit
      exact ⟨inner, rule, answer, rest, rfl, rfl, hinner.level_le⟩
    | cons first before =>
      obtain ⟨-, hsplit⟩ := List.cons.inj hsplit
      rcases List.append_eq_append_iff.mp hsplit with ⟨cs, rfl, htail⟩ | ⟨cs, rfl, htail⟩
      · cases cs with
        | nil => cases htail
        | cons c cs => exact ihrest (List.cons.inj htail).2
      · cases cs with
        | nil => cases htail
        | cons c cs =>
          obtain ⟨rfl, hlater⟩ := List.cons.inj htail
          obtain ⟨inside, hinside⟩ := ihinner rfl
          rw [hlater]
          exact ⟨inside, hinside.append _⟩

end

/-- The journal after the lines of some events. -/
def Journal.after (journal : Journal) (events : List Event) : Journal :=
  ⟨journal.depth, (events.map Event.line).reverse ++ journal.lines⟩

/-- The first result is that of a run that writes the lines of some calls, and is else like the
second result. -/
inductive Follows {α β : Type} (R : α → β → Prop) (journal journal' : Journal) :
    Except RunFault (α × Journal) → Except RunFault (β × Journal) → Prop
  | ok {a : α} {b : β} {events : List Event} : R a b → Nested journal.depth events →
    Follows R journal journal' (.ok (a, journal.after events)) (.ok (b, journal'))
  | error (fault : RunFault) : Follows R journal journal' (.error fault) (.error fault)

/-- The first run does what the second one does, and besides it writes the lines of some calls. -/
def Logged {α β : Type} (R : α → β → Prop) (x : Run α) (y : Run β) : Prop :=
  ∀ journal journal', Follows R journal journal' (x.run journal) (y.run journal')

section
variable {α β γ δ : Type} {R : α → β → Prop} {S : γ → δ → Prop}

theorem Journal.after_append (journal : Journal) (events more : List Event) :
    (journal.after events).after more = journal.after (events ++ more) := by
  simp only [after, List.map_append, List.reverse_append, List.append_assoc]

theorem logged_pure {a : α} {b : β} (h : R a b) : Logged R (pure a) (pure b) := by
  intro journal journal'
  have hnone : Nested journal.depth [] := .nil
  exact .ok h hnone

theorem logged_throw (fault : RunFault) : Logged R (throw fault) (throw fault) :=
  fun _ _ => .error fault

theorem logged_bind {x : Run α} {y : Run β} {f : α → Run γ} {g : β → Run δ} (h : Logged R x y)
    (hfg : ∀ a b, R a b → Logged S (f a) (g b)) : Logged S (x >>= f) (y >>= g) := by
  intro journal journal'
  have hfirst := h journal journal'
  rw [StateT.run_bind, StateT.run_bind]
  generalize x.run journal = r at hfirst ⊢
  generalize y.run journal' = r' at hfirst ⊢
  cases hfirst with
  | error fault => exact .error fault
  | @ok a b events hab hevents =>
    -- The second part starts with the lines of the first one, at the same depth.
    have hnext := hfg a b hab (journal.after events) journal'
    change Follows S journal journal' ((f a).run (journal.after events)) ((g b).run journal')
    generalize (f a).run (journal.after events) = r at hnext ⊢
    generalize (g b).run journal' = r' at hnext ⊢
    cases hnext with
    | error fault => exact .error fault
    | ok hcd hmore =>
      rw [Journal.after_append]
      exact .ok hcd (hevents.append hmore)

/-- Runs of which the first one keeps a journal. -/
def logging : Pairing Run Run :=
  ⟨Logged, logged_pure, logged_bind, logged_throw⟩

theorem run_enter {nodes : List Tree} {shown : String} (h : Tree.shown nodes = some shown)
    (rule : Label) (journal : Journal) : (enter rule nodes).run journal =
      .ok ((), ⟨journal.depth + 1, (Event.entry journal.depth rule shown).line :: journal.lines⟩) := by
  rw [enter, h]
  simp only [Event.line, Event.text, ← String.append_assoc]
  rfl

theorem run_leave (rule : Label) (form : RestForm) (found : Match Tree) (depth : Nat)
    (lines : List String) : (leave rule form found).run ⟨depth + 1, lines⟩ =
      .ok ((), ⟨depth, (Event.exit depth rule (String.ofList
        ((answerText form found).toList.take answerWidth))).line :: lines⟩) := by
  simp only [Event.line, Event.text, ← String.append_assoc]
  rfl

/-- The lines of a call stand around those of the calls inside of it. -/
theorem logged_call {R : Match Marked → Match Marked → Prop} {x y : Run (Match Marked)}
    (h : Logged R x y) {nodes : List Tree} {shown : String} (hs : Tree.shown nodes = some shown)
    (rule : Label) (form : RestForm) :
    Logged R (do
      enter rule nodes
      let found ← x
      leave rule form (Setting.plain found)
      pure found) y := by
  intro journal journal'
  let entry : Event := .entry journal.depth rule shown
  let entered : Journal := ⟨journal.depth + 1, entry.line :: journal.lines⟩
  have hcall := h entered journal'
  rw [StateT.run_bind, run_enter hs]
  change Follows R journal journal' ((x >>= fun found => do
    leave rule form (Setting.plain found)
    pure found).run entered) (y.run journal')
  rw [StateT.run_bind]
  generalize x.run entered = r at hcall ⊢
  generalize y.run journal' = r' at hcall ⊢
  cases hcall with
  | error fault => exact .error fault
  | @ok a b events hab hevents =>
    -- What is called leaves the depth as it was on entry, so the method is left at its own margin.
    let exit : Event := .exit journal.depth rule
      (String.ofList ((answerText form (Setting.plain a)).toList.take answerWidth))
    have hlines : journal.after (entry :: (events ++ [exit])) =
        ⟨journal.depth, exit.line :: (entered.after events).lines⟩ := by
      simp [Journal.after, entered]
    change Follows R journal journal' ((do
      leave rule form (Setting.plain a)
      pure a : Run (Match Marked)).run ⟨journal.depth + 1, (entered.after events).lines⟩)
      (.ok (b, journal'))
    rw [StateT.run_bind, run_leave]
    change Follows R journal journal'
      (.ok (a, ⟨journal.depth, exit.line :: (entered.after events).lines⟩)) (.ok (b, journal'))
    rw [← hlines]
    exact .ok hab (.call hevents .nil)

end

/-- Nodes of one tree, marked twice with what methods answer: the answers are the same, and the
first ones are written to a journal. -/
inductive Twins : Marked → Marked → Prop
  | mk {tree : Tree} {children children' : List Marked}
    {answer answer' : Label → Run (Option Value)} :
    tree.loc.start.short.isSome → List.Forall₂ Twins children children' →
      (∀ rule, Logged Eq (answer rule) (answer' rule)) →
        Twins (.mk tree children answer) (.mk tree children' answer')

namespace Setting

/-- The setting with a journal. -/
def loud (s : Setting) : Setting := { s with verbose := true }

/-- The setting without a journal. -/
def quiet (s : Setting) : Setting := { s with verbose := false }

variable {s : Setting}

theorem exists_shown {nodes nodes' : List Marked} (h : List.Forall₂ Twins nodes nodes') :
    ∃ shown, Tree.shown (nodes.map Marked.tree) = some shown := by
  cases h with
  | nil => exact ⟨_, rfl⟩
  | cons hn _ =>
    cases hn with
    | @mk tree _ _ _ _ hrow =>
      obtain ⟨place, hplace⟩ := Option.isSome_iff_exists.mp hrow
      refine ⟨place ++ ": " ++ tree.kind.shown, ?_⟩
      rw [List.map_cons, Tree.shown, Marked.tree, hplace]
      rfl

theorem logged_answer (rule : Label) :
    logging.Matchers Twins (s.loud.answer rule) (s.quiet.answer rule) := by
  intro nodes nodes' hnodes
  cases hnodes with
  | nil =>
    change Logged (Match.Corresponds Twins)
      (if (s.method? rule).isSome then pure none else throw (.noSuchRule rule))
      (if (s.method? rule).isSome then pure none else throw (.noSuchRule rule))
    split
    · exact logged_pure .none
    · exact logged_throw _
  | cons hn hrest =>
    cases hn with
    | mk _ _ hanswer =>
      refine logged_bind (hanswer rule) ?_
      rintro found _ rfl
      cases found with
      | none => exact logged_pure .none
      | some v => exact logged_pure (.some v hrest)

theorem logged_callMethod (form : RestForm) (rule : Label) :
    logging.Matchers Twins (s.loud.callMethod form rule) (s.quiet.callMethod form rule) := by
  intro nodes nodes' hnodes
  obtain ⟨shown, hshown⟩ := exists_shown hnodes
  exact logged_call (logged_answer rule nodes nodes' hnodes) hshown rule form

theorem logged_leaf {n n' : Marked} (h : n.tree = n'.tree) :
    Logged Eq (s.loud.leaf n) (s.quiet.leaf n') := by
  have hsrc : s.quiet.src = s.loud.src := rfl
  rw [leaf, leaf, h, hsrc]
  cases s.loud.src.token n'.tree.loc with
  | ok token => exact logged_pure rfl
  | error fault => exact logged_throw _

theorem logged_host : logging.Hosts Twins s.loud.host s.quiet.host where
  kind n n' h := by cases h; rfl
  leaf n n' h := logged_leaf (by cases h; rfl)
  children n n' h := by
    cases h with
    | mk _ hchildren _ => exact hchildren
  rule := logged_callMethod .tuple
  given _ := Pairing.matchers_throw _
  around := rfl

/-- The method of a rule answers the same with and without a journal. -/
theorem logged_runMethod {tree : Tree} (hrow : tree.loc.start.short.isSome)
    {children children' : List Marked} (h : List.Forall₂ Twins children children')
    (rule : Label) :
    Logged Eq (s.loud.runMethod tree children rule) (s.quiet.runMethod tree children' rule) := by
  have hmethod : s.quiet.method? rule = s.loud.method? rule := rfl
  rw [runMethod, runMethod, hmethod]
  cases s.loud.method? rule with
  | none => exact logged_throw _
  | some method =>
    have hnode : Twins (.mk tree children fun _ => pure none)
        (.mk tree children' fun _ => pure none) :=
      .mk hrow h fun _ => logged_pure rfl
    refine logged_bind
      (logged_host.block Pairing.envs_empty method.block _ _ (.cons hnode .nil)) ?_
    intro found found' hfound
    cases hfound with
    | none => exact logged_pure rfl
    | some v _ => exact logged_pure rfl

mutual

theorem twins_mark : (tree : Tree) → tree.Numbered → Twins (s.loud.mark tree) (s.quiet.mark tree)
  | .node kind loc children named missing, h => by
    have hrow : (Tree.node kind loc children named missing).loc.start.short.isSome := h.1
    have hchildren := twins_markAll children h.2
    rw [mark, mark]
    exact .mk hrow hchildren (logged_runMethod hrow hchildren)

theorem twins_markAll : (trees : List Tree) → Tree.NumberedAll trees →
    List.Forall₂ Twins (s.loud.markAll trees) (s.quiet.markAll trees)
  | [], _ => .nil
  | tree :: rest, h => .cons (twins_mark tree h.1) (twins_markAll rest h.2)

end

/-- The value of a tree is the same with and without a journal. -/
theorem logged_value {root : Tree} (h : root.Numbered) :
    Logged Eq (s.loud.value root) (s.quiet.value root) := by
  have hextras : s.quiet.module.extras = s.loud.module.extras := rfl
  rw [value, value, hextras]
  cases hroot : root.stripped s.loud.module.extras with
  | none => exact logged_throw _
  | some tree =>
    have htree : tree.Numbered := h.of_stripped hroot
    refine logged_bind
      (logged_callMethod .list s.module.entrypoint _ _ (.cons (twins_mark tree htree) .nil)) ?_
    intro found found' hfound
    cases hfound with
    | none => exact logged_pure rfl
    | some v hrest =>
      cases hrest with
      | nil => exact logged_pure rfl
      | cons _ _ => exact logged_pure rfl

end Setting

theorem Follows.depth_eq {α β : Type} {R : α → β → Prop} {journal journal' after : Journal} {a : α}
    {r : Except RunFault (β × Journal)} (h : Follows R journal journal' (.ok (a, after)) r) :
    after.depth = journal.depth := by
  cases h with
  | ok _ _ => rfl

/-- A parse that keeps a journal ends as one that does not, and its journal is that of calls. -/
theorem Follows.parse_eq {s : Setting} {root : Tree}
    (h : Follows Eq .empty .empty ((s.loud.value root).run .empty)
      ((s.quiet.value root).run .empty)) :
    (parse s.loud root).map Prod.fst = (parse s.quiet root).map Prod.fst ∧
      ∀ outcome lines, parse s.loud root = .ok (outcome, lines) →
        ∃ events, lines = events.map Event.line ∧ Nested 0 events := by
  have hfaults : root.faults s.quiet.src = root.faults s.loud.src := rfl
  rw [parse, parse, hfaults]
  cases root.faults s.loud.src with
  | error fault => exact ⟨rfl, fun _ _ hparse => nomatch hparse⟩
  | ok faults =>
    cases faults with
    | cons fault rest =>
      -- A tree with syntax errors is not matched at all, so nothing is written.
      refine ⟨rfl, fun outcome lines hparse => ?_⟩
      cases hparse
      exact ⟨[], rfl, .nil⟩
    | nil =>
      dsimp only
      generalize (s.loud.value root).run .empty = r at h ⊢
      generalize (s.quiet.value root).run .empty = r' at h ⊢
      cases h with
      | error fault => exact ⟨rfl, fun _ _ hparse => nomatch hparse⟩
      | @ok found _ events hfound hevents =>
        subst hfound
        have hlines : (Journal.empty.after events).written = events.map Event.line := by
          simp [Journal.after, Journal.written, Journal.empty]
        cases found with
        | none | some v =>
          refine ⟨rfl, fun outcome lines hparse => ?_⟩
          cases hparse
          exact ⟨events, hlines, hevents⟩

/-- The lines are those of calls within calls. The margins tell how many methods are running, and a
line on which a method is entered is followed by exactly one with the same margin on which it is
left again, with deeper lines alone between the two. -/
def WellNested (lines : List String) : Prop :=
  ∃ events, lines = events.map Event.line ∧ (∀ e ∈ events, indentation e.line = 2 * e.level) ∧
    Nested 0 events ∧ ∀ before level rule shown later,
      events = before ++ .entry level rule shown :: later →
        ∃! inside, Within level rule later inside

theorem Nested.wellNested {events : List Event} (h : Nested 0 events) :
    WellNested (events.map Event.line) := by
  refine ⟨events, rfl, fun e _ => e.indentation_line, h, ?_⟩
  intro before level rule shown later hsplit
  obtain ⟨inside, hinside⟩ := h.exists_within hsplit
  exact ⟨inside, hinside, fun other hother => hother.eq hinside⟩

/-- A journal does not change what it is kept of: a parse ends in the same way without it. No method
is running any more when a parse is over, and its journal is well nested. -/
theorem parse_journal (s : Setting) {root : Tree} (h : root.Numbered) :
    (parse s.loud root).map Prod.fst = (parse s.quiet root).map Prod.fst ∧
    (∀ found journal, (s.loud.value root).run .empty = .ok (found, journal) →
      journal.depth = 0) ∧
    ∀ outcome lines, parse s.loud root = .ok (outcome, lines) → WellNested lines := by
  have hvalue := Setting.logged_value (s := s) h .empty .empty
  obtain ⟨houtcome, hnested⟩ := hvalue.parse_eq
  refine ⟨houtcome, ?_, ?_⟩
  · intro found journal hrun
    rw [hrun] at hvalue
    exact hvalue.depth_eq
  · intro outcome lines hparse
    obtain ⟨events, rfl, hevents⟩ := hnested outcome lines hparse
    exact hevents.wellNested

/-- The code of a list of items, each without a node inside of it. -/
def listModule : Module where
  entrypoint := "list"
  extras := []
  methods :=
    [{ rule := .str "list", comment := "list: item*",
       block := .ret (.node (.str "list") (.star (.rule (.str "item")) .finish)) },
     { rule := .str "item", comment := "item: ()", block := .ret (.leaf (.str "item")) }]

/-- An item of one byte. -/
def itemAt (column : Int) : Tree :=
  .node (.str "item") ⟨.at 0 column, .at 0 (column + 1)⟩ [] (.bool true) (.bool false)

/-- A list of two items. -/
def twoItems : Tree :=
  .node (.str "list") ⟨.at 0 0, .at 0 2⟩ [itemAt 0, itemAt 1] (.bool true) (.bool false)

def listSetting : Setting := ⟨listModule, .ofText "ab", false⟩

/-- The list and its two items are entered and left. -/
theorem two_items_journal : twoItems.Numbered ∧
    (parse listSetting.loud twoItems).map Prod.fst =
      (parse listSetting.quiet twoItems).map Prod.fst ∧
    ∃ v lines, parse listSetting.loud twoItems = .ok (.parsed v, lines) ∧
      lines.length = 6 ∧ WellNested lines := by
  have hnumbered : twoItems.Numbered :=
    ⟨by decide, ⟨by decide, trivial⟩, ⟨by decide, trivial⟩, trivial⟩
  have hfaults : twoItems.faults listSetting.loud.src = .ok [] := by
    simp [Tree.faults, Tree.faultsOf, twoItems, itemAt, Tree.errorKind, Json.isTrue]
  have hrun : ((listSetting.loud.value twoItems).run .empty).map
      (fun found => (found.1.isSome, found.2.written.length)) =
      .ok (true, 6) := by decide +kernel
  obtain ⟨houtcome, -, hnested⟩ := parse_journal listSetting hnumbered
  refine ⟨hnumbered, houtcome, ?_⟩
  cases hvalue : (listSetting.loud.value twoItems).run .empty with
  | error e =>
    rw [hvalue] at hrun
    cases hrun
  | ok found =>
    obtain ⟨found, journal⟩ := found
    rw [hvalue] at hrun
    obtain ⟨hfound, hlength⟩ := Prod.mk.inj (Except.ok.inj hrun)
    obtain ⟨v, rfl⟩ := Option.isSome_iff_exists.mp hfound
    have hparse : parse listSetting.loud twoItems = .ok (.parsed v, journal.written) := by
      rw [parse, hfaults]
      simp only [hvalue]
    exact ⟨v, journal.written, hparse, hlength, hnested _ _ hparse⟩

end Parser

end TreeGrammar
