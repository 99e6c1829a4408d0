import Mathlib.Data.List.Basic
import TreeGrammar.Proofs.Expressions

/-!
Blocks are read back from their text. Lines that belong together are put together to one, and a
suite stands after a line that takes one. So the lines of a block are read as its statements,
however it is laid out. The induction is on the block.
-/
namespace TreeGrammar.Code

open Script

section
variable {pieces first inner rest : List Piece} {before tokens : List Token}
  {text start stop : String} {phrase target value : Phrase} {body next : Statements}

theorem passageFrom_open (ht : tokensOf text = some tokens) (hn : nesting (before ++ tokens) ≠ 0) :
    passageFrom before (.line text :: rest) = passageFrom (before ++ tokens) rest := by
  rw [passageFrom, passageBy, ht]
  simp only [Option.bind_eq_bind, Option.bind_some]
  rw [if_neg hn]

theorem passageFrom_closed (ht : tokensOf text = some tokens)
    (hn : nesting (before ++ tokens) = 0) :
    passageFrom before (.line text :: rest) =
      (passageFrom [] rest).map (.line (before ++ tokens)) := by
  rw [passageFrom, passageBy, ht]
  simp only [Option.bind_eq_bind, Option.bind_some]
  rw [if_pos hn]

theorem passageFrom_block (hb : before ≠ []) (h : continued before inner = some tokens) :
    passageFrom before (.block inner :: rest) = passageFrom tokens rest := by
  rw [passageFrom, passageBy, if_neg hb, h]
  rfl

/-- The pieces are one line of some tokens. -/
def Lined (pieces : List Piece) (tokens : List Token) : Prop :=
  ∀ rest, passageFrom [] (pieces ++ rest) = (passageFrom [] rest).map (.line tokens)

theorem lined_line (ht : tokensOf text = some tokens) (hn : nesting tokens = 0) :
    Lined [.line text] tokens :=
  fun _ => passageFrom_closed ht hn

/-- A line with an expression in it, which may stand between parentheses on lines of its own. -/
theorem lined_between {front back : List Token} (hs : Leads start front) (hf : nesting front = 0)
    (he : Spells stop back) (hd : Delimited stop.toList) (hb : nesting back = 0)
    (h : ReadAs inner phrase) (hbetween : Between start stop inner pieces) :
    ∃ tokens, Expresses tokens phrase ∧ Lined pieces (front ++ tokens ++ back) := by
  obtain ⟨tokens, hexpr, hholds⟩ := h
  -- Whatever tokens express the expression, the line is complete after them.
  have hnest {ts : List Token} (ht : Expresses ts phrase) : nesting (front ++ ts ++ back) = 0 := by
    rw [nesting_append, ht.nesting_append, hf]
    exact hb
  cases hbetween with
  | short text =>
    have hline := (hs.append_spells (hholds.line text rfl)).append hd he
    exact ⟨tokens, hexpr, lined_line hline.tokensOf (hnest hexpr)⟩
  | long =>
    -- The parentheses go into the tokens of the expression, which they do not change.
    refine ⟨_, hexpr.enclosed, fun rest => ?_⟩
    have hopen : Spells (start ++ "(") (front ++ [.opening]) := (hs.append leads_opening).spells
    have hdepth : nesting ([] ++ (front ++ [.opening])) ≠ 0 := by
      rw [List.nil_append, nesting_append, hf]
      exact Nat.succ_ne_zero 0
    have hcontinued := hholds.continued _ hdepth
    have hclose : Spells (")" ++ stop) (.closing :: back) := leads_closing.append_spells he
    have hassoc : [] ++ (front ++ [.opening]) ++ tokens ++ (.closing :: back) =
        front ++ (.opening :: (tokens ++ [.closing])) ++ back := by simp
    change passageFrom [] (.line (start ++ "(") :: .block inner :: .line (")" ++ stop) :: rest) = _
    rw [passageFrom_open hopen.tokensOf hdepth, passageFrom_block (by simp) hcontinued,
      passageFrom_closed hclose.tokensOf (by rw [hassoc]; exact hnest hexpr.enclosed), hassoc]

/-- The pieces are read as some statements. -/
def ReadsAs (pieces : List Piece) (statements : Statements) : Prop :=
  ∃ passage, passageFrom [] pieces = some passage ∧ passage.statements = some statements

theorem ReadsAs.read (h : ReadsAs pieces body) : read pieces = some body := by
  obtain ⟨passage, hpieces, hbody⟩ := h
  rw [Script.read, hpieces]
  exact hbody

theorem readsAs_nil : ReadsAs [] .done :=
  ⟨.done, rfl, rfl⟩

/-- A line that stands by itself. -/
theorem readsAs_line (hl : Lined first tokens) (hr : ReadsAs rest next)
    (h : ∀ passage : Passage, passage.statements = some next →
      (Passage.line tokens passage).statements = some body) : ReadsAs (first ++ rest) body := by
  obtain ⟨passage, hpieces, hnext⟩ := hr
  exact ⟨.line tokens passage, by rw [hl, hpieces]; rfl, h passage hnext⟩

theorem readsAs_assign (hl : Lined first tokens)
    (hh : headingOf tokens = some (.assign target value)) (hr : ReadsAs rest next) :
    ReadsAs (first ++ rest) (.assign target value next) := by
  apply readsAs_line hl hr
  intro passage hnext
  rw [Passage.statements, hh]
  simp only [Option.bind_eq_bind, Option.bind_some]
  rw [hnext]
  rfl

theorem readsAs_ret (hl : Lined first tokens) (hh : headingOf tokens = some (.ret value))
    (hr : ReadsAs rest next) : ReadsAs (first ++ rest) (.ret value next) := by
  apply readsAs_line hl hr
  intro passage hnext
  rw [Passage.statements, hh]
  simp only [Option.bind_eq_bind, Option.bind_some]
  rw [hnext]
  rfl

/-- A line that takes the block after it. -/
theorem readsAs_suite {suite : Statements} (hl : Lined first tokens) (hi : ReadsAs inner suite)
    (hr : ReadsAs rest next) (h : ∀ within after : Passage, within.statements = some suite →
      after.statements = some next →
      (Passage.line tokens (.suite within after)).statements = some body) :
    ReadsAs (first ++ (.block inner :: rest)) body := by
  obtain ⟨within, hinner, hsuite⟩ := hi
  obtain ⟨after, hpieces, hnext⟩ := hr
  refine ⟨.line tokens (.suite within after), ?_, h within after hsuite hnext⟩
  -- No parenthesis is open after the line, so the block is no part of it.
  rw [hl, passageFrom, passageBy, if_pos rfl, hinner]
  simp only [Option.bind_eq_bind, Option.bind_some]
  rw [hpieces]
  rfl

theorem readsAs_define {name : String} (hl : Lined first tokens)
    (hh : headingOf tokens = some (.define name)) (hb : ReadsAs inner body)
    (hr : ReadsAs rest next) :
    ReadsAs (first ++ (.block inner :: rest)) (.define name body next) := by
  apply readsAs_suite hl hb hr
  intro within after hbody hnext
  rw [Passage.statements, hh]
  simp only [Option.bind_eq_bind, Option.bind_some]
  rw [hbody, hnext]
  rfl

theorem readsAs_whether {name : String} {isNone : Bool} (hl : Lined first tokens)
    (hh : headingOf tokens = some (.whether name isNone)) (hb : ReadsAs inner body)
    (hr : ReadsAs rest next) :
    ReadsAs (first ++ (.block inner :: rest)) (.whether name isNone body next) := by
  apply readsAs_suite hl hb hr
  intro within after hbody hnext
  rw [Passage.statements, hh]
  simp only [Option.bind_eq_bind, Option.bind_some]
  rw [hbody, hnext]
  rfl

/-- A word and a blank. -/
theorem leads_word {w : String} (h : Spells w [.word w]) : Leads (w ++ " ") [.word w] :=
  h.append_leads rfl (.inl rfl) leads_blank

theorem leads_assignment {w : String} (h : Spells w [.word w]) :
    Leads (w ++ " = ") [.word w, .equals] := by
  have hsign : " = " = " " ++ "=" ++ " " := rfl
  rw [hsign]
  exact h.append_leads rfl (.inl rfl) ((leads_blank.append leads_equals).append leads_blank)

theorem spells_nodes : Spells "nodes" [.word "nodes"] :=
  spells_keyword (by decide) rfl

theorem leads_nodes : Leads "(nodes)" [.opening, .word "nodes", .closing] :=
  (leads_opening.append_spells spells_nodes).append_leads rfl (.inr rfl) leads_closing

theorem leads_return : Leads "return " [.word "return"] :=
  leads_word (w := "return") (spells_keyword (by decide) rfl)

theorem leads_res : Leads "res = " [.word "res", .equals] :=
  leads_assignment (w := "res") (spells_keyword (by decide) rfl)

theorem spells_commaNodes : Spells ", nodes" [.comma, .word "nodes"] :=
  (leads_comma.append leads_blank).append_spells spells_nodes

/-- The call of a matcher after some text is one line. -/
theorem lined_call {front : List Token} {matcher : Expr} (hs : Leads start front)
    (hf : nesting front = 0) (hm : matcher.Readable) (hl : CallLaidOut start matcher pieces) :
    ∃ tokens, Expresses tokens matcher.callPhrase ∧ Lined pieces (front ++ tokens) := by
  obtain ⟨inner, hinner, hbetween⟩ := hl
  -- What stands before the nodes is an expression, in parentheses or not.
  obtain ⟨tokens, he, hlined⟩ := lined_between hs hf leads_nodes.spells (fun c hc => by
    cases hc
    exact .inr rfl) rfl (matcher.readAs hm hinner) hbetween
  refine ⟨_, he.call (expresses_word nodes).lists, ?_⟩
  rw [List.append_assoc] at hlined
  exact hlined

/-- A result of a matcher bound to a name. -/
theorem readsAs_call {matcher : Expr} (hm : matcher.Readable)
    (hl : CallLaidOut "res = " matcher first) (hr : ReadsAs rest next) :
    ReadsAs (first ++ rest) (.assign (.name "res") matcher.callPhrase next) := by
  obtain ⟨tokens, he, hlined⟩ := lined_call leads_res rfl hm hl
  have hres := expresses_word "res"
  have hassign := headingOf_assign hres.phraseOf hres.equals_notMem he.phraseOf
  exact readsAs_assign hlined hassign hr

/-- What is taken apart by a pattern is returned put together anew. -/
theorem readsAs_regroup (pattern : Pattern) {result : Regrouped} (h : result.Readable) :
    ReadsAs [.line (pattern.text ++ ", nodes = res"), .line ("return " ++ result.text ++ ", nodes")]
      (.assign (.tuple [pattern.phrase, .name nodes]) (.name "res")
        (.ret (.tuple [result.phrase, .name nodes]) .done)) := by
  obtain ⟨ts, hpattern, hholds⟩ := pattern.readAs
  obtain ⟨ts', hresult, hholds'⟩ := result.readAs h
  have hpair := hpattern.lists_cons (expresses_word nodes).lists
  have hpair' := hresult.lists_cons (expresses_word nodes).lists
  have hres : Spells "res" [.word "res"] := spells_keyword (by decide) rfl
  have hnodes : Leads (", " ++ ("nodes" ++ " = ")) ([.comma] ++ [.word "nodes", .equals]) :=
    (leads_comma.append leads_blank).append (leads_assignment spells_nodes)
  -- The line that takes the result apart.
  have hfirst : Lined [.line (pattern.text ++ ", nodes = res")]
      (ts ++ [.comma, .word "nodes"] ++ .equals :: [.word "res"]) := by
    have hspells := (hholds.line _ rfl).append (by rintro c ⟨⟩; exact .inr rfl)
      (hnodes.append_spells hres)
    have hline : tokensOf (pattern.text ++ ", nodes = res") = _ := hspells.tokensOf
    rw [List.append_assoc]
    refine lined_line hline ?_
    have hnest := hpattern.nesting_append []
    rw [List.nil_append] at hnest
    rw [nesting_append, hnest]
    rfl
  -- The line that returns the new value.
  have hsecond : Lined [.line ("return " ++ result.text ++ ", nodes")]
      (.word "return" :: (ts' ++ .comma :: [.word "nodes"])) := by
    have hspells := (leads_return.append_spells (hholds'.line _ rfl)).append
      (by rintro c ⟨⟩; exact .inr rfl) spells_commaNodes
    have hline : tokensOf ("return " ++ result.text ++ ", nodes") = _ := hspells.tokensOf
    rw [List.append_assoc] at hline
    exact lined_line hline (hpair'.nesting_append [.word "return"])
  have hassign := headingOf_assign (hpair.phraseOf le_rfl) hpair.equals_notMem
    (expresses_word "res").phraseOf
  have hret := headingOf_ret (hpair'.phraseOf le_rfl) hpair'.equals_notMem
  exact readsAs_assign hfirst hassign (readsAs_ret hsecond hret readsAs_nil)

theorem readsAs_function (name : Local) (hb : ReadsAs inner body) (hr : ReadsAs rest next) :
    ReadsAs (functionPieces name inner ++ rest) (.define name.name body next) := by
  have hdef : Leads "def " [.word "def"] :=
    leads_word (w := "def") (spells_keyword (by decide) rfl)
  have hnodes : Leads ("(nodes)" ++ ":") [.opening, .word "nodes", .closing, .colon] :=
    leads_nodes.append leads_colon
  have hline := ((hdef.append_spells name.spells_name).append_leads rfl (.inr rfl) hnodes).spells
  exact readsAs_define (lined_line hline.tokensOf rfl) rfl hb hr

/-- However it is laid out, a block is read as its statements. -/
theorem Block.readsAs {b : Block} (hr : b.Readable) (hl : b.LaidOut pieces) :
    ReadsAs pieces b.statements := by
  induction b generalizing pieces with
  | define name body next ihb ihn =>
    obtain ⟨inner, rest, hbody, hnext, rfl⟩ := hl
    exact readsAs_function name (ihb hr.1 hbody) (ihn hr.2 hnext)
  | bind name value next ih =>
    obtain ⟨inner, first, rest, hvalue, hbetween, hnext, rfl⟩ := hl
    obtain ⟨tokens, he, hlined⟩ := lined_between (leads_assignment name.spells_name) rfl
      spells_empty (fun c hc => by cases hc) rfl (value.readAs hr.1 hvalue) hbetween
    rw [List.append_nil] at hlined
    have hassign := headingOf_assign (expresses_word name.name).phraseOf
      (expresses_word name.name).equals_notMem he.phraseOf
    exact readsAs_assign hlined hassign (ih hr.2 hnext)
  | attempt matcher next ih =>
    obtain ⟨first, rest, hcall, hnext, rfl⟩ := hl
    have hret : ReadsAs [.line "return res"] (.ret (.name "res") .done) :=
      readsAs_ret (lined_line rfl rfl) rfl readsAs_nil
    exact readsAs_call hr.1 hcall (readsAs_whether (lined_line rfl rfl) rfl hret (ih hr.2 hnext))
  | ret matcher =>
    obtain ⟨tokens, he, hlined⟩ := lined_call leads_return rfl hr hl
    have hret := readsAs_ret hlined (headingOf_ret he.phraseOf he.equals_notMem) readsAs_nil
    rwa [List.append_nil] at hret
  | regroup matcher pattern result =>
    obtain ⟨first, hcall, rfl⟩ := hl
    have hnone : ReadsAs [.line "return None"] (.ret (.name "None") .done) :=
      readsAs_ret (lined_line rfl rfl) rfl readsAs_nil
    exact readsAs_call hr.1 hcall
      (readsAs_whether (lined_line rfl rfl) rfl hnone (readsAs_regroup pattern hr.2.1))
  | insert code next => exact hr.elim
  | given code => exact hr.elim

theorem readsAs_defs {defs : List Def} (hd : ∀ d ∈ defs, d.Readable)
    (hl : DefsLaidOut defs pieces) (hr : ReadsAs rest next) :
    ReadsAs (pieces ++ rest) (statementsAfter next defs) := by
  induction defs generalizing pieces with
  | nil =>
    obtain rfl := hl
    exact hr
  | cons d defs ih =>
    obtain ⟨hfirst, hdefs⟩ := List.forall_mem_cons.mp hd
    cases d with
    | function name body =>
      obtain ⟨inner, others, hbody, hothers, rfl⟩ := hl
      rw [List.append_assoc]
      exact readsAs_function name (body.readsAs hfirst hbody) (ih hdefs hothers)
    | given code => exact hfirst.elim

end

end TreeGrammar.Code
