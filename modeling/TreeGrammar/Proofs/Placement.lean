import TreeGrammar.Proofs.Sharing
import TreeGrammar.Proofs.Suites

/-!
The code of a module is a suite. Expressions take one line or stand between parentheses, however
they are laid out, and blocks return in the end; so do the methods, and a module is the class of
these. So the rows of a module are placed well, whatever texts its tokens are.
-/
namespace TreeGrammar

namespace Code

open Text Script

/-- The lines of an expression: one line, or several between parentheses. A comma may follow. -/
inductive Shaped : List Piece → Prop
  | line {text : String} (h : IsLine text) : Shaped [.line text]
  | parens {opening : String} {inner : List Piece} (ho : IsOpening opening)
    (hi : Suite false inner) : Shaped [.line opening, .block inner, .line ")"]

section
variable {pieces inner : List Piece} {start stop func text : String} {returns : Bool}

theorem IsStart.append (h : IsStart start) (ht : OneLine text) : IsStart (start ++ text) := by
  refine ⟨oneLine_append.mpr ⟨h.oneLine, ht⟩, ?_⟩
  rw [String.toList_append]
  exact h.starts.append _

theorem IsStart.opening (h : IsStart start) : IsOpening (start ++ "(") := by
  refine ⟨h.append (by decide), ?_⟩
  rw [String.toList_append]
  exact List.getLast?_concat

theorem IsStart.line (h : IsStart start) (ht : OneLine text) (he : Ends text.toList) :
    IsLine (start ++ text) := by
  refine ⟨h.append ht, ?_⟩
  rw [String.toList_append]
  exact he.append_left _

/-- More text at the end of a line leaves it one if no block opens there. -/
theorem IsLine.append (h : IsLine text) (hs : OneLine stop) (he : stop = "" ∨ Ends stop.toList) :
    IsLine (text ++ stop) := by
  rcases he with rfl | he
  · rwa [String.append_empty]
  · exact h.toIsStart.line hs he

theorem Shaped.suite (h : Shaped pieces) : Suite false pieces := by
  cases h with
  | line h => exact .line h nofun
  | parens ho hi => exact .parens ho nofun hi (by decide)

theorem Shaped.suite_comma (h : Shaped pieces) : Suite false (withSuffix "," pieces) := by
  cases h with
  | line h => exact .line (h.append (by decide) (.inr (by decide))) nofun
  | parens ho hi => exact .parens ho nofun hi (by decide)

theorem suite_arguments {args : List (List Piece)} (hne : args ≠ [])
    (h : ∀ arg ∈ args, Shaped arg) : Suite false (args.flatMap (withSuffix ",")) := by
  induction args with
  | nil => exact absurd rfl hne
  | cons arg rest ih =>
    obtain ⟨harg, hrest⟩ := List.forall_mem_cons.mp h
    rw [List.flatMap_cons]
    -- No suite is empty, so the last argument is one by itself.
    cases rest with
    | nil =>
      rw [List.flatMap_nil, List.append_nil]
      exact harg.suite_comma
    | cons next rest => exact .append harg.suite_comma (ih (List.cons_ne_nil _ _) hrest)

/-- An application has the shape of an expression if its arguments have it. -/
theorem Applied.shaped {args : List (List Piece)} (ha : Applied func args pieces)
    (hf : IsStart func) (hne : args ≠ []) (h : ∀ arg ∈ args, Shaped arg) : Shaped pieces := by
  cases ha with
  | short texts =>
    have htexts : ∀ text ∈ texts, OneLine text := by
      intro text ht
      cases h _ (List.mem_map_of_mem ht) with
      | line hl => exact hl.oneLine
    have hargs : OneLine (", ".intercalate texts) := oneLine_intercalate (by decide) htexts
    have hopen : IsStart (func ++ "(" ++ ", ".intercalate texts) := hf.opening.append hargs
    exact .line (hopen.line (by decide) (by decide))
  | long => exact .parens hf.opening (suite_arguments hne h)

/-- Between two texts an expression is a statement. -/
theorem Between.suite (hb : Between start stop inner pieces) (hi : Shaped inner)
    (hs : IsStart start) (hstop : stop = "" ∨ stop = "(nodes)")
    (hr : returns = true → "return ".toList <+: start.toList) : Suite returns pieces := by
  have hlead (more : String) (ht : returns = true) :
      "return ".toList <+: (start ++ more).toList := by
    rw [String.toList_append]
    exact (hr ht).trans (List.prefix_append _ _)
  cases hb with
  | short text =>
    cases hi with
    | line h =>
      have hline : IsLine (start ++ text ++ stop) := by
        refine (hs.line h.oneLine h.ends).append ?_ (hstop.imp id ?_)
        · rcases hstop with rfl | rfl <;> decide
        · rintro rfl
          decide
      rw [String.append_assoc] at hline ⊢
      exact .line hline (hlead _)
  | long =>
    refine .parens hs.opening (hlead _) hi.suite ?_
    rcases hstop with rfl | rfl <;> decide

end

section
variable {pieces : List Piece}

/-- Words stand alone as expressions. -/
theorem shaped_word {w : String} (h : ∀ c ∈ w.toList, isWordChar c) (hs : Starts w.toList) :
    Shaped [.line w] := by
  refine .line ⟨⟨oneLine_of_wordChars h, hs⟩, ends_of_wordChars h fun hnil => ?_⟩
  obtain ⟨c, hc, -⟩ := hs
  rw [hnil] at hc
  cases hc

theorem Local.starts_name (name : Local) : Starts name.name.toList := by
  rw [Local.toList_name]
  exact ⟨'_', rfl, by decide⟩

theorem isLine_quoted (s : String) : IsLine (Text.quoted s) := by
  have hmark : markOf s.toList ∉ [' ', '#', ')', 'd'] ∧ markOf s.toList ∉ [':', '('] := by
    unfold markOf
    split_ifs <;> decide
  refine ⟨⟨oneLine_quoted s, _, ?_, hmark.1⟩, _, ?_, hmark.2⟩
  · rw [Text.quoted, String.toList_ofList]
    rfl
  · rw [Text.quoted, String.toList_ofList, quoteChars]
    exact List.getLast?_concat

/-- However it is laid out, an expression is a line or stands between parentheses. -/
theorem Expr.shaped {e : Expr} (hr : e.Readable) (hl : e.LaidOut pieces) : Shaped pieces := by
  induction e generalizing pieces with
  | success | finish =>
    obtain rfl := hl
    exact .line (by decide)
  | ref name =>
    obtain rfl := hl
    exact shaped_word name.isWordChar_of_mem_name name.starts_name
  | rule name =>
    obtain rfl := hl
    refine shaped_word (isWordChar_of_mem_matcher hr) ?_
    rw [String.toList_append]
    exact ⟨'s', rfl, by decide⟩
  | leaf kind =>
    obtain rfl := hl
    obtain ⟨s, rfl⟩ := hr
    have hstart : IsStart "self._parse_leaf_rule(" := by decide
    have hline := hstart.line (oneLine_quoted s) (isLine_quoted s).ends
    exact .line (hline.append (by decide) (.inr (by decide)))
  | seq a b iha ihb | star a b iha ihb | plus a b iha ihb =>
    obtain ⟨ps, qs, ha, hb, happlied⟩ := hl
    refine happlied.shaped (by decide) (List.cons_ne_nil _ _) ?_
    exact List.forall_mem_cons.mpr ⟨iha hr.1 ha, List.forall_mem_singleton.mpr (ihb hr.2 hb)⟩
  | node kind children ih =>
    obtain ⟨qs, hb, happlied⟩ := hl
    obtain ⟨⟨s, rfl⟩, hchildren⟩ := hr
    refine happlied.shaped (by decide) (List.cons_ne_nil _ _) ?_
    exact List.forall_mem_cons.mpr
      ⟨.line (isLine_quoted s), List.forall_mem_singleton.mpr (ih hchildren hb)⟩
  | given code => exact hr.elim

/-- A matcher called with `nodes` after some text. -/
theorem CallLaidOut.suite {start : String} {e : Expr} {returns : Bool}
    (hl : CallLaidOut start e pieces) (he : e.Readable) (hs : IsStart start)
    (hr : returns = true → "return ".toList <+: start.toList) : Suite returns pieces := by
  obtain ⟨inner, hinner, hbetween⟩ := hl
  exact hbetween.suite (e.shaped he hinner) hs (.inr rfl) hr

theorem Suite.line_cons {text : String} {rest : List Piece} {returns : Bool} (h : IsLine text)
    (hr : Suite returns rest) : Suite returns (.line text :: rest) :=
  .append (.line h nofun) hr

theorem Suite.block_cons {header : String} {inner rest : List Piece} {below returns : Bool}
    (hh : IsHeading below header) (hi : Suite below inner) (hr : Suite returns rest) :
    Suite returns (.line header :: .block inner :: rest) :=
  .append (.block hh hi) hr

theorem isHeading_def {name parameters : String} (hn : OneLine name) (hp : OneLine parameters)
    (hl : parameters.toList.getLast? = some ':') :
    IsHeading true ("def " ++ name ++ parameters) := by
  refine ⟨oneLine_append.mpr ⟨oneLine_append.mpr ⟨by decide, hn⟩, hp⟩, ?_, ?_⟩
  · rw [String.toList_append, List.getLast?_append, hl, Option.some_or]
  · rw [if_pos rfl, String.toList_append, String.toList_append, List.append_assoc]
    exact List.prefix_append _ _

theorem Pattern.starts_text (pattern : Pattern) : Starts pattern.text.toList := by
  cases pattern with
  | unit => decide
  | part part =>
    cases part with
    | tail => decide
    | element i =>
      rw [Pattern.text, Part.name, String.toList_append]
      exact ⟨'e', rfl, by decide⟩
  | pair first second =>
    simp only [Pattern.text, String.toList_append, List.append_assoc]
    exact ⟨'(', rfl, by decide⟩

/-- However it is laid out, a block is a suite that returns. -/
theorem Block.suite {b : Block} (hr : b.Readable) (hl : b.LaidOut pieces) : Suite true pieces := by
  induction b generalizing pieces with
  | define name body next ihb ihn =>
    obtain ⟨inner, rest, hinner, hrest, rfl⟩ := hl
    have hname := oneLine_of_wordChars name.isWordChar_of_mem_name
    exact .block_cons (isHeading_def hname (by decide) (by decide)) (ihb hr.1 hinner)
      (ihn hr.2 hrest)
  | bind name value next ih =>
    obtain ⟨inner, first, rest, hvalue, hfirst, hrest, rfl⟩ := hl
    have hstart : IsStart (name.name ++ " = ") := by
      refine ⟨oneLine_append.mpr
        ⟨oneLine_of_wordChars name.isWordChar_of_mem_name, by decide⟩, ?_⟩
      rw [String.toList_append]
      exact name.starts_name.append _
    exact .append (hfirst.suite (value.shaped hr.1 hvalue) hstart (.inl rfl) nofun)
      (ih hr.2 hrest)
  | attempt matcher next ih =>
    obtain ⟨first, rest, hfirst, hrest, rfl⟩ := hl
    have hreturn : Suite false [.line "return res"] := .line (by decide) nofun
    exact .append (hfirst.suite hr.1 (by decide) nofun)
      (.block_cons (by decide) hreturn (ih hr.2 hrest))
  | ret matcher =>
    exact CallLaidOut.suite hl hr (by decide) fun _ => List.prefix_rfl
  | regroup matcher pattern result =>
    obtain ⟨first, hfirst, rfl⟩ := hl
    have hnone : Suite false [.line "return None"] := .line (by decide) nofun
    have hpattern : IsLine (pattern.text ++ ", nodes = res") :=
      IsStart.line ⟨pattern.oneLine_text, pattern.starts_text⟩ (by decide) (by decide)
    have hstart : IsStart "return " := by decide
    have hresult : IsLine ("return " ++ result.text ++ ", nodes") :=
      (hstart.append (Regrouped.oneLine_text hr.2.1)).line (by decide) (by decide)
    refine .append (hfirst.suite hr.1 (by decide) nofun)
      (.block_cons (by decide) hnone (.line_cons hpattern (.line hresult fun _ => ?_)))
    rw [String.toList_append, String.toList_append, List.append_assoc]
    exact List.prefix_append _ _
  -- Texts of a caller are not readable, so they are in no block of a rule.
  | insert code next ih => exact hr.elim
  | given code => exact hr.elim

end

/-- The method of a rule is a suite. -/
theorem Method.suite {method : Method} (hn : method.rule.IsName) (hc : OneLine method.comment)
    (hb : method.block.Readable) : Suite false method.pieces := by
  have hmatcher := oneLine_of_wordChars (isWordChar_of_mem_matcher hn)
  have hname : OneLine (methodName method.rule) := (oneLine_append.mp hmatcher).2
  have hnote : IsNote ("# " ++ method.comment) := by
    refine ⟨oneLine_append.mpr ⟨by decide, hc⟩, ?_⟩
    rw [String.toList_append]
    rintro _ ⟨⟩
    rfl
  exact .line_cons (by decide) (.block (isHeading_def hname (by decide) (by decide))
    (.note hnote (Block.suite hb method.block.laidOut_pieces)))

namespace Module

/-- The method for a matcher of nodes that checks their kind before anything else. -/
theorem suite_checked {header : String} {body : List Piece} (hh : IsHeading true header)
    (hb : Suite true body) : Suite false
      [.line header,
        .block
          [.line "def check(node):",
            .block (.line "if node.type != type:" :: .block [.line "return None"] :: body),
            .line "return combine.parse_node(check)"]] := by
  have hnone : Suite false [.line "return None"] := .line (by decide) nofun
  have hkind : IsHeading false "if node.type != type:" := by decide
  have hreturn : Suite true [.line "return combine.parse_node(check)"] :=
    .line (by decide) fun _ => by decide
  exact .block hh (.block_cons (by decide) (.block_cons hkind hnone hb) hreturn)

theorem suite_nodeMatchers : Suite false nodeMatchers := by
  have hnone : Suite false [.line "return None"] := .line (by decide) nofun
  have hvalue : Suite true [.line "value, _ = res", .line "return value"] :=
    .line_cons (by decide) (.line (by decide) fun _ => by decide)
  have htoken : Suite true [.line "return get_loc(node), self.get_token(node)"] :=
    .line (by decide) fun _ => by decide
  have hchildren : Suite true
      (.line "res = parse_children(node.children)" ::
        .line "if res is None:" :: .block [.line "return None"] ::
        [.line "value, _ = res", .line "return value"]) :=
    .line_cons (by decide) (.block_cons (by decide) hnone hvalue)
  have hrule : IsHeading true "def _parse_rule(self, type, parse_children):" := by decide
  have hleaf : IsHeading true "def _parse_leaf_rule(self, type):" := by decide
  exact .append (suite_checked hrule hchildren)
    (.space (.note (by decide) (suite_checked hleaf htoken)))

theorem suite_methodPieces {methods : List Method}
    (h : ∀ method ∈ methods, Suite false method.pieces) {returns : Bool} {rest : List Piece}
    (hr : Suite returns rest) :
    Suite returns (methodPieces methods ++ rest) := by
  induction methods with
  | nil => exact hr
  | cons method methods ih =>
    obtain ⟨hmethod, hmethods⟩ := List.forall_mem_cons.mp h
    rw [methodPieces, List.flatMap_cons, List.append_assoc]
    exact .space (.splice (.append hmethod (ih hmethods)))

theorem oneLine_tupleText {texts : List String} (h : ∀ text ∈ texts, OneLine text) :
    OneLine (Value.tupleText texts) := by
  unfold Value.tupleText
  split
  · decide
  · rename_i element
    exact oneLine_append.mpr
      ⟨oneLine_append.mpr ⟨by decide, List.forall_mem_singleton.mp h⟩, by decide⟩
  · exact oneLine_append.mpr
      ⟨oneLine_append.mpr ⟨by decide, oneLine_intercalate (by decide) h⟩, by decide⟩

theorem ends_tupleText (texts : List String) : Ends (Value.tupleText texts).toList := by
  have hparen (before stop : String) (h : Ends stop.toList) : Ends (before ++ stop).toList := by
    rw [String.toList_append]
    exact h.append_left _
  unfold Value.tupleText
  split
  · decide
  · exact hparen _ ",)" (by decide)
  · exact hparen _ ")" (by decide)

/-- The statements of the class. -/
theorem suite_members {module : Module} (he : Label.IsName module.entrypoint)
    (hx : ∀ extra ∈ module.extras, extra.IsText)
    (hm : ∀ method ∈ module.methods, Suite false method.pieces) : Suite false
      [.line ("extras = " ++ Value.tupleText (module.extras.map Json.literal)),
        .space,
        .splice nodeMatchers,
        .splice (methodPieces module.methods),
        .space,
        .line "def start(self):",
        .block
          [.line ("return self._parse_root(self." ++ methodName module.entrypoint ++ ")")]] := by
  have hliterals : ∀ text ∈ module.extras.map Json.literal, OneLine text := by
    intro text ht
    obtain ⟨extra, hextra, rfl⟩ := List.mem_map.mp ht
    obtain ⟨s, rfl⟩ := hx extra hextra
    exact oneLine_quoted s
  have hassign : IsStart "extras = " := by decide
  have hextras := hassign.line (oneLine_tupleText hliterals) (ends_tupleText _)
  have hmatcher := oneLine_of_wordChars (isWordChar_of_mem_matcher he)
  have hroot : IsStart "return self._parse_root(self." := by decide
  have hreturn : IsLine
      ("return self._parse_root(self." ++ methodName module.entrypoint ++ ")") :=
    (hroot.append (oneLine_append.mp hmatcher).2).line (by decide) (by decide)
  have hreturns : Suite true
      [.line ("return self._parse_root(self." ++ methodName module.entrypoint ++ ")")] := by
    refine .line hreturn fun _ => ?_
    have hword : "return self._parse_root(self.".toList =
        "return ".toList ++ "self._parse_root(self.".toList := rfl
    rw [String.toList_append, String.toList_append, hword, List.append_assoc, List.append_assoc]
    exact List.prefix_append _ _
  have hheading : IsHeading true "def start(self):" := by decide
  refine .line_cons hextras (.space (.splice (.append suite_nodeMatchers (.splice ?_))))
  exact suite_methodPieces hm (.space (.block hheading hreturns))

/-- The first comment of a module is one line if the name of the file is. -/
theorem linesOf_comment {fileName : String} (hf : Unbroken fileName.toList) :
    linesOf ("# @generated by cstgen from " ++ fileName ++ headerEnd) =
      ["# @generated by cstgen from " ++ fileName ++ headerEnd] := by
  have hend : splitLines headerEnd.toList = [headerEnd.toList] := by decide
  have hlead : Unbroken "# @generated by cstgen from ".toList := by decide
  have hstart : Unbroken ("# @generated by cstgen from " ++ fileName).toList := by
    rw [String.toList_append]
    exact List.forall_mem_append.mpr ⟨hlead, hf⟩
  rw [linesOf, String.toList_append, splitLines_append hstart hend, List.map_singleton,
    ← String.toList_append, String.ofList_toList]

theorem suite_pieces {module : Module} {fileName : String} (hf : Unbroken fileName.toList)
    (he : Label.IsName module.entrypoint) (hx : ∀ extra ∈ module.extras, extra.IsText)
    (hm : ∀ method ∈ module.methods, Suite false method.pieces) :
    Suite false (module.pieces fileName) := by
  have hname : IsNote ("# @generated by cstgen from " ++ fileName ++ headerEnd) := by
    refine ⟨?_, ?_⟩
    · exact oneLine_append.mpr ⟨oneLine_append.mpr ⟨by decide, hf.oneLine⟩, by decide⟩
    · simp only [String.toList_append, List.append_assoc]
      rintro _ ⟨⟩
      rfl
  have hmain : Suite false [.line "simple_parser_main(GeneratedParser)"] := .line (by decide) nofun
  have hfooter : Suite false (footer ++ []) := .space (.space (.block (by decide) hmain))
  have hheader : header fileName =
      ("# @generated by cstgen from " ++ fileName ++ headerEnd) :: _ :=
    congrArg (· ++ _) (linesOf_comment hf)
  have hclass : IsHeading false "class GeneratedParser(TreeParser):" := by decide
  have hblank : IsNote "" := by decide
  -- The header ends with the line above the class, so it is spliced in before all else.
  refine .splice ?_
  rw [hheader]
  refine .note hname (.note hblank ?_)
  refine .line_cons (by decide) (.line_cons (by decide) ?_)
  refine .note hblank (.note hblank ?_)
  exact .block_cons hclass (suite_members he hx hm) (.splice hfooter)

end Module

theorem suite_methods {g : Grammar} (h : g.check = .ok ()) (hs : g.Spelled) {b : Build}
    (hb : build g = .ok b) : ∀ method ∈ b.module.methods, Suite false method.pieces := by
  intro method hm
  obtain ⟨i, hi, rfl⟩ := List.getElem_of_mem hm
  have hall := compiledFrom_of_build hb
  have hi' : i < g.rules.length := hall.length_eq ▸ hi
  have hr : g.rules[i] ∈ g.rules := List.getElem_mem hi'
  obtain ⟨hname, ⟨text, -, hcomment⟩, n, l, hblock⟩ := hall.get hi' hi
  refine Method.suite ?_ ?_ ?_
  · exact hname ▸ hs.names _ hr
  · exact hcomment ▸ oneLine_onOneLine text
  · exact readable_compileBlock hblock (hs.names _ hr).isText (hs.readable h hr)

end Code

open Code Text Cli.Generate

theorem Grammar.Spelled.textual {g : Grammar} (hs : g.Spelled) (h : g.check = .ok ()) :
    g.Textual := by
  intro rule hr name hn
  have hamong := rule.body.isAmong_of_fault (Grammar.body_fault_of_check h hr) hn
  exact (hs.isName hamong).isText

theorem moduleText_eq {g : Grammar} {b : Build} {fileName : String} {lines : List String}
    (hb : build g = .ok b) (hl : Piece.linesOf 0 (b.module.pieces fileName) = .ok lines) :
    moduleText g fileName = .ok (Piece.joinLines lines, b.names) := by
  have htext : b.module.text fileName = .ok (Piece.joinLines lines) := by
    rw [Module.text, Piece.textOf, hl]
    rfl
  rw [moduleText, hb]
  simp only [htext]

/-- The module of a checked grammar has a well-formed block structure: none of the lines that are
laid out holds a line feed or a carriage return, these lines come back when the text is cut at its
line feeds, and its rows are placed well. The tokens of the grammar may be any texts, and the name
of the file any text without a character that ends a line. -/
theorem Grammar.moduleText_wellPlaced {g : Grammar} (h : g.check = .ok ()) (hs : g.Spelled)
    (hx : ∀ extra ∈ g.extras, extra.IsText) {fileName : String} (hf : Unbroken fileName.toList) :
    ∃ b lines, build g = .ok b ∧ Piece.linesOf 0 (b.module.pieces fileName) = .ok lines ∧
      moduleText g fileName = .ok (Piece.joinLines lines, b.names) ∧
      (∀ line ∈ lines, OneLine line) ∧
      (Piece.joinLines lines).toList.splitOn '\n' = lines.map String.toList ++ [[]] ∧
      WellPlaced ((Piece.joinLines lines).toList.splitOn '\n') := by
  obtain ⟨b, hb⟩ := exists_build h (Grammar.textual_iff_short.mp (hs.textual h))
  have hmodule := moduleOf_of_build hb
  have hentry : Label.IsName b.module.entrypoint := by
    rw [hmodule.entrypoint]
    exact hs.isName (Grammar.entrypoint_of_check h)
  have hextras : ∀ extra ∈ b.module.extras, extra.IsText := by
    rw [hmodule.extras]
    exact hx
  have hsuite : Suite false (b.module.pieces fileName) :=
    Module.suite_pieces hf hentry hextras (suite_methods h hs hb)
  obtain ⟨lines, hlines, hshown⟩ := hsuite.shown 0
  have hsplit : (Piece.joinLines lines).toList.splitOn '\n' =
      lines.map String.toList ++ [[]] := by
    have hall := splitOn_joinLines (fun line hl hc => (hshown.oneLine line hl _ hc).1 rfl) ""
    rwa [String.append_empty] at hall
  refine ⟨b, lines, hb, hlines, moduleText_eq hb hlines, hshown.oneLine, hsplit, ?_⟩
  rw [hsplit]
  exact hshown.wellPlaced

/-- A grammar whose tokens hold line breaks and what opens and closes blocks. -/
def brokenGrammar : Grammar where
  entrypoint := "list"
  rules := [⟨.str "list", .plus (.seq [.choice [.literal (.str "(\n"), .pattern (.str "\r# [^:]")],
    .symbol (.str "item")])⟩, ⟨.str "item", .pattern (.str "\n    :")⟩]
  extras := [.str "comment"]
  distinct := by decide

theorem brokenGrammar_wellPlaced : brokenGrammar.check = .ok () ∧ ∃ b lines,
    build brokenGrammar = .ok b ∧
    moduleText brokenGrammar "lists.json" = .ok (Piece.joinLines lines, b.names) ∧
    (∀ line ∈ lines, OneLine line) ∧ WellPlaced (lines.map String.toList ++ [[]]) := by
  have hcheck : brokenGrammar.check = .ok () := rfl
  have hspelled : brokenGrammar.Spelled := by
    constructor
    · intro rule hr
      rcases List.mem_cons.mp hr with rfl | hr
      · exact ⟨"list", rfl, List.all_eq_true.mp rfl⟩
      · obtain rfl := List.mem_singleton.mp hr
        exact ⟨"item", rfl, List.all_eq_true.mp rfl⟩
    · intro rule hr text ht
      rcases List.mem_cons.mp hr with rfl | hr
      · simp [Body.items, Body.itemsOf] at ht
        rcases ht with rfl | rfl
        · exact ⟨"(\n", rfl⟩
        · exact ⟨"\r# [^:]", rfl⟩
      · obtain rfl := List.mem_singleton.mp hr
        simp [Body.items] at ht
        exact ⟨"\n    :", ht⟩
  have hextras : ∀ extra ∈ brokenGrammar.extras, extra.IsText :=
    List.forall_mem_singleton.mpr ⟨"comment", rfl⟩
  have hname : Unbroken "lists.json".toList := by decide
  obtain ⟨b, lines, hb, -, htext, hone, hsplit, hplaced⟩ :=
    Grammar.moduleText_wellPlaced hcheck hspelled hextras hname
  exact ⟨hcheck, b, lines, hb, htext, hone, hsplit ▸ hplaced⟩

end TreeGrammar
