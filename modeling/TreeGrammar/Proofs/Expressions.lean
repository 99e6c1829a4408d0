import Mathlib.Data.List.Basic
import TreeGrammar.Code.Arrangement
import TreeGrammar.Code.Transcript
import TreeGrammar.Proofs.Hygiene
import TreeGrammar.Proofs.Phrasing
import TreeGrammar.Proofs.Readable
import TreeGrammar.Proofs.Scanning

/-!
Expressions are read back from their text. However an expression is laid out, its tokens express it.
The induction is on the expression; in each case the text is cut where a word ends. A layout that
takes several lines differs from a single line only in parentheses and in a comma after the last
argument.
-/
namespace TreeGrammar.Code

open Script

/-- The lines of an expression hold some tokens: where the lines stand between parentheses, also if
a comma follows, and where they are a single line that other text stands around. -/
structure Holds (pieces : List Piece) (tokens : List Token) : Prop where
  continued : ∀ before, nesting before ≠ 0 →
    Script.continued before pieces = some (before ++ tokens)
  closed : ∀ before, nesting before ≠ 0 →
    Script.continued before (withSuffix "," pieces) = some (before ++ tokens ++ [.comma])
  line : ∀ text, pieces = [.line text] → Spells text tokens

/-- The lines are read as an expression. -/
def ReadAs (pieces : List Piece) (phrase : Phrase) : Prop :=
  ∃ tokens, Expresses tokens phrase ∧ Holds pieces tokens

section
variable {pieces pieces' rest : List Piece} {before tokens tokens' : List Token}
  {text text' : String} {phrase : Phrase} {func : String}

theorem continued_cons_line (ht : Spells text tokens) (hn : nesting (before ++ tokens) ≠ 0) :
    continued before (.line text :: rest) = continued (before ++ tokens) rest := by
  rw [continued, continuedBy, ht.tokensOf]
  simp only [Option.bind_eq_bind, Option.bind_some]
  rw [if_neg hn]
  rfl

theorem continued_cons_block (h : continued before pieces = some tokens) :
    continued before (.block pieces :: rest) = continued tokens rest := by
  rw [continued, continuedBy, h]
  rfl

theorem continued_append (h : continued before pieces = some tokens) :
    continued before (pieces ++ rest) = continued tokens rest := by
  induction pieces generalizing before with
  | nil =>
    cases h
    rfl
  | cons piece pieces ih =>
    rw [continued] at h
    obtain ⟨middle, hfirst, hrest⟩ := Option.bind_eq_some_iff.mp h
    rw [List.cons_append, continued, hfirst]
    exact ih hrest

theorem holds_line (he : Expresses tokens phrase) (ht : Spells text tokens) :
    Holds [.line text] tokens := by
  refine ⟨fun before hb => ?_, fun before hb => ?_, fun text' heq => ?_⟩
  · have hn : nesting (before ++ tokens) ≠ 0 := by rwa [he.nesting_append]
    rw [continued_cons_line ht hn, continued]
  · have hcomma : Spells (text ++ ",") (tokens ++ [.comma]) :=
      (ht.append_leads rfl (.inr rfl) leads_comma).spells
    have hn : nesting (before ++ (tokens ++ [.comma])) ≠ 0 := by
      rw [← List.append_assoc, nesting_append]
      exact (he.nesting_append before).trans_ne hb
    rw [withSuffix, continued_cons_line hcomma hn, continued, List.append_assoc]
  · cases heq
    exact ht

theorem readAs_line (he : Expresses tokens phrase) (ht : Spells text tokens) :
    ReadAs [.line text] phrase :=
  ⟨tokens, he, holds_line he ht⟩

/-- Arguments on one line. -/
theorem lists_of_short {texts : List String} {phrases : List Phrase}
    (h : List.Forall₂ ReadAs (texts.map fun text => [.line text]) phrases) :
    ∃ tokens, Lists tokens phrases ∧ Spells (", ".intercalate texts) tokens := by
  induction texts generalizing phrases with
  | nil =>
    cases h
    exact ⟨[], lists_nil, fun rest _ => by simp⟩
  | cons text texts ih =>
    rw [List.map_cons] at h
    obtain ⟨phrase, others, ⟨tokens, he, hh⟩, hrest, rfl⟩ := List.forall₂_cons_left_iff.mp h
    have hfirst := hh.line text rfl
    -- A comma stands between two texts, and none after the last one.
    cases texts with
    | nil =>
      cases hrest
      exact ⟨tokens, he.lists, by rwa [String.intercalate_singleton]⟩
    | cons text' texts =>
      obtain ⟨tokens', hl, hs⟩ := ih hrest
      have hcomma : Leads ", " [.comma] := leads_comma.append leads_blank
      have hall := (hfirst.append_leads rfl (.inr rfl) hcomma).append_spells hs
      rw [← String.intercalate_cons_cons, List.append_assoc] at hall
      exact ⟨_, he.lists_cons hl, hall⟩

/-- Arguments on lines of their own, each of which is followed by a comma. -/
theorem lists_of_long {args : List (List Piece)} {phrases : List Phrase}
    (h : List.Forall₂ ReadAs args phrases) :
    ∃ tokens, Lists tokens phrases ∧ ∀ before, nesting before ≠ 0 →
      continued before (args.flatMap (withSuffix ",")) = some (before ++ tokens) := by
  induction h with
  | nil => exact ⟨[], lists_nil, fun before _ => by rw [List.append_nil]; rfl⟩
  | cons hfirst _ ih =>
    obtain ⟨tokens, he, hh⟩ := hfirst
    obtain ⟨tokens', hl, hs⟩ := ih
    refine ⟨_, he.lists_cons hl, fun before hb => ?_⟩
    have hn : nesting (before ++ tokens ++ [.comma]) ≠ 0 := by
      rw [nesting_append]
      exact (he.nesting_append before).trans_ne hb
    rw [List.flatMap_cons, continued_append (hh.closed before hb), hs _ hn, List.append_assoc,
      List.append_assoc]
    rfl

/-- A layout of an application is read as the call. -/
theorem readAs_applied {args : List (List Piece)} {phrases : List Phrase}
    (hf : Spells func [.word func]) (h : List.Forall₂ ReadAs args phrases)
    (ha : Applied func args pieces) : ReadAs pieces (.call (.name func) phrases) := by
  have hopen : Leads (func ++ "(") [.word func, .opening] :=
    hf.append_leads rfl (.inr rfl) leads_opening
  cases ha with
  | short texts =>
    obtain ⟨tokens, hl, hs⟩ := lists_of_short h
    have hline := (hopen.append_spells hs).append_leads rfl (.inr rfl) leads_closing
    rw [List.append_assoc] at hline
    exact readAs_line ((expresses_word func).call hl) hline.spells
  | long =>
    obtain ⟨tokens, hl, hs⟩ := lists_of_long h
    have hcall : Expresses (.word func :: .opening :: (tokens ++ [.closing])) (.call (.name func)
        phrases) := (expresses_word func).call hl
    have hnest (before : List Token) : nesting (before ++ [.word func, .opening]) ≠ 0 := by
      rw [nesting_append]
      exact Nat.succ_ne_zero _
    have hassoc (before : List Token) (last : List Token) :
        before ++ [.word func, .opening] ++ tokens ++ (.closing :: last) =
          before ++ (.word func :: .opening :: (tokens ++ [.closing])) ++ last := by simp
    -- Around the application something is open, and so it is after its last line.
    have hend (before last : List Token) (hb : nesting before ≠ 0)
        (hlast : last = [] ∨ last = [.comma]) :
        nesting (before ++ [.word func, .opening] ++ tokens ++ (.closing :: last)) ≠ 0 := by
      rw [hassoc, nesting_append]
      rcases hlast with rfl | rfl <;> exact (hcall.nesting_append before).trans_ne hb
    refine ⟨_, hcall, fun before hb => ?_, fun before hb => ?_, nofun⟩
    · rw [continued_cons_line hopen.spells (hnest before),
        continued_cons_block (hs _ (hnest before)),
        continued_cons_line leads_closing.spells (hend before [] hb (.inl rfl)), continued, hassoc,
        List.append_nil]
    · have hcomma : Spells (")" ++ ",") [.closing, .comma] :=
        (leads_closing.append leads_comma).spells
      change continued before [.line (func ++ "("), .block _, .line (")" ++ ",")] = _
      rw [continued_cons_line hopen.spells (hnest before),
        continued_cons_block (hs _ (hnest before)),
        continued_cons_line hcomma (hend before [.comma] hb (.inr rfl)), continued, hassoc]

end

section
variable {pieces : List Piece}

theorem isWordChar_of_isDigit {c : Char} (h : c.isDigit) : isWordChar c := by
  simp [isWordChar, isLetter, Char.isAlphanum, h]

theorem isWordChar_of_mem_toDigits {n : Nat} {c : Char} (h : c ∈ Nat.toDigits 10 n) :
    isWordChar c :=
  isWordChar_of_isDigit (Nat.isDigit_of_mem_toDigits (by decide) (by decide) h)

theorem isWordChar_of_mem_toString {n : Nat} {c : Char} (h : c ∈ (toString n).toList) :
    isWordChar c := by
  rw [toList_toString] at h
  exact isWordChar_of_mem_toDigits h

theorem Local.isWordChar_of_mem_name (name : Local) : ∀ c ∈ name.name.toList, isWordChar c := by
  have hletters : ∀ c ∈ name.letters, isWordChar c := by
    intro c hc
    cases name with
    | function id => exact isWordChar_of_mem_toDigits hc
    | tail id =>
      have hall : ∀ c ∈ "tail_".toList ++ Nat.toDigits 10 id, isWordChar c :=
        List.forall_mem_append.mpr ⟨List.all_eq_true.mp rfl, fun c => isWordChar_of_mem_toDigits⟩
      exact hall c hc
    | case id index =>
      have hindex : ∀ c ∈ '_' :: Nat.toDigits 10 index, isWordChar c :=
        List.forall_mem_cons.mpr ⟨by decide, fun c => isWordChar_of_mem_toDigits⟩
      have hall : ∀ c ∈ "case_".toList ++ (Nat.toDigits 10 id ++ '_' :: Nat.toDigits 10 index),
          isWordChar c := List.forall_mem_append.mpr ⟨List.all_eq_true.mp rfl,
        List.forall_mem_append.mpr ⟨fun c => isWordChar_of_mem_toDigits, hindex⟩⟩
      exact hall c hc
  rw [Local.toList_name]
  exact List.forall_mem_append.mpr ⟨List.all_eq_true.mp rfl, hletters⟩

theorem Local.spells_name (name : Local) : Spells name.name [.word name.name] := by
  refine spells_word (fun hempty => ?_) name.isWordChar_of_mem_name
  have hnil := congrArg String.toList hempty
  rw [Local.toList_name] at hnil
  cases hnil

theorem isWordChar_of_isLetter {c : Char} (h : isLetter c) : isWordChar c := by
  rw [isWordChar, h, Bool.true_or]

theorem isWordChar_of_mem_matcher {name : Label} (h : name.IsName) :
    ∀ c ∈ ("self." ++ methodName name).toList, isWordChar c := by
  obtain ⟨s, rfl, hs⟩ := h
  rw [methodName, String.toList_append, String.toList_append]
  exact List.forall_mem_append.mpr ⟨List.all_eq_true.mp rfl, List.forall_mem_append.mpr
    ⟨List.all_eq_true.mp rfl, fun c hc => isWordChar_of_isLetter (hs c hc)⟩⟩

/-- However it is laid out, an expression is read as what it is. -/
theorem Expr.readAs {e : Expr} (hr : e.Readable) (hl : e.LaidOut pieces) :
    ReadAs pieces e.phrase := by
  induction e generalizing pieces with
  | success =>
    obtain rfl := hl
    exact readAs_line (expresses_word _) (spells_keyword (by decide) rfl)
  | finish =>
    obtain rfl := hl
    exact readAs_line (expresses_word _) (spells_keyword (by decide) rfl)
  | ref name =>
    obtain rfl := hl
    exact readAs_line (expresses_word _) name.spells_name
  | rule name =>
    obtain rfl := hl
    have hall := isWordChar_of_mem_matcher hr
    refine readAs_line (expresses_word _) (spells_word (fun hempty => ?_) hall)
    have hnil := congrArg String.toList hempty
    rw [String.toList_append] at hnil
    cases hnil
  | leaf kind =>
    obtain rfl := hl
    obtain ⟨s, rfl⟩ := hr
    have hfunc : Spells "self._parse_leaf_rule" [.word "self._parse_leaf_rule"] :=
      spells_keyword (by decide) rfl
    have htext : leafText (.str s) = "self._parse_leaf_rule" ++ "(" ++ Text.quoted s ++ ")" := rfl
    have hline := ((hfunc.append_leads rfl (.inr rfl) leads_opening).append
      (leads_quoted s)).append leads_closing
    rw [← htext] at hline
    exact readAs_line ((expresses_word _).call (expresses_quoted s).lists) hline.spells
  | seq a b iha ihb =>
    obtain ⟨ps, qs, ha, hb, happlied⟩ := hl
    exact readAs_applied (spells_keyword (by decide) rfl)
      (.cons (iha hr.1 ha) (.cons (ihb hr.2 hb) .nil)) happlied
  | star a b iha ihb =>
    obtain ⟨ps, qs, ha, hb, happlied⟩ := hl
    exact readAs_applied (spells_keyword (by decide) rfl)
      (.cons (iha hr.1 ha) (.cons (ihb hr.2 hb) .nil)) happlied
  | plus a b iha ihb =>
    obtain ⟨ps, qs, ha, hb, happlied⟩ := hl
    exact readAs_applied (spells_keyword (by decide) rfl)
      (.cons (iha hr.1 ha) (.cons (ihb hr.2 hb) .nil)) happlied
  | node kind children ih =>
    obtain ⟨qs, hb, happlied⟩ := hl
    obtain ⟨⟨s, rfl⟩, hchildren⟩ := hr
    have hkind : ReadAs [.line (Text.quoted s)] (.quoted s) :=
      readAs_line (expresses_quoted s) (leads_quoted s).spells
    exact readAs_applied (spells_keyword (by decide) rfl)
      (.cons hkind (.cons (ih hchildren hb) .nil)) happlied
  | given code => exact hr.elim

/-- Lines that are read as an expression are so where they stand by themselves. -/
theorem readPhrase_of_readAs {phrase : Phrase} (h : ReadAs pieces phrase) :
    readPhrase pieces = some phrase := by
  obtain ⟨tokens, he, hh⟩ := h
  rw [Script.readPhrase, hh.continued [.opening] Nat.one_ne_zero]
  exact he.enclosed.phraseOf

/-- However it is laid out, an expression is read as what it is where it stands by itself. -/
theorem Expr.readPhrase {e : Expr} (hr : e.Readable) (hl : e.LaidOut pieces) :
    readPhrase pieces = some e.phrase :=
  readPhrase_of_readAs (e.readAs hr hl)

end

section
variable {a b : String} {p q : Phrase}

theorem readAs_word {w : String} (h : Spells w [.word w]) : ReadAs [.line w] (.name w) :=
  readAs_line (expresses_word w) h

/-- Parts between parentheses, as many as there are but not a single one. -/
theorem readAs_tuple {texts : List String} {phrases : List Phrase} (hn : phrases.length ≠ 1)
    (h : List.Forall₂ ReadAs (texts.map fun text => [.line text]) phrases) :
    ReadAs [.line ("(" ++ ", ".intercalate texts ++ ")")] (.tuple phrases) := by
  obtain ⟨tokens, hl, hs⟩ := lists_of_short h
  have hline := (leads_opening.append_spells hs).append_leads rfl (.inr rfl) leads_closing
  exact readAs_line (hl.tuple hn) hline.spells

theorem readAs_pair (ha : ReadAs [.line a] p) (hb : ReadAs [.line b] q) :
    ReadAs [.line ("(" ++ a ++ ", " ++ b ++ ")")] (.tuple [p, q]) := by
  have hpair : ReadAs [.line ("(" ++ ", ".intercalate [a, b] ++ ")")] (.tuple [p, q]) :=
    readAs_tuple (by simp) (.cons ha (.cons hb .nil))
  have htexts : "(" ++ ", ".intercalate [a, b] ++ ")" = "(" ++ a ++ ", " ++ b ++ ")" := by
    simp only [String.intercalate_cons_cons, String.intercalate_singleton, String.append_assoc]
  rwa [htexts] at hpair

theorem spells_toString (n : Nat) : Spells (toString n) [.word (toString n)] := by
  refine spells_word (fun hempty => ?_) fun c => isWordChar_of_mem_toString
  have hnil := congrArg String.toList hempty
  rw [toList_toString] at hnil
  exact Nat.toDigits_ne_nil hnil

theorem Part.isWordChar_of_mem_name (part : Part) : ∀ c ∈ part.name.toList, isWordChar c := by
  cases part with
  | tail => exact List.all_eq_true.mp rfl
  | element i =>
    rw [Part.name, String.toList_append]
    exact List.forall_mem_append.mpr
      ⟨List.all_eq_true.mp rfl, fun c => isWordChar_of_mem_toString⟩

theorem Part.spells_name (part : Part) : Spells part.name [.word part.name] := by
  refine spells_word (fun hempty => ?_) part.isWordChar_of_mem_name
  have hnil := congrArg String.toList hempty
  cases part with
  | tail => cases hnil
  | element i =>
    rw [Part.name, String.toList_append] at hnil
    cases hnil

theorem Part.readAs (part : Part) : ReadAs [.line part.name] part.phrase :=
  readAs_word part.spells_name

theorem readAs_unit : ReadAs [.line "()"] (.tuple []) :=
  readAs_line (lists_nil.tuple (by decide)) (leads_opening.append leads_closing).spells

theorem Pattern.readAs (pattern : Pattern) : ReadAs [.line pattern.text] pattern.phrase := by
  induction pattern with
  | unit => exact readAs_unit
  | part part => exact part.readAs
  | pair first second ihf ihs => exact readAs_pair ihf ihs

theorem Wrap.readAs {wrap : Wrap} (hw : wrap.Readable) (h : ReadAs [.line a] p) :
    ReadAs [.line (wrap.text a)] (wrap.phrase p) := by
  cases wrap with
  | plain => exact h
  | case index =>
    obtain ⟨n, rfl⟩ := Int.eq_ofNat_of_zero_le hw
    have hcase : Spells "combine.Case" [.word "combine.Case"] :=
      spells_keyword (by decide) rfl
    have hargs := readAs_applied hcase (.cons (readAs_word (spells_toString n)) (.cons h .nil))
      (.short [toString n, a])
    have htext : "combine.Case" ++ "(" ++ ", ".intercalate [toString n, a] ++ ")" =
        "combine.Case(" ++ toString n ++ ", " ++ a ++ ")" := by
      have hopen : "combine.Case(" = "combine.Case" ++ "(" := rfl
      rw [hopen]
      simp only [String.intercalate_cons_cons, String.intercalate_singleton, String.append_assoc]
    rw [htext] at hargs
    exact hargs
  | around before after => exact hw.elim

theorem Regrouped.readAs {result : Regrouped} (h : result.Readable) :
    ReadAs [.line result.text] result.phrase := by
  induction result with
  | unit => exact readAs_unit
  | part part => exact part.readAs
  | tuple parts =>
    have hparts : List.Forall₂ ReadAs ((parts.map Part.name).map fun text => [.line text])
        (parts.map Part.phrase) := by
      rw [List.map_map, List.forall₂_map_left_iff, List.forall₂_map_right_iff, List.forall₂_same]
      exact fun part _ => part.readAs
    exact readAs_tuple (by rwa [List.length_map]) hparts
  | wrapped wrap inner ih => exact Wrap.readAs h.1 (ih h.2)
  | pair first second ihf ihs => exact readAs_pair (ihf h.1) (ihs h.2)

end

end TreeGrammar.Code
