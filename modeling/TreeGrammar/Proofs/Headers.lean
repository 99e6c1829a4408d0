import TreeGrammar.Proofs.Generation

/-!
What the name of a file does to a module. The name stands in a comment at the top, and nothing else
of the module depends on it. The comment is cut at every line break, those of the name included, so
what comes after a line break in the name is a line of its own: it stays a comment only if it starts
like one. A name without line breaks leaves all lines of code as they are.
-/
namespace TreeGrammar

namespace Text

/-- The lines that are no comments from their start on. -/
def withoutComments (lines : List (List Char)) : List (List Char) :=
  lines.filter fun line => line.head? ≠ some '#'

/-- The lines of code in a text. A line feed ends a line. -/
def codeLines (text : String) : List (List Char) :=
  withoutComments (text.toList.splitOn '\n')

/-- No character ends a line. -/
def Unbroken (cs : List Char) : Prop :=
  ∀ c ∈ cs, isLineBreak c = false

instance (cs : List Char) : Decidable (Unbroken cs) :=
  List.decidableBAll (fun c => isLineBreak c = false) cs

theorem consLine_ne_nil (c : Char) (lines : List (List Char)) : consLine c lines ≠ [] := by
  cases lines <;> exact List.cons_ne_nil _ _

theorem splitLines_ne_nil {cs : List Char} (h : cs ≠ []) : splitLines cs ≠ [] := by
  fun_cases splitLines cs with
  | case1 => exact absurd rfl h
  | case2 rest => exact List.cons_ne_nil _ _
  | case3 c rest _ hc => exact List.cons_ne_nil _ _
  | case4 c rest _ hc => exact consLine_ne_nil c _

theorem unbroken_of_mem_splitLines {cs line : List Char} (h : line ∈ splitLines cs) :
    Unbroken line := by
  fun_induction splitLines cs generalizing line with
  | case1 => cases h
  | case2 rest ih =>
    rcases List.mem_cons.mp h with rfl | h
    · exact fun _ hc => by cases hc
    · exact ih h
  | case3 c rest _ hc ih =>
    rcases List.mem_cons.mp h with rfl | h
    · exact fun _ hc => by cases hc
    · exact ih h
  | case4 c rest _ hc ih =>
    have hc : isLineBreak c = false := Bool.eq_false_iff.mpr hc
    cases hl : splitLines rest with
    | nil =>
      rw [hl, consLine, List.mem_singleton] at h
      rw [h]
      exact List.forall_mem_singleton.mpr hc
    | cons first others =>
      rw [hl] at h ih
      rcases List.mem_cons.mp h with rfl | h
      · exact List.forall_mem_cons.mpr ⟨hc, ih List.mem_cons_self⟩
      · exact ih (List.mem_cons_of_mem _ h)

/-- Characters that end no line belong to the first one. -/
theorem splitLines_append {start cs first : List Char} {others : List (List Char)}
    (hs : Unbroken start) (hcs : splitLines cs = first :: others) :
    splitLines (start ++ cs) = (start ++ first) :: others := by
  induction start with
  | nil => exact hcs
  | cons c start ih =>
    obtain ⟨hc, hs⟩ := List.forall_mem_cons.mp hs
    -- Only a carriage return forms a break together with the character after it.
    have hreturn : c ≠ '\r' := fun h => by
      rw [h] at hc
      exact absurd hc (by decide)
    rw [List.cons_append, splitLines, if_neg (by simp [hc]), ih hs]
    · rfl
    · exact fun _ h _ => hreturn h

theorem splitLines_append_lineFeed {line : List Char} (h : Unbroken line) (rest : List Char) :
    splitLines (line ++ '\n' :: rest) = line :: splitLines rest := by
  have hfeed : splitLines ('\n' :: rest) = [] :: splitLines rest := by
    simp [splitLines, isLineBreak]
  rw [splitLines_append h hfeed, List.append_nil]

/-- Lines without line breaks come back when a text is cut at all of its line breaks. -/
theorem linesOf_joinLines {lines : List String} (h : ∀ line ∈ lines, Unbroken line.toList) :
    linesOf (Piece.joinLines lines) = lines := by
  induction lines with
  | nil => rfl
  | cons line lines ih =>
    obtain ⟨hline, hlines⟩ := List.forall_mem_cons.mp h
    have hcut : (Piece.joinLines (line :: lines)).toList =
        line.toList ++ '\n' :: (Piece.joinLines lines).toList := by
      simp [Piece.joinLines, String.toList_append]
    rw [linesOf, hcut, splitLines_append_lineFeed hline, List.map_cons, String.ofList_toList]
    exact congrArg (line :: ·) (ih hlines)

/-- Lines without line feeds come back when a text is cut at its line feeds. -/
theorem splitOn_joinLines {lines : List String} (h : ∀ line ∈ lines, '\n' ∉ line.toList)
    (rest : String) : (Piece.joinLines lines ++ rest).toList.splitOn '\n' =
      lines.map String.toList ++ rest.toList.splitOn '\n' := by
  induction lines with
  | nil => simp [Piece.joinLines]
  | cons line lines ih =>
    obtain ⟨hline, hlines⟩ := List.forall_mem_cons.mp h
    have hmore := ih hlines
    have hnone : ∀ c ∈ line.toList, (c == '\n') = false := fun c hc =>
      beq_eq_false_iff_ne.mpr fun heq => hline (heq ▸ hc)
    simp only [Piece.joinLines, List.map_cons, String.join_cons, String.toList_append,
      List.append_assoc] at hmore ⊢
    have hfeed : "\n".toList = ['\n'] := rfl
    rw [hfeed, List.singleton_append, List.splitOn_eq_splitOnP,
      List.splitOnP_append_cons _ _ rfl, List.splitOnP_eq_singleton hnone,
      ← List.splitOn_eq_splitOnP, hmore]
    rfl

theorem Unbroken.notMem_lineFeed {cs : List Char} (h : Unbroken cs) : '\n' ∉ cs := fun hc =>
  absurd (h _ hc) (by decide)

theorem codeLines_joinLines {lines : List String} (h : ∀ line ∈ lines, Unbroken line.toList)
    (rest : String) :
    codeLines (Piece.joinLines lines ++ rest) =
      withoutComments (lines.map String.toList) ++ codeLines rest := by
  have hfree : ∀ line ∈ lines, '\n' ∉ line.toList := fun line hl => (h line hl).notMem_lineFeed
  rw [codeLines, codeLines, splitOn_joinLines hfree, withoutComments, withoutComments,
    withoutComments, List.filter_append]

theorem unbroken_of_mem_linesOf {text line : String} (h : line ∈ linesOf text) :
    Unbroken line.toList := by
  obtain ⟨cs, hcs, rfl⟩ := List.mem_map.mp h
  rw [String.toList_ofList]
  exact unbroken_of_mem_splitLines hcs

end Text

namespace Piece

theorem indentation_zero : indentation 0 = "" := rfl

theorem linesOf_map_line (texts : List String) : linesOf 0 (texts.map line) = .ok texts := by
  induction texts with
  | nil => rfl
  | cons text texts ih =>
    rw [List.map_cons, linesOf, lines, ih, indentation_zero, String.empty_append]
    rfl

/-- Lines at the level of the text come before what follows them. -/
theorem linesOf_splice_cons (texts : List String) (rest : List Piece) :
    linesOf 0 (.splice (texts.map line) :: rest) = (linesOf 0 rest).map (texts ++ ·) := by
  rw [linesOf, lines, linesOf_map_line]
  cases linesOf 0 rest <;> rfl

end Piece

namespace Code

open Text Cli.Generate

/-- What stands in the first comment of a module after the name of a file. -/
def headerEnd : String := "; do not edit!"

/-- The lines that a file name puts after the comment that it stands in and that are no comments
themselves. -/
def strayLines (fileName : String) : List (List Char) :=
  withoutComments (splitLines (fileName ++ headerEnd).toList).tail

/-- Everything but the comment with the name of the file is the same for all names. -/
theorem Module.text_eq (module : Module) :
    ∃ rest : Except ForeignPiece String, ∀ fileName, module.text fileName = rest.map fun rest =>
      Piece.joinLines (linesOf ("# @generated by cstgen from " ++ fileName ++ headerEnd)) ++
        rest := by
  -- The name stands in the first lines of the header only.
  obtain ⟨fixed, hfixed⟩ : ∃ fixed, ∀ fileName, header fileName =
      linesOf ("# @generated by cstgen from " ++ fileName ++ headerEnd) ++ fixed :=
    ⟨_, fun fileName => rfl⟩
  obtain ⟨others, hothers⟩ : ∃ others, ∀ fileName, module.pieces fileName =
      .splice ((header fileName).map .line) :: others := ⟨_, fun fileName => rfl⟩
  refine ⟨(Piece.linesOf 0 others).map fun lines => Piece.joinLines (fixed ++ lines), ?_⟩
  intro fileName
  rw [text, Piece.textOf, hothers, Piece.linesOf_splice_cons, hfixed]
  cases Piece.linesOf 0 others with
  | error e => rfl
  | ok lines =>
    simp [Except.map, bind, Except.bind, pure, Except.pure, Piece.joinLines]

/-- The comment itself is none of the lines of code that its text is cut into. -/
theorem withoutComments_linesOf (fileName : String) :
    withoutComments ((linesOf ("# @generated by cstgen from " ++ fileName ++ headerEnd)).map
      String.toList) = strayLines fileName := by
  have hne : (fileName ++ headerEnd).toList ≠ [] := by simp [headerEnd]
  obtain ⟨first, others, hlines⟩ := List.exists_cons_of_ne_nil (splitLines_ne_nil hne)
  have hstart : Unbroken "# @generated by cstgen from ".toList := by decide
  have hall := splitLines_append hstart hlines
  have htext : (linesOf ("# @generated by cstgen from " ++ fileName ++ headerEnd)).map
      String.toList = ("# @generated by cstgen from ".toList ++ first) :: others := by
    rw [linesOf, List.map_map, String.append_assoc, String.toList_append, hall]
    simp [Function.comp_def]
  rw [htext, strayLines, hlines, List.tail_cons]
  exact List.filter_cons_of_neg (by simp)

theorem strayLines_eq_nil {fileName : String} (h : Unbroken fileName.toList) :
    strayLines fileName = [] := by
  have hend : splitLines headerEnd.toList = [headerEnd.toList] := by decide
  rw [strayLines, String.toList_append, splitLines_append h hend]
  rfl

/-- The lines of code in a module are those that the name of the file brings with it and others that
do not depend on the name. -/
theorem Module.codeLines_text (module : Module) :
    (∃ e, ∀ fileName, module.text fileName = .error e) ∨
    ∃ code, ∀ fileName, ∃ text, module.text fileName = .ok text ∧
      codeLines text = strayLines fileName ++ code := by
  obtain ⟨rest, hrest⟩ := module.text_eq
  cases rest with
  | error e => exact .inl ⟨e, hrest⟩
  | ok rest =>
    refine .inr ⟨codeLines rest, fun fileName => ⟨_, hrest fileName, ?_⟩⟩
    rw [codeLines_joinLines fun line hl => unbroken_of_mem_linesOf hl, withoutComments_linesOf]

/-- A checked grammar whose symbols are texts has a module for every name of a file. -/
theorem exists_moduleText {g : Grammar} (hc : g.check = .ok ()) (ht : g.Textual)
    (fileName : String) : ∃ text names, moduleText g fileName = .ok (text, names) := by
  obtain ⟨b, hb⟩ := exists_build hc (Grammar.textual_iff_short.mp ht)
  obtain ⟨text, htext⟩ := b.module.exists_text (given_notMem_of_build hb) fileName
  refine ⟨text, b.names, ?_⟩
  rw [moduleText, hb]
  simp only [htext]

theorem moduleText_cases (g : Grammar) :
    (∃ e, ∀ fileName, moduleText g fileName = .error e) ∨
    ∃ names code, ∀ fileName, ∃ text, moduleText g fileName = .ok (text, names) ∧
      codeLines text = strayLines fileName ++ code := by
  cases hb : build g with
  | error e =>
    left
    cases e with
    | grammar e => exact ⟨.reported e.message, fun fileName => by rw [moduleText, hb]⟩
    | code e => exact ⟨.uncaught (.code e), fun fileName => by rw [moduleText, hb]⟩
  | ok b =>
    rcases b.module.codeLines_text with ⟨e, he⟩ | ⟨code, hcode⟩
    · left
      refine ⟨.uncaught (.layout e), fun fileName => ?_⟩
      rw [moduleText, hb]
      simp only [he]
    · refine .inr ⟨b.names, code, fun fileName => ?_⟩
      obtain ⟨text, htext, hlines⟩ := hcode fileName
      refine ⟨text, ?_, hlines⟩
      rw [moduleText, hb]
      simp only [htext]

/-- The name of the file that a module is made from reaches its code only behind a line break. Two
names either give no module, for one reason, or two modules whose lines of code are the same but
for the lines that each name brings with it; these are the lines after the first break of the name
that do not start like a comment, and names without line breaks have none. A grammar that passes its
check and whose symbols are texts has a module for every name. -/
theorem fileName_reaches_strayLines (g : Grammar) (f f' : String) :
    (g.check = .ok () → g.Textual → ∃ text names, moduleText g f = .ok (text, names)) ∧
    (∀ e, moduleText g f = .error e → moduleText g f' = .error e) ∧
    ∀ text names, moduleText g f = .ok (text, names) →
      ∃ text', moduleText g f' = .ok (text', names) ∧
        (∃ code, codeLines text = strayLines f ++ code ∧ codeLines text' = strayLines f' ++ code) ∧
        (codeLines text = codeLines text' ↔ strayLines f = strayLines f') ∧
        (Unbroken f.toList → Unbroken f'.toList → codeLines text = codeLines text') := by
  refine ⟨fun hc ht => exists_moduleText hc ht f, ?_⟩
  rcases moduleText_cases g with ⟨e, he⟩ | ⟨names, code, hcode⟩
  · simp only [he]
    exact ⟨fun _ h => h, fun _ _ h => (by cases h)⟩
  · obtain ⟨text, htext, hlines⟩ := hcode f
    obtain ⟨text', htext', hlines'⟩ := hcode f'
    simp only [htext, htext']
    refine ⟨fun _ h => (by cases h), fun _ _ h => ?_⟩
    cases h
    refine ⟨text', rfl, ⟨code, hlines, hlines'⟩, ?_, fun hu hu' => ?_⟩
    · rw [hlines, hlines', List.append_left_inj]
    · rw [hlines, hlines', strayLines_eq_nil hu, strayLines_eq_nil hu']

/-- A grammar of one leaf. -/
def leafGrammar : Grammar where
  entrypoint := "a"
  rules := [⟨.str "a", .blank⟩]
  extras := []
  distinct := by decide

/-- Another plain name changes no line of code, and a name of two lines brings its second one. -/
theorem leafGrammar_fileNames : ∃ text names, moduleText leafGrammar "g.json" = .ok (text, names) ∧
    (∃ text', moduleText leafGrammar "h.json" = .ok (text', names) ∧
      codeLines text = codeLines text') ∧
    ∃ text', moduleText leafGrammar "g.json\nimport os #" = .ok (text', names) ∧
      codeLines text' = "import os #; do not edit!".toList :: codeLines text := by
  have hplain (name : String) := fileName_reaches_strayLines leafGrammar "g.json" name
  have htextual : leafGrammar.Textual := by decide
  obtain ⟨text, names, htext⟩ := (hplain "g.json").1 rfl htextual
  refine ⟨text, names, htext, ?_, ?_⟩
  · obtain ⟨text', htext', -, -, hsame⟩ := (hplain "h.json").2.2 text names htext
    exact ⟨text', htext', hsame (by decide) (by decide)⟩
  · obtain ⟨text', htext', ⟨code, hcode, hcode'⟩, -, -⟩ :=
      (hplain "g.json\nimport os #").2.2 text names htext
    have hnone : strayLines "g.json" = [] := by decide
    have hone : strayLines "g.json\nimport os #" = ["import os #; do not edit!".toList] := by decide
    rw [hnone, List.nil_append] at hcode
    rw [hone, List.singleton_append, ← hcode] at hcode'
    exact ⟨text', htext', hcode'⟩

end Code

end TreeGrammar
