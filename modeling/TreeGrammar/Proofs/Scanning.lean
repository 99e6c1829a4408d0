import Mathlib.Algebra.Group.Nat.Defs
import Mathlib.Data.List.Basic
import TreeGrammar.Script.Token

/-!
What texts are read as. A word is complete where no further letter follows it, so most facts hold
before a delimiter only; what ends with a delimiter itself is read the same before all that follows.
-/
namespace TreeGrammar.Script

attribute [local simp] scan

/-- A blank or a character that is a token stands there, or nothing. -/
def Delimited (rest : List Char) : Prop :=
  ∀ c ∈ rest.head?, c = ' ' ∨ (tokenOf? c).isSome

/-- The text is read as the tokens before a delimiter. -/
def Spells (s : String) (tokens : List Token) : Prop :=
  ∀ rest, Delimited rest →
    scan .blank (s.toList ++ rest) = (scan .blank rest).map (tokens ++ ·)

/-- The text is read as the tokens whatever follows. -/
def Leads (s : String) (tokens : List Token) : Prop :=
  ∀ rest, scan .blank (s.toList ++ rest) = (scan .blank rest).map (tokens ++ ·)

section
variable {s s' : String} {ts ts' : List Token} {c : Char} {rest : List Char}

theorem Leads.spells (h : Leads s ts) : Spells s ts :=
  fun rest _ => h rest

theorem Leads.append (h : Leads s ts) (h' : Leads s' ts') : Leads (s ++ s') (ts ++ ts') := by
  intro rest
  rw [String.toList_append, List.append_assoc, h, h', Option.map_map]
  exact congrArg₂ _ (funext fun _ => (List.append_assoc _ _ _).symm) rfl

theorem Leads.append_spells (h : Leads s ts) (h' : Spells s' ts') :
    Spells (s ++ s') (ts ++ ts') := by
  intro rest hr
  rw [String.toList_append, List.append_assoc, h, h' rest hr, Option.map_map]
  exact congrArg₂ _ (funext fun _ => (List.append_assoc _ _ _).symm) rfl

theorem Delimited.append {cs : List Char} (h : Delimited cs) (hr : Delimited rest) :
    Delimited (cs ++ rest) := by
  cases cs with
  | nil => exact hr
  | cons d cs => exact h

theorem Spells.append (h : Spells s ts) (hd : Delimited s'.toList) (h' : Spells s' ts') :
    Spells (s ++ s') (ts ++ ts') := by
  intro rest hr
  rw [String.toList_append, List.append_assoc, h _ (hd.append hr), h' rest hr, Option.map_map]
  exact congrArg₂ _ (funext fun _ => (List.append_assoc _ _ _).symm) rfl

theorem Spells.append_leads (h : Spells s ts) (hs : s'.toList = c :: rest)
    (hd : c = ' ' ∨ (tokenOf? c).isSome) (h' : Leads s' ts') : Leads (s ++ s') (ts ++ ts') := by
  intro rest'
  have hdelimited : Delimited (s'.toList ++ rest') := by
    rw [hs]
    rintro d ⟨⟩
    exact hd
  rw [String.toList_append, List.append_assoc, h _ hdelimited, h', Option.map_map]
  exact congrArg₂ _ (funext fun _ => (List.append_assoc _ _ _).symm) rfl

/-- A line that is read to its end. -/
theorem Spells.tokensOf (h : Spells s ts) : tokensOf s = some ts := by
  have hall := h [] (fun c hc => by cases hc)
  simpa [Script.tokensOf] using hall

theorem tokenOf?_eq_some {t : Token} (h : tokenOf? c = some t) :
    c = '(' ∨ c = ')' ∨ c = ',' ∨ c = ':' ∨ c = '=' := by
  unfold tokenOf? at h
  split_ifs at h <;> simp [*]

/-- A delimiter is neither part of a word nor the start of a text. -/
theorem not_wordChar_of_delimiter (h : c = ' ' ∨ (tokenOf? c).isSome) :
    isWordChar c = false ∧ isMark c = false := by
  rcases h with rfl | h
  · decide
  · obtain ⟨t, ht⟩ := Option.isSome_iff_exists.mp h
    rcases tokenOf?_eq_some ht with rfl | rfl | rfl | rfl | rfl <;> decide

theorem scan_letters {letters cs : List Char} (h : ∀ c ∈ cs, isWordChar c) :
    scan (.word letters) (cs ++ rest) = scan (.word (letters ++ cs)) rest := by
  induction cs generalizing letters with
  | nil => rw [List.append_nil, List.nil_append]
  | cons c cs ih =>
    rw [List.cons_append, scan, if_pos (h c List.mem_cons_self),
      ih fun d hd => h d (List.mem_cons_of_mem c hd), List.append_assoc]
    rfl

theorem scan_wordEnd {letters : List Char} (h : Delimited rest) :
    scan (.word letters) rest =
      (scan .blank rest).map (.word (String.ofList letters) :: ·) := by
  cases rest with
  | nil => rfl
  | cons c rest =>
    have hc := h c rfl
    obtain ⟨hword, hmark⟩ := not_wordChar_of_delimiter hc
    rw [scan, scan, hword, hmark]
    simp only [Bool.false_eq_true, if_false]
    -- The delimiter is read after the word as it is read after a blank.
    by_cases hblank : c = ' '
    · rw [if_pos hblank, if_pos hblank]
      cases scan .blank rest <;> rfl
    · rw [if_neg hblank, if_neg hblank]
      cases tokenOf? c with
      | none => rfl
      | some t => cases scan .blank rest <;> rfl

/-- Letters, digits and points make a word. -/
theorem spells_word {w : String} (hne : w ≠ "") (h : ∀ c ∈ w.toList, isWordChar c) :
    Spells w [.word w] := by
  intro rest hr
  have hnil : w.toList ≠ [] := fun hn => hne (String.toList_eq_nil_iff.mp hn)
  obtain ⟨c, cs, hcs⟩ := List.exists_cons_of_ne_nil hnil
  rw [hcs] at h
  have htail : ∀ d ∈ cs, isWordChar d := fun d hd => h d (List.mem_cons_of_mem c hd)
  -- The first letter opens the word and the delimiter ends it.
  rw [hcs, List.cons_append, scan, if_pos (h c List.mem_cons_self), scan_letters htail,
    scan_wordEnd hr, List.singleton_append, ← hcs, String.ofList_toList]
  rfl

theorem spells_keyword {w : String} (hne : w ≠ "") (h : w.toList.all isWordChar = true) :
    Spells w [.word w] :=
  spells_word hne (List.all_eq_true.mp h)

theorem spells_empty : Spells "" [] := by
  intro rest _
  simp

theorem leads_blank : Leads " " [] := by
  intro rest
  have hscan : scan .blank (" ".toList ++ rest) = scan .blank rest := rfl
  rw [hscan]
  simp

/-- A character that is a token by itself. -/
theorem leads_token {t : Token} (hs : s.toList = [c]) (h : tokenOf? c = some t) :
    Leads s [t] := by
  intro rest
  obtain ⟨hword, hmark⟩ := not_wordChar_of_delimiter (c := c) (.inr (by rw [h]; rfl))
  have hblank : c ≠ ' ' := by
    rintro rfl
    cases h
  rw [hs, List.singleton_append, scan, hword, hmark, if_neg hblank, h]
  cases scan .blank rest <;> rfl

theorem leads_opening : Leads "(" [.opening] :=
  leads_token rfl rfl

theorem leads_closing : Leads ")" [.closing] :=
  leads_token rfl rfl

theorem leads_comma : Leads "," [.comma] :=
  leads_token rfl rfl

theorem leads_colon : Leads ":" [.colon] :=
  leads_token rfl rfl

theorem leads_equals : Leads "=" [.equals] :=
  leads_token rfl rfl

end

section
variable {mark : Char} {letters rest : List Char}

theorem hexDigit?_digitChar {d : Nat} (h : d < 16) : hexDigit? (Nat.digitChar d) = some d := by
  have hall : ∀ d : Fin 16, hexDigit? (Nat.digitChar d) = some d.val := by decide
  exact hall ⟨d, h⟩

/-- The first digits of a number, of which at least one is missing after them. -/
theorem scan_hexDigits (mark : Char) (letters rest : List Char) (width n missing value : Nat) :
    scan (.code mark letters (missing + 1 + width) value) (Text.hexDigits width n ++ rest) =
      scan (.code mark letters (missing + 1) (value * 16 ^ width + n % 16 ^ width)) rest := by
  induction width generalizing n missing value rest with
  | zero => simp [Text.hexDigits, Nat.mod_one]
  | succ width ih =>
    -- The last digit comes after those of the number without it.
    have hwidth : missing + 1 + (width + 1) = missing + 1 + 1 + width := by omega
    have hd : n % 16 < 16 := Nat.mod_lt n (by decide)
    have hvalue : (value * 16 ^ width + n / 16 % 16 ^ width) * 16 + n % 16 =
        value * 16 ^ (width + 1) + n % 16 ^ (width + 1) := by
      have hsplit : n % 16 ^ (width + 1) = n % 16 + 16 * (n / 16 % 16 ^ width) := by
        rw [Nat.pow_succ, Nat.mul_comm, Nat.mod_mul]
      rw [hsplit, Nat.pow_succ, ← Nat.mul_assoc]
      omega
    rw [Text.hexDigits, List.append_assoc, hwidth, ih, List.singleton_append, scan,
      hexDigit?_digitChar hd]
    simp only [Option.bind_eq_bind, Option.bind_some]
    rw [if_neg (by omega), hvalue]
    rfl

/-- All digits of a code point. -/
theorem scan_codePoint {c : Char} (width : Nat) (h : c.toNat < 16 ^ (width + 1)) :
    scan (.code mark letters (width + 1) 0) (Text.hexDigits (width + 1) c.toNat ++ rest) =
      scan (.text mark (letters ++ [c])) rest := by
  have hd : c.toNat % 16 < 16 := Nat.mod_lt _ (by decide)
  have hhigh : c.toNat / 16 < 16 ^ width := by
    rw [Nat.div_lt_iff_lt_mul (by decide)]
    rwa [Nat.pow_succ] at h
  have hvalue : (0 * 16 ^ width + c.toNat / 16 % 16 ^ width) * 16 + c.toNat % 16 = c.toNat := by
    rw [Nat.mod_eq_of_lt hhigh]
    omega
  have hfirst := scan_hexDigits mark letters ([Nat.digitChar (c.toNat % 16)] ++ rest) width
    (c.toNat / 16) 0 0
  rw [Text.hexDigits, List.append_assoc]
  rw [Nat.zero_add, Nat.add_comm] at hfirst
  rw [hfirst, List.singleton_append, scan, hexDigit?_digitChar hd]
  simp only [Option.bind_eq_bind, Option.bind_some, if_true]
  rw [hvalue, Char.ofNat_toNat]

/-- An escaped character is read as the character. -/
theorem scan_escape (hm : isMark mark) (c : Char) :
    scan (.text mark letters) (Text.escape mark c ++ rest) =
      scan (.text mark (letters ++ [c])) rest := by
  have hslash : Text.backslash ≠ mark := by
    rintro rfl
    exact absurd hm (by decide)
  have hstart (cs : List Char) : scan (.text mark letters) (Text.backslash :: cs) =
      scan (.escape mark letters) cs := by
    rw [scan, if_neg hslash, if_pos rfl]
  -- One case for each kind of escape.
  unfold Text.escape
  split_ifs with hself hn hr ht hprint hsmall hmiddle
  · have hescaped : escaped? c = some c := by
      rw [escaped?, if_pos]
      rcases hself with rfl | rfl
      · simp [hm]
      · simp
    rw [List.cons_append, hstart, List.singleton_append, scan, hescaped]
  · subst hn
    exact hstart _
  · subst hr
    exact hstart _
  · subst ht
    exact hstart _
  · obtain ⟨hmark, hback⟩ := not_or.mp hself
    rw [List.singleton_append, scan, if_neg hmark, if_neg hback, if_neg hn]
  · rw [List.cons_append, hstart, List.cons_append]
    exact scan_codePoint 1 hsmall
  · rw [List.cons_append, hstart, List.cons_append]
    exact scan_codePoint 3 hmiddle
  -- No code point needs more than eight digits.
  · have hlarge : c.toNat < 16 ^ 8 := by
      have hvalid := c.valid
      simp only [UInt32.isValidChar, Nat.isValidChar] at hvalid
      change c.val.toNat < _
      omega
    rw [List.cons_append, hstart, List.cons_append]
    exact scan_codePoint 7 hlarge

theorem scan_escapes (hm : isMark mark) (cs : List Char) :
    scan (.text mark letters) (cs.flatMap (Text.escape mark) ++ rest) =
      scan (.text mark (letters ++ cs)) rest := by
  induction cs generalizing letters with
  | nil => rw [List.flatMap_nil, List.nil_append, List.append_nil]
  | cons c cs ih =>
    rw [List.flatMap_cons, List.append_assoc, scan_escape hm, ih, List.append_assoc,
      List.singleton_append]

/-- A quoted text is read as the text. -/
theorem leads_quoted (s : String) : Leads (Text.quoted s) [.quoted s] := by
  intro rest
  have hm : isMark (Text.markOf s.toList) := by
    rw [Text.markOf]
    split <;> decide
  have hword : isWordChar (Text.markOf s.toList) = false := by
    rw [Text.markOf]
    split <;> decide
  have hblank : Text.markOf s.toList ≠ ' ' := by
    rw [Text.markOf]
    split <;> decide
  -- The mark in the text is escaped, so the first mark that is not ends it.
  have hclose : scan (.text (Text.markOf s.toList) s.toList) (Text.markOf s.toList :: rest) =
      (scan .blank rest).map ([Token.quoted s] ++ ·) := by
    rw [scan, if_pos rfl, String.ofList_toList]
    cases scan .blank rest <;> rfl
  rw [Text.quoted, String.toList_ofList, Text.quoteChars, List.append_assoc, List.cons_append,
    scan, hword, if_neg hblank, if_pos hm, List.singleton_append]
  simp only [Bool.false_eq_true, if_false]
  rw [scan_escapes hm, List.nil_append, hclose]

end

end TreeGrammar.Script
