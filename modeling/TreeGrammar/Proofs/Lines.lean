import TreeGrammar.Proofs.Expressions
import TreeGrammar.Proofs.Headers
import TreeGrammar.Proofs.Rows

/-!
Which texts of code fit on one line. Names are made of letters, a quoted text has its line breaks
escaped, and all other texts are put together from these.
-/
namespace TreeGrammar

namespace Text

/-- The text holds no line feed and no carriage return. -/
def OneLine (text : String) : Prop :=
  ∀ c ∈ text.toList, c ≠ '\n' ∧ c ≠ '\r'

instance (text : String) : Decidable (OneLine text) :=
  List.decidableBAll (fun c => c ≠ '\n' ∧ c ≠ '\r') text.toList

section
variable {s t : String} {texts : List String}

theorem oneLine_append : OneLine (s ++ t) ↔ OneLine s ∧ OneLine t := by
  rw [OneLine, String.toList_append, List.forall_mem_append]
  rfl

theorem oneLine_intercalate (hs : OneLine s) (h : ∀ text ∈ texts, OneLine text) :
    OneLine (s.intercalate texts) := by
  induction texts with
  | nil => exact List.forall_mem_nil _
  | cons text texts ih =>
    obtain ⟨hfirst, hrest⟩ := List.forall_mem_cons.mp h
    cases texts with
    | nil => rwa [String.intercalate_singleton]
    | cons next texts =>
      rw [String.intercalate_cons_cons]
      exact oneLine_append.mpr ⟨oneLine_append.mpr ⟨hfirst, hs⟩, ih hrest⟩

theorem Unbroken.oneLine (h : Unbroken s.toList) : OneLine s := by
  intro c hc
  constructor
  · rintro rfl
    exact absurd (h _ hc) (by decide)
  · rintro rfl
    exact absurd (h _ hc) (by decide)

theorem oneLine_onOneLine (s : String) : OneLine (onOneLine s) := by
  intro c hc
  rw [onOneLine, String.toList_ofList, List.mem_flatMap] at hc
  obtain ⟨d, -, hc⟩ := hc
  have hescape {letter : Char} (h : letter ≠ '\n' ∧ letter ≠ '\r') :
      ∀ c ∈ ['\x5c', letter], c ≠ '\n' ∧ c ≠ '\r' :=
    List.forall_mem_cons.mpr ⟨by decide, List.forall_mem_singleton.mpr h⟩
  split_ifs at hc with hreturn hfeed
  · exact hescape (by decide) c hc
  · exact hescape (by decide) c hc
  · rw [List.mem_singleton.mp hc]
    exact ⟨hfeed, hreturn⟩

theorem isLineBreak_digitChar (n : Nat) : isLineBreak (Nat.digitChar (n % 16)) = false := by
  have hall : ∀ d : Fin 16, isLineBreak (Nat.digitChar d) = false := by decide
  exact hall ⟨n % 16, Nat.mod_lt n (by decide)⟩

theorem unbroken_hexDigits (width n : Nat) : Unbroken (hexDigits width n) := by
  induction width generalizing n with
  | zero => exact List.forall_mem_nil _
  | succ width ih =>
    exact List.forall_mem_append.mpr
      ⟨ih (n / 16), List.forall_mem_singleton.mpr (isLineBreak_digitChar n)⟩

/-- Line breaks are controls and separators, and none of these is printable. -/
theorem isLineBreak_of_isPrintable {c : Char} (h : isPrintable c = true) :
    isLineBreak c = false := by
  have hall : ∀ n ∈ [0x0a, 0x0b, 0x0c, 0x0d, 0x1c, 0x1d, 0x1e, 0x85, 0x2028, 0x2029],
      isPrintable (Char.ofNat n) = false := by decide +kernel
  rw [Bool.eq_false_iff]
  intro hbreak
  have hmem : c.toNat ∈ [0x0a, 0x0b, 0x0c, 0x0d, 0x1c, 0x1d, 0x1e, 0x85, 0x2028, 0x2029] := by
    simp only [isLineBreak, Bool.or_eq_true, Bool.and_eq_true, decide_eq_true_eq,
      beq_iff_eq] at hbreak
    simp only [List.mem_cons, List.not_mem_nil, or_false]
    omega
  have hnot := hall c.toNat hmem
  rw [Char.ofNat_toNat, h] at hnot
  cases hnot

theorem unbroken_escape {mark : Char} (hm : isLineBreak mark = false) (c : Char) :
    Unbroken (escape mark c) := by
  have hslash {d : Char} {more : List Char} (hd : isLineBreak d = false) (hmore : Unbroken more) :
      Unbroken (backslash :: d :: more) :=
    List.forall_mem_cons.mpr ⟨by decide, List.forall_mem_cons.mpr ⟨hd, hmore⟩⟩
  have hnil : Unbroken [] := List.forall_mem_nil _
  unfold escape
  split_ifs with hself hfeed hreturn htab hprint
  · rcases hself with rfl | rfl
    · exact hslash hm hnil
    · exact hslash (by decide) hnil
  · exact hslash (by decide) hnil
  · exact hslash (by decide) hnil
  · exact hslash (by decide) hnil
  -- The only characters that are kept are printable.
  · exact List.forall_mem_singleton.mpr (isLineBreak_of_isPrintable hprint)
  · exact hslash (by decide) (unbroken_hexDigits 2 c.toNat)
  · exact hslash (by decide) (unbroken_hexDigits 4 c.toNat)
  · exact hslash (by decide) (unbroken_hexDigits 8 c.toNat)

/-- A quoted text has no line breaks, whatever the text holds. -/
theorem unbroken_quoted (s : String) : Unbroken (quoted s).toList := by
  have hmark : isLineBreak (markOf s.toList) = false := by
    unfold markOf
    split_ifs <;> decide
  rw [quoted, String.toList_ofList, quoteChars]
  refine List.forall_mem_append.mpr ⟨List.forall_mem_cons.mpr ⟨hmark, fun c hc => ?_⟩,
    List.forall_mem_singleton.mpr hmark⟩
  obtain ⟨d, -, hd⟩ := List.mem_flatMap.mp hc
  exact unbroken_escape hmark d c hd

theorem oneLine_quoted (s : String) : OneLine (quoted s) :=
  (unbroken_quoted s).oneLine

end

end Text

namespace Code

open Text Script

theorem oneLine_of_wordChars {w : String} (h : ∀ c ∈ w.toList, isWordChar c) : OneLine w := by
  intro c hc
  constructor
  · rintro rfl
    exact absurd (h _ hc) (by decide)
  · rintro rfl
    exact absurd (h _ hc) (by decide)

/-- Words open no block. -/
theorem ends_of_wordChars {w : String} (h : ∀ c ∈ w.toList, isWordChar c) (hne : w.toList ≠ []) :
    Ends w.toList := by
  have hlast := h _ (List.getLast_mem hne)
  refine ⟨_, List.getLast?_eq_some_getLast hne, fun hmem => ?_⟩
  rcases List.mem_cons.mp hmem with heq | heq
  · rw [heq] at hlast
    exact absurd hlast (by decide)
  · rw [List.mem_singleton.mp heq] at hlast
    exact absurd hlast (by decide)

/-- The tuple of two texts. -/
theorem oneLine_pair {a b : String} (ha : OneLine a) (hb : OneLine b) :
    OneLine ("(" ++ a ++ ", " ++ b ++ ")") := by
  simp only [oneLine_append]
  exact ⟨⟨⟨⟨by decide, ha⟩, by decide⟩, hb⟩, by decide⟩

theorem Part.oneLine_name (part : Part) : OneLine part.name :=
  oneLine_of_wordChars part.isWordChar_of_mem_name

theorem Pattern.oneLine_text (pattern : Pattern) : OneLine pattern.text := by
  induction pattern with
  | unit => decide
  | part part => exact part.oneLine_name
  | pair first second ihf ihs => exact oneLine_pair ihf ihs

theorem Regrouped.oneLine_text {result : Regrouped} (h : result.Readable) :
    OneLine result.text := by
  induction result with
  | unit => decide
  | part part => exact part.oneLine_name
  | tuple parts =>
    have hparts : OneLine (", ".intercalate (parts.map Part.name)) :=
      oneLine_intercalate (by decide) (List.forall_mem_map.mpr fun part _ => part.oneLine_name)
    exact oneLine_append.mpr ⟨oneLine_append.mpr ⟨by decide, hparts⟩, by decide⟩
  | wrapped wrap inner ih =>
    cases wrap with
    | plain => exact ih h.2
    | case index =>
      obtain ⟨n, rfl⟩ := Int.eq_ofNat_of_zero_le h.1
      have hindex : OneLine (toString n) := oneLine_of_wordChars fun c => isWordChar_of_mem_toString
      have htext : OneLine ("combine.Case(" ++ toString n ++ ", " ++ inner.text ++ ")") := by
        simp only [oneLine_append]
        exact ⟨⟨⟨⟨by decide, hindex⟩, by decide⟩, ih h.2⟩, by decide⟩
      exact htext
    | around before after => exact h.1.elim
  | pair first second ihf ihs => exact oneLine_pair (ihf h.1) (ihs h.2)

end Code

end TreeGrammar
