import Mathlib.Data.List.Basic
import TreeGrammar.Proofs.Hygiene
import TreeGrammar.Proofs.Regrouping

/-!
When a pattern and a result have one text, for every wrap. A pattern has at most one blank before
the name of an element, and a tuple has one before each name but the first; so there are at most two
elements, and the lengths of the texts leave no room for what a wrap adds, unless it writes down the
pair of a single result and the rest.
-/
namespace TreeGrammar.Code

/-- How many blanks stand before the name of an element. -/
def elementGaps : List Char → Nat
  | [] => 0
  | c :: cs => (if c = ' ' ∧ cs.head? = some 'e' then 1 else 0) + elementGaps cs

theorem elementGaps_append_le (xs ys : List Char) :
    elementGaps xs + elementGaps ys ≤ elementGaps (xs ++ ys) := by
  induction xs with
  | nil => simp [elementGaps]
  | cons c xs ih =>
    have hhead : xs.head? = some 'e' → (xs ++ ys).head? = some 'e' := by
      intro h
      rw [List.head?_append, h]
      rfl
    rw [List.cons_append, elementGaps, elementGaps]
    split
    · rename_i hgap
      rw [if_pos ⟨hgap.1, hhead hgap.2⟩]
      omega
    · omega

/-- Text without blanks before other text has no part in its gaps. -/
theorem elementGaps_append {xs : List Char} (h : ' ' ∉ xs) (ys : List Char) :
    elementGaps (xs ++ ys) = elementGaps ys := by
  induction xs with
  | nil => rfl
  | cons c xs ih =>
    have hc : c ≠ ' ' := fun heq => h (heq ▸ List.mem_cons_self)
    have hxs := ih fun hm => h (List.mem_cons_of_mem c hm)
    rw [List.cons_append, elementGaps, if_neg fun hgap => hc hgap.1, hxs, Nat.zero_add]

theorem elementGaps_append_closing (xs : List Char) :
    elementGaps (xs ++ [')']) = elementGaps xs := by
  induction xs with
  | nil => rfl
  | cons c xs ih =>
    have hhead : (xs ++ [')']).head? = some 'e' ↔ xs.head? = some 'e' := by
      cases xs with
      | nil => simp
      | cons d xs => rfl
    simp only [List.cons_append, elementGaps, ih, hhead]

theorem blank_notMem_element (i : Nat) : ' ' ∉ (Part.element i).name.toList := by
  intro h
  rw [Part.name, String.toList_append, toList_toString] at h
  rcases List.mem_append.mp h with h | h
  · simp at h
  · have hdigit := Nat.isDigit_of_mem_toDigits (by decide) (by decide) h
    cases hdigit

theorem elementGaps_element (i : Nat) : elementGaps (Part.element i).name.toList = 0 := by
  have hname := elementGaps_append (blank_notMem_element i) []
  rw [List.append_nil] at hname
  exact hname

/-- Text that starts with the name of an element has a gap before it after a blank, and no other
text has. -/
theorem elementGaps_blank_cons (c : Char) (xs : List Char) :
    elementGaps (' ' :: c :: xs) = (if c = 'e' then 1 else 0) + elementGaps (c :: xs) := by
  rw [elementGaps]
  simp

theorem element_toList (i : Nat) :
    (Part.element i).name.toList = 'e' :: (toString i).toList := by
  rw [Part.name, String.toList_append]
  rfl

/-- Only the pattern for a single result starts with its name. -/
theorem exists_nestedFrom_cons (more : Bool) (first k : Nat) : ∃ c cs,
    (nestedFrom more first k).text.toList = c :: cs ∧ (c = 'e' ↔ k = 0 ∧ more = false) := by
  have hpair (a b : Pattern) : (Pattern.pair a b).text.toList =
      '(' :: (a.text ++ ", " ++ b.text ++ ")").toList := by
    simp [Pattern.text, String.toList_append]
  cases k with
  | zero =>
    cases more with
    | false => exact ⟨_, _, element_toList first, by simp⟩
    | true => exact ⟨_, _, hpair _ _, by simp⟩
  | succ k => exact ⟨_, _, hpair _ _, by simp⟩

/-- A pattern nests all but the last two elements, and these too if more results follow. -/
theorem elementGaps_nestedFrom (more : Bool) (first k : Nat) :
    elementGaps (nestedFrom more first k).text.toList = if k = 0 ∨ more then 0 else 1 := by
  have hpair (i : Nat) (second : Pattern) :
      elementGaps (Pattern.pair (.part (.element i)) second).text.toList =
        elementGaps (' ' :: second.text.toList) := by
    have htext : (Pattern.pair (.part (.element i)) second).text.toList =
        ('(' :: (Part.element i).name.toList ++ [',']) ++ (' ' :: second.text.toList ++ [')']) := by
      simp [Pattern.text, String.toList_append]
    have hblank : ' ' ∉ '(' :: (Part.element i).name.toList ++ [','] := by
      simpa using blank_notMem_element i
    rw [htext, elementGaps_append hblank, elementGaps_append_closing]
  induction k generalizing first with
  | zero =>
    cases more with
    | false => exact elementGaps_element first
    | true => exact hpair first (.part .tail)
  | succ k ih =>
    obtain ⟨c, cs, htext, hc⟩ := exists_nestedFrom_cons more (first + 1) k
    have hrest := ih (first + 1)
    rw [nestedFrom, hpair, htext, elementGaps_blank_cons, ← htext, hrest]
    by_cases hk : k = 0
    · cases more <;> simp [hc, hk]
    · cases more <;> simp [hc, hk]

/-- The names of elements between commas, the first of which has the given index. -/
def elementsText (first count : Nat) : String :=
  ", ".intercalate ((List.range' first count).map fun i => (Part.element i).name)

/-- There is a gap before each name but the first. -/
theorem elementGaps_elementsText (first k : Nat) :
    elementGaps (elementsText first (k + 1)).toList = k := by
  induction k generalizing first with
  | zero => exact elementGaps_element first
  | succ k ih =>
    have hrest : ∃ cs, (elementsText (first + 1) (k + 1)).toList = 'e' :: cs := by
      rw [elementsText, List.range'_succ, List.map_cons]
      cases (List.range' (first + 1 + 1) k).map fun i => (Part.element i).name with
      | nil => exact ⟨_, element_toList (first + 1)⟩
      | cons name names =>
        rw [String.intercalate_cons_cons, String.toList_append, String.toList_append,
          element_toList, List.append_assoc]
        exact ⟨_, rfl⟩
    have htext : (elementsText first (k + 1 + 1)).toList =
        ((Part.element first).name.toList ++ [',']) ++
          (' ' :: (elementsText (first + 1) (k + 1)).toList) := by
      rw [elementsText, List.range'_succ, List.range'_succ, List.map_cons, List.map_cons,
        String.intercalate_cons_cons, String.toList_append, String.toList_append, List.append_assoc,
        List.append_assoc, elementsText, List.range'_succ, List.map_cons]
      rfl
    have hblank : ' ' ∉ (Part.element first).name.toList ++ [','] := by
      simpa using blank_notMem_element first
    obtain ⟨cs, hcs⟩ := hrest
    rw [htext, elementGaps_append hblank, hcs, elementGaps_blank_cons, ← hcs, ih, if_pos rfl,
      Nat.add_comm]

/-- A tuple has as many gaps as it has elements after the first one. -/
theorem le_elementGaps_flatElements (count : Nat) :
    count - 1 ≤ elementGaps (flatElements count).text.toList := by
  match count with
  | 0 | 1 => exact Nat.zero_le _
  | k + 2 =>
    have htext : (flatElements (k + 2)).text.toList =
        '(' :: ((elementsText 0 (k + 1 + 1)).toList ++ [')']) := by
      simp [flatElements, Regrouped.text, elementsText, List.range_eq_range', String.toList_append]
      rfl
    rw [htext, elementGaps, if_neg (by simp), elementGaps_append_closing, elementGaps_elementsText]
    omega

theorem elementGaps_le_of_infix {xs ys : List Char} (h : xs <:+: ys) :
    elementGaps xs ≤ elementGaps ys := by
  obtain ⟨before, after, rfl⟩ := h
  have hfirst := elementGaps_append_le (before ++ xs) after
  have hsecond := elementGaps_append_le before xs
  omega

/-- The text that a wrap puts before an expression. -/
def Wrap.before : Wrap → String
  | plain => ""
  | case index => "combine.Case(" ++ toString index ++ ", "
  | around before _ => before

/-- The text that a wrap puts after an expression. -/
def Wrap.after : Wrap → String
  | plain => ""
  | case _ => ")"
  | around _ after => after

theorem Wrap.text_eq (wrap : Wrap) (s : String) : wrap.text s = wrap.before ++ s ++ wrap.after := by
  cases wrap with
  | plain => simp [Wrap.text, Wrap.before, Wrap.after]
  | case index => rfl
  | around before after => rfl

/-- The text of a result is that of its elements with text around it. -/
theorem headResult_text (count : Nat) (more : Bool) (wrap : Wrap) :
    (headResult count more wrap).text.toList =
      (if more then ['('] else []) ++ (wrap.before.toList ++ (flatElements count).text.toList ++
        wrap.after.toList) ++ if more then ", tail)".toList else [] := by
  cases more with
  | false => simp [headResult, Regrouped.text, wrap.text_eq, String.toList_append]
  | true => simp [headResult, Regrouped.text, wrap.text_eq, String.toList_append, Part.name]

/-- The text of a result is as long as its elements and what stands around them. -/
theorem length_headResult_text (count : Nat) (more : Bool) (wrap : Wrap) :
    (headResult count more wrap).text.toList.length =
      wrap.before.toList.length + (flatElements count).text.toList.length +
        wrap.after.toList.length + if more then 8 else 0 := by
  rw [headResult_text]
  cases more with
  | false => simp [Nat.add_assoc]
  | true =>
    have hend : ", tail)".toList.length = 7 := rfl
    simp only [if_true, List.length_append, List.length_singleton, hend]
    omega

/-- A name between parentheses is where the only letter of that kind is. -/
theorem eq_of_around_element {before after : List Char}
    (h : "(e0, tail)".toList = before ++ "e0".toList ++ after) :
    before = ['('] ∧ after = ", tail)".toList := by
  have hcons : ['('] ++ 'e' :: "0, tail)".toList = before ++ 'e' :: ('0' :: after) := by
    simpa using h
  obtain ⟨hbefore, -, hafter⟩ :=
    (List.append_cons_inj_of_notMem (by decide) (by decide)).mp hcons
  exact ⟨hbefore.symm, (List.cons.inj hafter).2.symm⟩

/-- Pattern and result have one text only where a wrap adds nothing and the results stay as they
are, or where it writes down the pair of a single result and the rest. -/
theorem same_text {count : Nat} (hc : 1 ≤ count) {more more' : Bool} (hm : more' → more)
    {wrap : Wrap} (h : (headPattern count more).text = (headResult count more' wrap).text) :
    (wrap.before = "" ∧ wrap.after = "" ∧
      (count = 1 ∧ more' = more ∨ count = 2 ∧ more = false ∧ more' = false)) ∨
    (wrap.before = "(" ∧ wrap.after = ", tail)" ∧ count = 1 ∧ more = true ∧ more' = false) := by
  have hchars := congrArg String.toList h
  rw [headResult_text] at hchars
  have hcount : count - 1 ≤ if count - 1 = 0 ∨ more then 0 else 1 :=
    calc count - 1 ≤ elementGaps (flatElements count).text.toList :=
          le_elementGaps_flatElements count
      _ ≤ elementGaps (headPattern count more).text.toList := by
          rw [hchars]
          apply elementGaps_le_of_infix
          exact ⟨(if more' then ['('] else []) ++ wrap.before.toList,
            wrap.after.toList ++ if more' then ", tail)".toList else [],
            by simp only [List.append_assoc]⟩
      _ = if count - 1 = 0 ∨ more then 0 else 1 := elementGaps_nestedFrom more 0 (count - 1)
  have hsplit : count = 1 ∨ count = 2 ∧ more = false := by
    by_cases hnone : count - 1 = 0 ∨ more
    · rw [if_pos hnone] at hcount
      exact .inl (by omega)
    · rw [if_neg hnone] at hcount
      obtain ⟨-, hmore⟩ := not_or.mp hnone
      exact .inr ⟨by omega, eq_false_of_ne_true hmore⟩
  have hnil {s : String} (hs : s.toList.length = 0) : s = "" :=
    String.toList_eq_nil_iff.mp (List.eq_nil_of_length_eq_zero hs)
  -- Where the texts around are as long as the pattern leaves room for, the wrap has none.
  have hlength : (headPattern count more).text.toList.length = _ :=
    (congrArg (fun text => text.toList.length) h).trans (length_headResult_text count more' wrap)
  rcases hsplit with rfl | ⟨rfl, rfl⟩
  · have helements : (flatElements 1).text.toList.length = 2 := rfl
    match more, more', hm with
    | false, false, _ =>
      have hpattern : (headPattern 1 false).text.toList.length = 2 := rfl
      rw [hpattern, helements, if_neg Bool.false_ne_true] at hlength
      exact .inl ⟨hnil (by omega), hnil (by omega), .inl ⟨rfl, rfl⟩⟩
    | true, true, _ =>
      have hpattern : (headPattern 1 true).text.toList.length = 10 := rfl
      rw [hpattern, helements, if_pos rfl] at hlength
      exact .inl ⟨hnil (by omega), hnil (by omega), .inl ⟨rfl, rfl⟩⟩
    | true, false, _ =>
      have hname : (headPattern 1 true).text.toList =
          wrap.before.toList ++ (flatElements 1).text.toList ++ wrap.after.toList := by
        rw [hchars, if_neg Bool.false_ne_true, if_neg Bool.false_ne_true, List.nil_append,
          List.append_nil]
      obtain ⟨hbefore, hafter⟩ := eq_of_around_element hname
      exact .inr ⟨String.toList_inj.mp hbefore, String.toList_inj.mp hafter, rfl, rfl, rfl⟩
    | false, true, hm => cases hm rfl
  · obtain rfl : more' = false := eq_false_of_ne_true fun hmore => by cases hm hmore
    have hpattern : (headPattern 2 false).text.toList.length = 8 := rfl
    have helements : (flatElements 2).text.toList.length = 8 := rfl
    rw [hpattern, helements, if_neg Bool.false_ne_true] at hlength
    exact .inl ⟨hnil (by omega), hnil (by omega), .inr ⟨rfl, rfl, rfl⟩⟩

end TreeGrammar.Code
