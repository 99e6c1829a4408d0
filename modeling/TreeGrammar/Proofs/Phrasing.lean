import Mathlib.Data.List.Basic
import TreeGrammar.Script.Basic

/-!
How expressions are read. Tokens express an expression if they add it to a reading wherever an
operand may stand. Such tokens close what they open and hold no sign of an assignment.
-/
namespace TreeGrammar.Script

/-- The tokens add an expression where an operand may stand. -/
def Expresses (tokens : List Token) (phrase : Phrase) : Prop :=
  ∀ r : Reading, r.current = none →
    tokens.foldlM Reading.step r = some { r with current := some phrase }

/-- The tokens add some expressions, separated by commas, where an operand may stand. -/
def Lists (tokens : List Token) (phrases : List Phrase) : Prop :=
  ∀ r : Reading, r.current = none → ∃ parts current, parts ++ current.toList = phrases ∧
    tokens.foldlM Reading.step r = some ⟨current, r.parts ++ parts, r.outer⟩

section
variable {ts ts' : List Token} {p : Phrase} {ps : List Phrase} {r r' : Reading}

theorem foldlM_append_eq_some {k : Reading} (h : ts.foldlM Reading.step r = some k) :
    (ts ++ ts').foldlM Reading.step r = ts'.foldlM Reading.step k := by
  rw [List.foldlM_append, h]
  rfl

theorem nesting_append (before ts : List Token) :
    nesting (before ++ ts) = ts.foldl nestingAfter (nesting before) :=
  List.foldl_append

theorem Reading.length_outer_step {t : Token} (h : r.step t = some r') :
    r'.outer.length = nestingAfter r.outer.length t := by
  cases t with
  | word w | quoted w =>
    simp only [Reading.step, Reading.operand] at h
    split_ifs at h
    cases h
    rfl
  | opening =>
    cases h
    rfl
  | closing =>
    simp only [Reading.step] at h
    split at h
    · cases h
    · rename_i ho
      cases h
      rw [ho]
      rfl
  | comma =>
    obtain ⟨q, -, hq⟩ := Option.map_eq_some_iff.mp h
    cases hq
    rfl
  | colon | equals => cases h

/-- What is open is counted right by a reading that goes on to the end. -/
theorem foldl_nestingAfter (h : ts.foldlM Reading.step r = some r') :
    ts.foldl nestingAfter r.outer.length = r'.outer.length := by
  induction ts generalizing r with
  | nil =>
    cases h
    rfl
  | cons t ts ih =>
    obtain ⟨k, hk, hrest⟩ := Option.bind_eq_some_iff.mp h
    rw [List.foldl_cons, ← Reading.length_outer_step hk]
    exact ih hrest

theorem notMem_of_foldlM (h : ts.foldlM Reading.step r = some r') : .equals ∉ ts := by
  induction ts generalizing r with
  | nil => exact List.not_mem_nil
  | cons t ts ih =>
    obtain ⟨k, hk, hrest⟩ := Option.bind_eq_some_iff.mp h
    rw [List.mem_cons, not_or]
    refine ⟨?_, ih hrest⟩
    rintro rfl
    cases hk

theorem Lists.nesting_append (h : Lists ts ps) (before : List Token) :
    nesting (before ++ ts) = nesting before := by
  -- Read after as many open parentheses as the tokens before leave open.
  obtain ⟨parts, current, -, hr⟩ := h ⟨none, [], List.replicate (nesting before) (none, [])⟩ rfl
  have hall := foldl_nestingAfter hr
  rw [List.length_replicate] at hall
  exact (Script.nesting_append before ts).trans hall

theorem Lists.equals_notMem (h : Lists ts ps) : .equals ∉ ts := by
  obtain ⟨parts, current, -, hr⟩ := h .start rfl
  exact notMem_of_foldlM hr

theorem expresses_word (w : String) : Expresses [.word w] (.name w) := by
  rintro ⟨_, parts, outer⟩ rfl
  rfl

theorem expresses_quoted (s : String) : Expresses [.quoted s] (.quoted s) := by
  rintro ⟨_, parts, outer⟩ rfl
  rfl

theorem lists_nil : Lists [] [] :=
  fun r hr => ⟨[], none, rfl, by rw [List.append_nil, ← hr]; rfl⟩

theorem Expresses.lists (h : Expresses ts p) : Lists ts [p] :=
  fun r hr => ⟨[], some p, rfl, by rw [List.append_nil]; exact h r hr⟩

theorem Expresses.nesting_append (h : Expresses ts p) (before : List Token) :
    nesting (before ++ ts) = nesting before :=
  h.lists.nesting_append before

theorem Expresses.equals_notMem (h : Expresses ts p) : .equals ∉ ts :=
  h.lists.equals_notMem

theorem Expresses.lists_cons (h : Expresses ts p) (hl : Lists ts' ps) :
    Lists (ts ++ .comma :: ts') (p :: ps) := by
  intro r hr
  obtain ⟨parts, current, rfl, hrest⟩ := hl ⟨none, r.parts ++ [p], r.outer⟩ rfl
  refine ⟨p :: parts, current, rfl, ?_⟩
  rw [foldlM_append_eq_some (h r hr), List.foldlM_cons]
  rw [List.append_assoc, List.singleton_append] at hrest
  exact hrest

/-- What is between parentheses after an expression are the arguments of a call. -/
theorem Expresses.call {func : List Token} {f : Phrase} (hf : Expresses func f)
    (hl : Lists ts ps) : Expresses (func ++ .opening :: (ts ++ [.closing])) (.call f ps) := by
  intro r hr
  obtain ⟨parts, current, rfl, hrest⟩ := hl ⟨none, [], (some f, r.parts) :: r.outer⟩ rfl
  have hopen : Reading.step { r with current := some f } .opening =
      some ⟨none, [], (some f, r.parts) :: r.outer⟩ := rfl
  rw [foldlM_append_eq_some (hf r hr), List.foldlM_cons, hopen]
  exact foldlM_append_eq_some hrest

theorem Reading.closed_of_length {current : Option Phrase} {parts : List Phrase}
    (outer : List (Option Phrase × List Phrase)) (h : (parts ++ current.toList).length ≠ 1) :
    Reading.closed ⟨current, parts, outer⟩ none = .tuple (parts ++ current.toList) := by
  cases parts with
  | nil =>
    cases current with
    | none => rfl
    | some q => exact absurd rfl h
  | cons q parts => rfl

theorem Lists.tuple (hl : Lists ts ps) (hn : ps.length ≠ 1) :
    Expresses (.opening :: (ts ++ [.closing])) (.tuple ps) := by
  intro r hr
  obtain ⟨parts, current, rfl, hrest⟩ := hl ⟨none, [], (none, r.parts) :: r.outer⟩ rfl
  have hopen : Reading.step r .opening = some ⟨none, [], (none, r.parts) :: r.outer⟩ := by
    rw [Reading.step, hr]
  -- One part alone would be the expression itself.
  have hclose : Reading.step ⟨current, parts, (none, r.parts) :: r.outer⟩ .closing =
      some { r with current := some (.tuple (parts ++ current.toList)) } := by
    rw [← Reading.closed_of_length ((none, r.parts) :: r.outer) hn]
    rfl
  rw [List.foldlM_cons, hopen]
  exact (foldlM_append_eq_some hrest).trans hclose

/-- Parentheses around an expression do not change it. -/
theorem Expresses.enclosed (h : Expresses ts p) :
    Expresses (.opening :: (ts ++ [.closing])) p := by
  intro r hr
  have hopen : Reading.step r .opening = some ⟨none, [], (none, r.parts) :: r.outer⟩ := by
    rw [Reading.step, hr]
  rw [List.foldlM_cons, hopen]
  exact foldlM_append_eq_some (h _ rfl)

theorem Expresses.phraseOf (h : Expresses ts p) : phraseOf ts = some p := by
  rw [Script.phraseOf, h .start rfl]
  rfl

/-- A tuple without parentheses. -/
theorem Lists.phraseOf (hl : Lists ts ps) (hn : 2 ≤ ps.length) :
    Script.phraseOf ts = some (.tuple ps) := by
  obtain ⟨parts, current, rfl, hrest⟩ := hl .start rfl
  rw [Script.phraseOf, hrest]
  cases parts with
  | nil => cases current <;> simp at hn
  | cons q parts => cases current <;> rfl

end

section
variable {ts ts' : List Token} {p q : Phrase}

theorem headingOf_assign (ht : phraseOf ts = some p) (he : .equals ∉ ts)
    (hv : phraseOf ts' = some q) : headingOf (ts ++ .equals :: ts') = some (.assign p q) := by
  -- The target holds no sign of an assignment, so the line is cut behind it.
  have hfront : ∀ t ∈ ts, decide (t ≠ Token.equals) = true := by
    intro t hm
    exact decide_eq_true fun heq => he (heq ▸ hm)
  have hstop : decide (Token.equals ≠ Token.equals) = false := rfl
  rw [headingOf, if_pos (List.mem_append_right _ List.mem_cons_self),
    List.takeWhile_append_of_pos hfront, List.dropWhile_append_of_pos hfront,
    List.takeWhile_cons_of_neg (by rw [hstop]; exact Bool.false_ne_true),
    List.dropWhile_cons_of_neg (by rw [hstop]; exact Bool.false_ne_true),
    List.append_nil, ht, List.drop_one, List.tail_cons, hv]
  rfl

theorem headingOf_ret (hv : phraseOf ts = some p) (he : .equals ∉ ts) :
    headingOf (.word "return" :: ts) = some (.ret p) := by
  have hmem : .equals ∉ Token.word "return" :: ts := by
    rw [List.mem_cons, not_or]
    exact ⟨nofun, he⟩
  rw [headingOf, if_neg hmem, keywordOf, hv]
  rfl

end

end TreeGrammar.Script
