import TreeGrammar.Code.Identifier

/-!
How the names of methods start. Marks are never put before a letter that is none, and two letters
that do not make one stay two, so a name in its normal form starts as it was written.
-/
namespace TreeGrammar

namespace Text

/-- A mark stays behind the last letter that is none. -/
theorem insertMark_append (c : Nat) {base : Nat} (h : combiningClass base = 0)
    (before : List Nat) : (marks : List Nat) →
    ∃ marks', insertMark c (marks ++ base :: before) = marks' ++ base :: before
  | [] => ⟨[c], by
    rw [List.nil_append, insertMark, if_neg]
    · rfl
    · omega⟩
  | mark :: marks => by
    rw [List.cons_append, insertMark]
    split
    · obtain ⟨marks', hmarks⟩ := insertMark_append c h before marks
      exact ⟨mark :: marks', by rw [hmarks]; rfl⟩
    · exact ⟨c :: mark :: marks, rfl⟩

theorem foldl_insertMark_append {base : Nat} (h : combiningClass base = 0) (before : List Nat)
    (cs : List Nat) (marks : List Nat) :
    ∃ marks', cs.foldl (fun done c => insertMark c done) (marks ++ base :: before) =
      marks' ++ base :: before := by
  induction cs generalizing marks with
  | nil => exact ⟨marks, rfl⟩
  | cons c cs ih =>
    obtain ⟨marks', hmarks⟩ := insertMark_append c h before marks
    rw [List.foldl_cons, hmarks]
    exact ih marks'

theorem orderMarks_cons_cons {first second : Nat} (hsecond : combiningClass second = 0)
    (cs : List Nat) : ∃ rest, orderMarks (first :: second :: cs) = first :: second :: rest := by
  obtain ⟨marks, hmarks⟩ := foldl_insertMark_append hsecond [first] cs []
  have htwo : insertMark second (insertMark first []) = [second, first] := by
    rw [insertMark, insertMark, if_neg]
    omega
  refine ⟨marks.reverse, ?_⟩
  rw [orderMarks, List.foldl_cons, List.foldl_cons, htwo]
  rw [List.nil_append] at hmarks
  rw [hmarks, List.reverse_append]
  rfl

theorem compose_cons_cons {first second : Nat} (hpair : pairOf first second = none)
    (hsecond : combiningClass second = 0) (cs : List Nat) :
    compose (first :: second :: cs) = first :: composeFrom second [] cs := by
  simp [compose, composeFrom, hpair, hsecond]

/-- The normal form of a text starts with its first character if that is not composed with the next
one. -/
theorem normalForm_head {first second : Char} (hfirst : first.toNat < 0x80)
    (hsecond : second.toNat < 0x80) (hclass : combiningClass second.toNat = 0)
    (hpair : pairOf first.toNat second.toNat = none) (rest : List Char) :
    ∃ after, (normalForm (String.ofList (first :: second :: rest))).toList = first :: after := by
  have hdecompose (c : Char) (h : c.toNat < 0x80) : decompose partsDepth c.toNat = [c.toNat] := by
    rw [partsDepth, decompose, if_pos h]
  rw [normalForm]
  split
  · exact ⟨second :: rest, String.toList_ofList⟩
  · obtain ⟨more, hmore⟩ := orderMarks_cons_cons hclass
      (rest.flatMap fun c => decompose partsDepth c.toNat)
    dsimp only
    rw [String.toList_ofList, String.toList_ofList, List.flatMap_cons, List.flatMap_cons,
      hdecompose first hfirst, hdecompose second hsecond, List.singleton_append,
      List.singleton_append, hmore, compose_cons_cons hpair hclass, List.map_cons, Char.ofNat_toNat]
    exact ⟨_, rfl⟩

end Text

namespace Code

theorem methodId_head (rule : Label) : ∃ after, (methodId rule).toList = 'p' :: after := by
  have hletters : ∃ more,
      ((methodName rule).toList.reverse.dropWhile isGap).reverse = 'p' :: 'a' :: more := by
    -- The blanks at the end of a name do not reach into what stands before the name of the rule.
    have hlead : "parse_".toList.reverse.dropWhile isGap = "parse_".toList.reverse := by decide
    rw [methodName, String.toList_append, List.reverse_append, List.dropWhile_append, hlead]
    split
    · exact ⟨_, rfl⟩
    · rw [List.reverse_append, List.reverse_reverse]
      exact ⟨_, rfl⟩
  obtain ⟨more, hmore⟩ := hletters
  rw [methodId, hmore]
  exact Text.normalForm_head (by decide) (by decide) (by decide +kernel) (by decide +kernel) more

end Code

end TreeGrammar
