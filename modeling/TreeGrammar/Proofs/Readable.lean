import Mathlib.Data.List.Basic
import Mathlib.Data.List.Nodup
import TreeGrammar.Proofs.Contents
import TreeGrammar.Proofs.Regrouping
import TreeGrammar.Script.Token

/-!
Code whose text has a meaning: names of rules are made of letters and kinds of nodes are texts, and
what a block puts together are parts that it has taken apart before. Text of a caller is not
looked at.
-/
namespace TreeGrammar

/-- A text that can be part of a name in code. -/
def Label.IsName (label : Label) : Prop :=
  ∃ s : String, label = .str s ∧ ∀ c ∈ s.toList, Script.isLetter c

def Label.IsText (label : Label) : Prop :=
  ∃ s : String, label = .str s

namespace Code

def Pattern.parts : Pattern → List Part
  | unit => []
  | part p => [p]
  | pair first second => first.parts ++ second.parts

def Regrouped.parts : Regrouped → List Part
  | unit => []
  | part p => [p]
  | tuple ps => ps
  | wrapped _ inner => inner.parts
  | pair first second => first.parts ++ second.parts

/-- Marks without text of a caller. The index of an alternative is not negative. -/
def Wrap.Readable : Wrap → Prop
  | plain => True
  | case index => 0 ≤ index
  | around _ _ => False

/-- A tuple has no single element, since parentheses alone make none. -/
def Regrouped.Readable : Regrouped → Prop
  | unit | part _ => True
  | tuple ps => ps.length ≠ 1
  | wrapped wrap inner => wrap.Readable ∧ inner.Readable
  | pair first second => first.Readable ∧ second.Readable

theorem Wrap.readable_plain : Wrap.plain.Readable := trivial

theorem Wrap.readable_case {index : Int} (h : 0 ≤ index) : (Wrap.case index).Readable := h

def Expr.Readable : Expr → Prop
  | success | finish | ref _ => True
  | rule name => name.IsName
  | leaf kind => kind.IsText
  | seq element tail | star element tail | plus element tail => element.Readable ∧ tail.Readable
  | node kind children => kind.IsText ∧ children.Readable
  | given _ => False

def Block.Readable : Block → Prop
  | define _ body next => body.Readable ∧ next.Readable
  | bind _ value next => value.Readable ∧ next.Readable
  | attempt matcher next => matcher.Readable ∧ next.Readable
  | ret matcher => matcher.Readable
  | regroup matcher pattern result => matcher.Readable ∧ result.Readable ∧
    pattern.parts.Nodup ∧ result.parts ⊆ pattern.parts
  | insert _ _ | given _ => False

def Def.Readable : Def → Prop
  | function _ body => body.Readable
  | given _ => False

def Fragment.Readable (code : Fragment) : Prop :=
  code.toBlock.Readable

/-- What a body asks for can be written. -/
def Item.Readable : Item → Prop
  | rule name => name.IsName
  | leaf kind => kind.IsText
  | _ => True

theorem Block.readable_after (defs : List Def) (b : Block) :
    (b.after defs).Readable ↔ (∀ d ∈ defs, d.Readable) ∧ b.Readable := by
  induction defs with
  | nil => simp [after]
  | cons d defs ih =>
    cases d with
    | function name body =>
      rw [List.forall_mem_cons, and_assoc, ← ih]
      rfl
    | given code =>
      rw [List.forall_mem_cons]
      exact ⟨False.elim, fun h => h.1.1⟩

theorem Fragment.readable_term (t : Term) :
    (Fragment.term t).Readable ↔ (∀ d ∈ t.defs, d.Readable) ∧ t.expr.Readable :=
  Block.readable_after t.defs (.ret t.expr)

theorem parts_headPattern {count : Nat} (hc : 1 ≤ count) (more : Bool) :
    (headPattern count more).parts =
      (List.range count).map .element ++ if more then [.tail] else [] := by
  have hfrom (first k : Nat) : (nestedFrom more first k).parts =
      (List.range' first (k + 1)).map .element ++ if more then [.tail] else [] := by
    induction k generalizing first with
    | zero => cases more <;> rfl
    | succ k ih =>
      rw [nestedFrom, Pattern.parts, ih, List.range'_succ (n := k + 1), List.map_cons,
        List.cons_append]
      rfl
  rw [headPattern, hfrom, List.range_eq_range', Nat.sub_add_cancel hc]

theorem parts_headResult (count : Nat) (more : Bool) (wrap : Wrap) :
    (headResult count more wrap).parts =
      (List.range count).map .element ++ if more then [.tail] else [] := by
  have helements : (flatElements count).parts = (List.range count).map .element := by
    unfold flatElements
    split <;> rfl
  cases more with
  | false => exact helements.trans (List.append_nil _).symm
  | true => exact congrArg (· ++ [Part.tail]) helements

theorem readable_headResult {wrap : Wrap} (hw : wrap.Readable) (count : Nat) (more : Bool) :
    (headResult count more wrap).Readable := by
  have helements : (flatElements count).Readable := by
    unfold flatElements
    split
    · trivial
    · rename_i hne
      rw [Regrouped.Readable, List.length_map, List.length_range]
      exact hne
  cases more with
  | false => exact ⟨hw, helements⟩
  | true => exact ⟨⟨hw, helements⟩, trivial⟩

theorem nodup_headPattern {count : Nat} (hc : 1 ≤ count) (more : Bool) :
    (headPattern count more).parts.Nodup := by
  have helements : ((List.range count).map Part.element).Nodup :=
    List.nodup_range.map fun i j h => Part.element.inj h
  rw [parts_headPattern hc]
  cases more with
  | false => rwa [if_neg Bool.false_ne_true, List.append_nil]
  | true =>
    refine helements.append (List.nodup_singleton _) ?_
    rintro p hp hq
    obtain ⟨i, -, rfl⟩ := List.mem_map.mp hp
    cases List.mem_singleton.mp hq

/-- What is taken together is taken apart before. -/
theorem Block.readable_regroup {count captured kept : Int} {wrap : Wrap} {pattern : Pattern}
    {result : Regrouped} {e : Expr} (he : e.Readable) (hw : wrap.Readable) (hk : kept ≤ captured)
    (hp : nestedPairs count captured = .ok pattern) (hr : flatTuple count kept wrap = .ok result)
    (ht : pattern.text ≠ result.text) : (Block.regroup e pattern result).Readable := by
  have hcount : 0 ≤ count ∧ count ≤ kept := by
    by_contra hc
    rw [flatTuple, checkCount, if_neg hc] at hr
    cases hr
  have hpos : count ≠ 0 := by
    rintro rfl
    rw [nestedPairs, checkCount, if_pos ⟨by omega, by omega⟩] at hp
    rw [flatTuple, checkCount, if_pos hcount] at hr
    cases hp
    cases hr
    exact ht rfl
  lift count to Nat using hcount.1
  lift kept to Nat using by omega
  lift captured to Nat using by omega
  rw [nestedPairs_eq (by omega) (by omega)] at hp
  rw [flatTuple_eq (by omega) (by omega)] at hr
  obtain rfl := Except.ok.inj hp
  obtain rfl := Except.ok.inj hr
  refine ⟨he, readable_headResult hw _ _, nodup_headPattern (by omega) _, ?_⟩
  rw [parts_headPattern (by omega), parts_headResult]
  refine List.append_subset.mpr ⟨List.subset_append_left _ _, fun p hp => ?_⟩
  apply List.mem_append_right
  -- The rest is paired with the tuple only where the pattern has a name for it.
  split at hp
  · rename_i hlt
    rw [decide_eq_true_eq] at hlt
    rw [if_pos (decide_eq_true (by omega))]
    exact hp
  · cases hp

end Code

end TreeGrammar
