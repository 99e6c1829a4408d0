import TreeGrammar.Proofs.Evaluation
import TreeGrammar.Proofs.Transcription

/-!
What stands in statements that are read from text: the methods of rules and the calls for leaves,
the names of the combinators that repeat, and the names that are defined or bound. Statements that a
block is read as hold just what the block holds, in its order.
-/
namespace TreeGrammar

namespace Script

/-- Something that stands in statements. -/
inductive Mark where
  /-- The method of a rule. -/
  | rule (name : String)
  /-- A call for leaves of a kind. -/
  | leaf (kind : String)
  | star
  | plus
  /-- The definition of a function. -/
  | define (name : String)
  /-- A name that is bound to an expression, other than `res`. -/
  | bind (name : String)
deriving DecidableEq

/-- What a word stands for. -/
def wordMarks (word : String) : List Mark :=
  match ruleOf? word with
  | some name => [.rule name]
  | none =>
    if word = "combine.parse_repeat" then [.star]
    else if word = "combine.parse_repeat1" then [.plus]
    else []

mutual

def Phrase.marks : Phrase → List Mark
  | .name word => wordMarks word
  | .quoted _ => []
  | .call (.name "self._parse_leaf_rule") [.quoted kind] => [.leaf kind]
  | .call func args => func.marks ++ marksOf args
  | .tuple parts => marksOf parts

def marksOf : List Phrase → List Mark
  | [] => []
  | part :: rest => part.marks ++ marksOf rest

end

/-- The name that an expression assigns to, if it is a single one other than `res`. -/
def Phrase.boundMarks : Phrase → List Mark
  | .name word => if word = "res" then [] else [.bind word]
  | _ => []

def Statements.marks : Statements → List Mark
  | done => []
  | define name body next => .define name :: (body.marks ++ next.marks)
  | assign target value next => target.boundMarks ++ value.marks ++ next.marks
  | whether _ _ body next => body.marks ++ next.marks
  | ret value next => value.marks ++ next.marks

/-- A word with another first letter than methods and combinators have stands for none of them. -/
theorem wordMarks_of_head {word : String} {c : Char} (h : word.toList.head? = some c)
    (hs : c ≠ 's') (hc : c ≠ 'c') : wordMarks word = [] := by
  obtain ⟨cs, hw⟩ := List.head?_eq_some_iff.mp h
  have hrule : ruleOf? word = none := by
    have hfirst : ('s' == c) = false := beq_eq_false_iff_ne.mpr hs.symm
    have hstart : "self.parse_".toList = 's' :: "elf.parse_".toList := rfl
    have hprefix : "self.parse_".toList.isPrefixOf word.toList = false := by
      rw [hw, hstart, List.isPrefixOf, hfirst, Bool.false_and]
    rw [ruleOf?, hprefix]
    rfl
  have hother {other : String} (ho : other.toList.head? = some 'c') : word ≠ other := by
    rintro rfl
    exact hc (Option.some.inj (h.symm.trans ho))
  rw [wordMarks, hrule]
  simp only [hother (rfl : "combine.parse_repeat".toList.head? = some 'c'),
    hother (rfl : "combine.parse_repeat1".toList.head? = some 'c'), if_false]

theorem marks_call₂ (func a b : Phrase) :
    (Phrase.call func [a, b]).marks = func.marks ++ (a.marks ++ b.marks) := by
  rw [Phrase.marks, marksOf, marksOf, marksOf, List.append_nil]
  rintro kind rfl h
  cases h

theorem marks_tuple₂ (a b : Phrase) : (Phrase.tuple [a, b]).marks = a.marks ++ b.marks := by
  rw [Phrase.marks, marksOf, marksOf, marksOf, List.append_nil]

theorem marks_call_name (func : Phrase) (word : String) :
    (Phrase.call func [.name word]).marks = func.marks ++ wordMarks word := by
  rw [Phrase.marks, marksOf, marksOf, List.append_nil, Phrase.marks]
  rintro kind rfl h
  cases h

end Script

namespace Code

open Script

/-- What stands in text where an item stands in code. -/
def Item.mark? : Item → Option Mark
  | rule name => some (.rule name.shown)
  | leaf kind => some (.leaf kind.shown)
  | star => some .star
  | plus => some .plus
  | define name => some (.define name.name)
  | bind name => some (.bind name.name)
  | given => none

theorem wordMarks_name (x : Local) : wordMarks x.name = [] :=
  wordMarks_of_head (head?_name x) (by decide) (by decide)

theorem wordMarks_part (part : Part) : wordMarks part.name = [] := by
  obtain ⟨c, hc, h⟩ := head?_part part
  rcases h with rfl | rfl
  · exact wordMarks_of_head hc (by decide) (by decide)
  · exact wordMarks_of_head hc (by decide) (by decide)

theorem wordMarks_toString (n : Nat) : wordMarks (toString n) = [] := by
  obtain ⟨c, cs, hcons⟩ := List.exists_cons_of_ne_nil (Nat.toDigits_ne_nil : Nat.toDigits 10 n ≠ [])
  have hdigit : c.isDigit := Nat.isDigit_of_mem_toDigits (by decide) (by decide)
    (hcons ▸ List.mem_cons_self : c ∈ Nat.toDigits 10 n)
  have hhead : (toString n).toList.head? = some c := by
    rw [toList_toString, hcons]
    rfl
  refine wordMarks_of_head hhead ?_ ?_ <;>
  · rintro rfl
    cases hdigit

theorem marks_parts (parts : List Part) : marksOf (parts.map Part.phrase) = [] := by
  induction parts with
  | nil => rfl
  | cons part parts ih =>
    rw [List.map_cons, marksOf, ih, Part.phrase, Phrase.marks, wordMarks_part]
    rfl

/-- An expression for values holds nothing that matches nodes. -/
theorem Regrouped.marks_phrase {result : Regrouped} (hr : result.Readable) :
    result.phrase.marks = [] := by
  induction result with
  | unit => rfl
  | part part => exact wordMarks_part part
  | tuple parts => exact marks_parts parts
  | wrapped wrap inner ih =>
    have hinner := ih hr.2
    cases wrap with
    | plain => exact hinner
    | case index =>
      obtain ⟨n, rfl⟩ := Int.eq_ofNat_of_zero_le hr.1
      have hindex : (Phrase.name (toString (n : Int))).marks = [] := wordMarks_toString n
      rw [Regrouped.phrase, Wrap.phrase, marks_call₂, hinner, hindex]
      rfl
    | around before after => exact hr.1.elim
  | pair first second ihf ihs =>
    rw [Regrouped.phrase, marks_tuple₂, ihf hr.1, ihs hr.2]
    rfl

theorem Expr.marks_phrase {e : Expr} (hr : e.Readable) :
    e.phrase.marks = e.items.filterMap Item.mark? := by
  have hcall {a b : Expr} (ha : a.phrase.marks = a.items.filterMap Item.mark?)
      (hb : b.phrase.marks = b.items.filterMap Item.mark?) (word : String) :
      (Phrase.call (.name word) [a.phrase, b.phrase]).marks =
        wordMarks word ++ (a.items ++ b.items).filterMap Item.mark? := by
    rw [marks_call₂, ha, hb, List.filterMap_append]
    rfl
  induction e with
  | success | finish => rfl
  | ref name => exact wordMarks_name name
  | rule name =>
    obtain ⟨s, rfl, -⟩ := hr
    change wordMarks ("self." ++ methodName (.str s)) = _
    rw [wordMarks, ruleOf?_method]
    rfl
  | leaf kind => rfl
  | seq a b iha ihb => exact hcall (iha hr.1) (ihb hr.2) "combine.parse_seq"
  | star a b iha ihb => exact hcall (iha hr.1) (ihb hr.2) "combine.parse_repeat"
  | plus a b iha ihb => exact hcall (iha hr.1) (ihb hr.2) "combine.parse_repeat1"
  | node kind children ih =>
    rw [Expr.phrase, marks_call₂, ih hr.2]
    rfl
  | given code => exact hr.elim

theorem Expr.marks_callPhrase {e : Expr} (hr : e.Readable) :
    e.callPhrase.marks = e.items.filterMap Item.mark? := by
  rw [Expr.callPhrase, marks_call_name, e.marks_phrase hr]
  exact List.append_nil _

/-- The statements of a block hold what the block holds, in its order. -/
theorem Block.marks_statements {b : Block} (hr : b.Readable) :
    b.statements.marks = b.items.filterMap Item.mark? := by
  induction b with
  | define name body next ihb ihn =>
    rw [Block.statements, Statements.marks, ihb hr.1, ihn hr.2, ← List.filterMap_append]
    rfl
  | bind name value next ih =>
    have hname : (Phrase.name name.name).boundMarks = [.bind name.name] :=
      if_neg (name_ne (by decide) name)
    rw [Block.statements, Statements.marks, ih hr.2, value.marks_phrase hr.1, hname,
      Block.items, List.filterMap_cons, Item.mark?, List.filterMap_append]
    rfl
  | attempt matcher next ih =>
    have hres : (Phrase.name "res").boundMarks = [] := rfl
    have hret : (Statements.ret (.name "res") .done).marks = [] := rfl
    rw [Block.statements, Statements.marks, Statements.marks, matcher.marks_callPhrase hr.1,
      ih hr.2, hres, hret, List.nil_append, List.nil_append, ← List.filterMap_append]
    rfl
  | ret matcher =>
    rw [Block.statements, Statements.marks, matcher.marks_callPhrase hr]
    exact List.append_nil _
  | regroup matcher pattern result =>
    have hresult : (Phrase.tuple [result.phrase, .name nodes]).marks = [] := by
      rw [marks_tuple₂, result.marks_phrase hr.2.1]
      rfl
    -- Only the matcher that is called holds anything; what is returned is put together from names.
    change [] ++ matcher.callPhrase.marks ++ ([] ++ ([] ++ [] ++
      ((Phrase.tuple [result.phrase, .name nodes]).marks ++ []))) = _
    rw [matcher.marks_callPhrase hr.1, hresult, List.nil_append]
    exact List.append_nil _
  | insert code next => exact hr.elim
  | given code => exact hr.elim

end Code

end TreeGrammar
