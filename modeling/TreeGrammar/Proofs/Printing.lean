import TreeGrammar.Code.Module
import TreeGrammar.Proofs.Contents

/-!
Code has a text. The only pieces without lines are values that a caller has put among them, so code
that holds no text of a caller can always be laid out.
-/
namespace TreeGrammar

namespace Piece

mutual

/-- No foreign value stands in the piece. -/
def Plain : Piece → Prop
  | line _ | space => True
  | block pieces | splice pieces => PlainAll pieces
  | foreign _ => False

def PlainAll : List Piece → Prop
  | [] => True
  | piece :: rest => Plain piece ∧ PlainAll rest

end

theorem plainAll_append {as bs : List Piece} : PlainAll (as ++ bs) ↔ PlainAll as ∧ PlainAll bs := by
  induction as with
  | nil => simp [PlainAll]
  | cons a as ih => simp [PlainAll, ih, and_assoc]

theorem plainAll_flatMap {α : Type} {f : α → List Piece} {l : List α} :
    PlainAll (l.flatMap f) ↔ ∀ a ∈ l, PlainAll (f a) := by
  induction l with
  | nil => simp [PlainAll]
  | cons a l ih => simp [plainAll_append, ih]

theorem plainAll_map_line (texts : List String) : PlainAll (texts.map line) := by
  induction texts with
  | nil => trivial
  | cons text texts ih => exact ⟨trivial, ih⟩

mutual

theorem exists_lines (level : Int) : (piece : Piece) → piece.Plain →
    ∃ texts, lines level piece = .ok texts
  | line _, _ | space, _ => ⟨_, by rw [lines]⟩
  | block pieces, h => by
    rw [lines]
    exact exists_linesOf (level + 1) pieces h
  | splice pieces, h => by
    rw [lines]
    exact exists_linesOf level pieces h
  | foreign _, h => h.elim

theorem exists_linesOf (level : Int) : (pieces : List Piece) → PlainAll pieces →
    ∃ texts, linesOf level pieces = .ok texts
  | [], _ => ⟨[], by rw [linesOf]⟩
  | piece :: rest, h => by
    obtain ⟨first, hfirst⟩ := exists_lines level piece h.1
    obtain ⟨others, hothers⟩ := exists_linesOf level rest h.2
    refine ⟨first ++ others, ?_⟩
    rw [linesOf, hfirst, hothers]
    rfl

end

end Piece

namespace Code

open Piece (Plain PlainAll plainAll_append plainAll_flatMap plainAll_map_line)

theorem plainAll_withSuffix (suffix : String) {code : List Piece} (h : PlainAll code) :
    PlainAll (withSuffix suffix code) := by
  induction code with
  | nil => exact h
  | cons piece rest ih =>
    unfold withSuffix
    split
    · rename_i heq
      cases heq
    · exact ⟨trivial, trivial⟩
    · rename_i heq
      cases heq
      exact ⟨h.1, ih h.2⟩

theorem plainAll_application (func : String) {args : List (List Piece)}
    (h : ∀ arg ∈ args, PlainAll arg) : PlainAll (application func args) := by
  unfold application
  split
  · exact ⟨trivial, trivial⟩
  · have hargs : PlainAll (args.flatMap (withSuffix ",")) :=
      plainAll_flatMap.mpr fun arg ha => plainAll_withSuffix "," (h arg ha)
    exact ⟨trivial, hargs, trivial, trivial⟩

theorem plainAll_call (start : String) {matcher : List Piece} (arg : String)
    (h : PlainAll matcher) : PlainAll (call start matcher arg) := by
  unfold call
  split
  · exact ⟨trivial, trivial⟩
  · exact ⟨trivial, h, trivial, trivial⟩

theorem plainAll_bindingPieces (name : Local) {value : List Piece} (h : PlainAll value) :
    PlainAll (bindingPieces name value) := by
  unfold bindingPieces
  split
  · exact ⟨trivial, trivial⟩
  · exact ⟨trivial, h, trivial, trivial⟩

theorem Expr.plainAll_pieces {e : Expr} (h : .given ∉ e.items) : PlainAll e.pieces := by
  induction e with
  | success | finish | ref name | rule name | leaf kind => exact ⟨trivial, trivial⟩
  | seq a b iha ihb =>
    rw [items, List.mem_append, not_or] at h
    apply plainAll_application
    simpa using ⟨iha h.1, ihb h.2⟩
  | star a b iha ihb | plus a b iha ihb =>
    rw [items, List.mem_cons, List.mem_append, not_or, not_or] at h
    apply plainAll_application
    simpa using ⟨iha h.2.1, ihb h.2.2⟩
  | node kind children ih =>
    apply plainAll_application
    simpa [PlainAll, Plain] using ih h
  | given code => exact absurd List.mem_cons_self h

theorem Block.plainAll_pieces {b : Block} (h : .given ∉ b.items) : PlainAll b.pieces := by
  induction b with
  | define name body next ihb ihn =>
    rw [items, List.mem_cons, List.mem_append, not_or, not_or] at h
    exact ⟨trivial, ihb h.2.1, ihn h.2.2⟩
  | bind name value next ih =>
    rw [items, List.mem_cons, List.mem_append, not_or, not_or] at h
    have hvalue := plainAll_bindingPieces name (Expr.plainAll_pieces h.2.1)
    exact plainAll_append.mpr ⟨hvalue, ih h.2.2⟩
  | attempt matcher next ih =>
    rw [items, List.mem_append, not_or] at h
    have hcall := plainAll_call "res = " nodes (Expr.plainAll_pieces h.1)
    rw [pieces, attemptPieces, plainAll_append, plainAll_append]
    exact ⟨⟨hcall, trivial, ⟨trivial, trivial⟩, trivial⟩, ih h.2⟩
  | ret matcher => exact plainAll_call "return " nodes (Expr.plainAll_pieces h)
  | regroup matcher pattern result =>
    have hcall := plainAll_call "res = " nodes (Expr.plainAll_pieces h)
    exact plainAll_append.mpr ⟨hcall, trivial, ⟨trivial, trivial⟩, trivial, trivial, trivial⟩
  | insert code next => exact absurd List.mem_cons_self h
  | given code => exact absurd List.mem_cons_self h

/-- A module whose code holds no text of a caller has a text, whatever file it was made from. -/
theorem Module.exists_text {module : Module}
    (h : ∀ method ∈ module.methods, .given ∉ method.block.items) (fileName : String) :
    ∃ text, module.text fileName = .ok text := by
  have hmethods : PlainAll (methodPieces module.methods) := by
    rw [methodPieces, plainAll_flatMap]
    intro method hm
    have hblock := Block.plainAll_pieces (h method hm)
    exact ⟨trivial, ⟨trivial, trivial, ⟨trivial, hblock⟩, trivial⟩, trivial⟩
  have hpieces : PlainAll (module.pieces fileName) := by
    have hheader := plainAll_map_line (header fileName)
    simp [pieces, PlainAll, Plain, hheader, hmethods, nodeMatchers, footer]
  obtain ⟨lines, hlines⟩ := Piece.exists_linesOf 0 _ hpieces
  refine ⟨Piece.joinLines lines, ?_⟩
  rw [text, Piece.textOf, hlines]
  rfl

end Code

end TreeGrammar
