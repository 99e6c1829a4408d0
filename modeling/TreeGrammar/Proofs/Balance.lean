import Mathlib.Logic.Relation
import TreeGrammar.Proofs.Counts

/-!
Continuations that are reached from the end of a sequence by the steps of the compiler. A step is
followed by any other, with whatever a caller puts in front. Each keeps the balance of the counts,
so it holds in all that is reached.
-/
namespace TreeGrammar.Code

open Continuation (prependOne prependWith prependNext flattenHead orDone orEnd)

/-- What stands in a body without empty groups has none either. -/
theorem grouped_of_contains {body part : Body} (h : body.Contains part) (hg : body.Grouped) :
    part.Grouped := by
  induction h with
  | self => exact hg
  | @inside whole inner part hm _ ih =>
    apply ih
    have hall {bodies : List Body} (hbodies : Body.GroupedAll bodies) (hmem : inner ∈ bodies) :
        inner.Grouped := by
      induction bodies with
      | nil => cases hmem
      | cons b rest ih =>
        rcases List.mem_cons.mp hmem with rfl | hmem
        · exact hbodies.1
        · exact ih hbodies.2 hmem
    cases whole with
    | symbol | literal | pattern | blank => cases hm
    | star b | plus b => exact List.mem_singleton.mp hm ▸ hg
    | choice bodies | seq bodies => exact hall hg.2 hm

/-- One step of the compiler from a continuation to another. -/
inductive Step : Option Continuation → Option Continuation → Prop
  | prependOne {next : Option Continuation} (add : Fragment → Gen Fragment) {k : Continuation}
      {n l : Nat} (h : Makes (prependOne next add) n k l) : Step next (some k)
  | prependNext {next : Option Continuation} (element : Term) {k : Continuation} {n l : Nat}
      (h : Makes (prependNext element next) n k l) : Step next (some k)
  | compile {next : Option Continuation} (body : Body) {k : Continuation} {n l : Nat}
      (h : Makes (compile next body) n k l) : Step next (some k)
  | group {next : Option Continuation} (wrap : Wrap) (bodies : List Body) {k : Continuation}
      {n l : Nat} (h : Makes (compileGroup wrap next bodies) n k l) : Step next (some k)
  | choice {next : Option Continuation} (bodies : List Body) {k : Continuation} {n l : Nat}
      (h : Makes (compileChoice next bodies) n k l) : Step next (some k)
  | case {next : Option Continuation} (index : Int) (body : Body) {k : Continuation} {n l : Nat}
      (h : Makes (compileCase index next body) n k l) : Step next (some k)
  | map {next : Option Continuation} (f : Fragment → Fragment) :
      Step next (next.map (Continuation.mapCode f))
  | orDone {next : Option Continuation} : Step next (some (orDone next))
  | flattenHead {next next' : Option Continuation} {count : Int} (wrap : Wrap) {n l : Nat}
      (hc : 0 ≤ count) (hk : count ≤ (Continuation.orDone next).kept)
      (h : Makes (flattenHead count next wrap) n next' l) : Step next next'

/-- A continuation that is reached from the end of a sequence by any steps. -/
def Reached (next : Option Continuation) : Prop :=
  Relation.ReflTransGen Step none next

/-- At most one result that is of no interest is captured, and none where nothing is. -/
structure Continuation.Balanced (k : Continuation) : Prop extends k.InOrder where
  captured_le : k.captured ≤ k.kept + 1
  captured_eq_zero : k.captured = 0 ↔ k.kept = 0

theorem Continuation.balanced_orEnd {next : Option Continuation} (h : ∀ k ∈ next, k.Balanced) :
    (orEnd next).Balanced := by
  cases next with
  | none => exact ⟨⟨le_rfl, le_rfl⟩, by decide, by decide⟩
  | some next => exact h next rfl

/-- Results of interest in front of a continuation leave at most one other. -/
theorem Longer.balanced {base k : Continuation} {count : Nat} (h : Longer base count k)
    (hb : base.Balanced) (hc : 1 ≤ count) : k.Balanced := by
  have hkept := h.kept_eq
  have hbase := hb.kept_nonneg
  have hle := h.kept_le
  refine ⟨h.inOrder hb.toInOrder, ?_, by omega⟩
  have hcaptured := h.captured_le
  have hwidth : (base.width : Int) ≤ base.kept + 1 := by
    have hmore := hb.captured_le
    unfold Continuation.width
    split <;> omega
  omega

/-- Every step keeps the balance of the counts. -/
theorem Step.balanced {next next' : Option Continuation} (h : Step next next')
    (hn : ∀ k ∈ next, k.Balanced) : ∀ k ∈ next', k.Balanced := by
  have hend := Continuation.balanced_orEnd hn
  have hone {x : Gen Continuation} {stop : CodeError → Prop} {k : Continuation} {n l : Nat}
      (hx : Comes x stop (Longer (orEnd next) 1)) (hm : Makes x n k l) :
      ∀ k' ∈ some k, k'.Balanced := by
    rintro _ ⟨⟩
    exact (hx.of_makes hm).balanced hend le_rfl
  -- Whatever a caller puts in front, the counts are those of one more result.
  have hprepend (add : Fragment → Gen Fragment) :
      Comes (Continuation.prependOne next add) (fun _ => True) (Longer (orEnd next) 1) :=
    (comes_prependOne hend.toInOrder comes_anything).mono (fun _ => id) fun k hk => hk.1
  have hgroup (wrap : Wrap) (bodies : List Body) : Comes (compileGroup wrap next bodies)
      (Stops (bodies ≠ [] ∧ Body.GroupedAll bodies) (orEnd next).code.Closed)
      (Longer (orEnd next) 1) :=
    (comes_compileGroup wrap (fun b _ => counted b) hend.toInOrder).mono
      (fun _ => id) fun k hk => hk.2.toLonger
  have hbody (body : Body) : Comes (Code.compile next body)
      (Stops body.Grouped (orEnd next).code.Closed) (Longer (orEnd next) 1) :=
    (counted body next hend.toInOrder).mono (fun _ => id) fun k hk => hk.toLonger
  cases h with
  | prependOne add h => exact hone (hprepend add) h
  | prependNext element h =>
    rw [Continuation.prependNext, prependWith] at h
    exact hone (hprepend _) h
  | compile body h => exact hone (hbody body) h
  | group wrap bodies h => exact hone (hgroup wrap bodies) h
  | choice bodies h => exact hone (hbody (.choice bodies)) h
  | case index body h => exact hone (hgroup (.case index) body.elements) h
  | map f =>
    intro k hk
    obtain ⟨whole, rfl, rfl⟩ := Option.map_eq_some_iff.mp hk
    have hwhole := hn whole rfl
    exact ⟨⟨hwhole.kept_nonneg, hwhole.kept_le⟩, hwhole.captured_le, hwhole.captured_eq_zero⟩
  | orDone =>
    rintro _ ⟨⟩
    cases next with
    | none => exact ⟨⟨le_rfl, le_rfl⟩, by decide, by decide⟩
    | some whole => exact hn whole rfl
  | flattenHead wrap hc hk h =>
    rcases makes_flattenHead_inv h with ⟨-, rfl, -⟩ | ⟨hpos, whole, flat, rfl, rfl, -, -⟩
    · exact hn
    · rintro _ ⟨⟩
      obtain ⟨count, rfl⟩ := Int.eq_ofNat_of_zero_le hc
      have hwhole := hn whole rfl
      have hmore := hwhole.captured_le
      have hle := hwhole.kept_le
      change (count : Int) ≤ whole.kept at hk
      have hcomes : Comes (Continuation.flattenHead count (some whole) wrap) (fun _ => False) _ :=
        comes_flattenHead wrap hwhole.toInOrder (by omega) hk
      obtain ⟨_, ⟨⟩, hkept, hcaptured, -⟩ := hcomes.of_makes h
      split at hcaptured
      · exact ⟨⟨by omega, by omega⟩, by omega, by omega⟩
      · exact ⟨⟨by omega, by omega⟩, by omega, by omega⟩

/-- The counts are balanced in whatever is reached. -/
theorem Reached.balanced {next : Option Continuation} (h : Reached next) :
    ∀ k ∈ next, k.Balanced := by
  induction h with
  | refl => exact fun k hk => by cases hk
  | tail _ hstep ih => exact hstep.balanced ih

/-- The counts of continuations. Compiling a body without empty groups in front of a continuation
whose counts are in order succeeds if its code, as far as it is an expression, ends with a line;
otherwise it can only stop because it does not. In any case the result keeps one result more. All
alternatives of a choice at any depth come to counts that depend on what follows the choice alone.
In all that is reached from the end of a sequence at most one result that is of no interest is
captured, and none where nothing is. -/
theorem compile_counts :
    (∀ (body : Body) (next : Option Continuation), body.Grouped → (∀ k ∈ next, k.InOrder) →
      ((∀ k ∈ next, k.code.Closed) → ∀ n, ∃ k l, Makes (compile next body) n k l) ∧
      (∀ n e, Fails (compile next body) n e → e = .noCode ∨ e = .notClosed) ∧
      ∀ n k l, Makes (compile next body) n k l →
        k.kept = (orDone next).kept + 1 ∧ k.kept ≤ k.captured) ∧
    (∀ (body : Body) (bodies : List Body), body.Grouped → body.Contains (.choice bodies) →
      ∀ (next : Continuation), next.InOrder → next.code.Closed →
        ∀ b ∈ bodies, ∀ (index : Int) (n : Nat), ∃ k l,
          Makes (compileCase index (some next) b) n k l ∧
            (k.captured, k.kept) = next.groupCounts) ∧
    ∀ k, Reached (some k) → k.kept ≤ k.captured ∧ k.captured ≤ k.kept + 1 ∧
      (k.captured = 0 ↔ k.kept = 0) := by
  refine ⟨fun body next hg hn => ?_, fun body bodies hg hc next hn hclosed b hb index n => ?_,
    fun k hk => ?_⟩
  · have hcomes := counted body next (Continuation.inOrder_orEnd hn)
    refine ⟨fun hclosed n => ?_, fun n e hf => ?_, fun n k l hm => ?_⟩
    · obtain ⟨k, l, hm, -⟩ := hcomes.exists_makes (fun e he => by
        cases he with
        | emptyGroup h => exact h hg
        | noCode h | notClosed h => exact h (Continuation.closed_orEnd hclosed)) n
      exact ⟨k, l, hm⟩
    · cases hcomes.of_fails hf with
      | emptyGroup h => exact absurd hg h
      | noCode h => exact .inl rfl
      | notClosed h => exact .inr rfl
    · have hk := hcomes.of_makes hm
      have hend : (orEnd next).kept = (orDone next).kept := by
        cases next <;> rfl
      exact ⟨hend ▸ hk.kept_eq, hk.kept_le⟩
  · have hchoice := grouped_of_contains hc hg
    have hgrouped : b.Grouped := grouped_of_contains (.inside hb (.self b)) hchoice
    have hcomes := comes_compileCase (fun e (_ : e ∈ b.elements) => counted e) index hn
    refine hcomes.exists_makes (fun e he => ?_) n
    cases he with
    | emptyGroup h => exact h hgrouped
    | noCode h | notClosed h => exact h hclosed
  · have hbalanced := hk.balanced k rfl
    exact ⟨hbalanced.kept_le, hbalanced.captured_le, hbalanced.captured_eq_zero⟩

/-- A continuation whose code ends with lines that are spliced in. -/
def splicedRest : Continuation :=
  ⟨1, 1, .term ⟨.given [.splice [.line "self.parse_a"]], []⟩⟩

/-- A comma cannot be put after lines that are spliced in, so nothing is compiled in front of them,
although the counts are in order. -/
theorem splicedRest_stops : splicedRest.InOrder ∧ Body.blank.Grouped ∧
    ∀ n, Fails (compile (some splicedRest) .blank) n .notClosed ∧
      ∀ k l, ¬ Makes (compile (some splicedRest) .blank) n k l := by
  refine ⟨⟨by decide, by decide⟩, trivial, fun n => ?_⟩
  have hrun : (compile (some splicedRest) .blank).run.run n = (.error .notClosed, n) := by
    rw [compile]
    rfl
  refine ⟨⟨n, hrun⟩, fun k l hm => ?_⟩
  unfold Makes at hm
  rw [hrun] at hm
  cases hm

/-- A choice between a sequence and a repetition, and an element that follows it. -/
def branchedBody : Body :=
  .seq [.choice [.seq [.literal (.str "a"), .blank], .star (.pattern (.str "b"))], .blank]

theorem branchedBody_counts :
    (∃ k l, Makes (compile none branchedBody) 0 k l ∧ k.kept = 1 ∧ Reached (some k) ∧
      k.captured ≤ 2) ∧
    ∀ b ∈ [Body.seq [.literal (.str "a"), .blank], .star (.pattern (.str "b"))],
      ∃ k l, Makes (compileCase 0 (some ⟨2, 1, .ofExpr (.ref (.tail 1))⟩) b) 1 k l ∧
        (k.captured, k.kept) = (3, 2) := by
  obtain ⟨hcompile, hcases, hreached⟩ := compile_counts
  have hgrouped : branchedBody.Grouped := by
    simp [branchedBody, Body.Grouped, Body.GroupedAll]
  have hcontains : branchedBody.Contains
      (.choice [.seq [.literal (.str "a"), .blank], .star (.pattern (.str "b"))]) :=
    .inside List.mem_cons_self (.self _)
  constructor
  · obtain ⟨hmakes, -, hkept⟩ := hcompile branchedBody none hgrouped fun k hk => by cases hk
    obtain ⟨k, l, hm⟩ := hmakes (fun k hk => by cases hk) 0
    have hone : k.kept = 1 := (hkept 0 k l hm).1
    have hk : Reached (some k) := .tail .refl (.compile branchedBody hm)
    have hmore := (hreached k hk).2.1
    exact ⟨k, l, hm, hone, hk, by omega⟩
  · intro b hb
    exact hcases branchedBody _ hgrouped hcontains ⟨2, 1, .ofExpr (.ref (.tail 1))⟩
      ⟨by decide, by decide⟩ rfl b hb 0 1

end TreeGrammar.Code
