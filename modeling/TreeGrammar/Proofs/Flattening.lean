import Mathlib.Data.Int.Order.Basic
import Mathlib.Data.Nat.Basic
import Mathlib.Order.Basic
import TreeGrammar.Proofs.Delivery

/-!
Continuations made from others. A matcher in front of a continuation adds one result of interest,
and taking the first results together leaves one of them. Neither fails on a continuation whose
counts and names are in order, and the result is again such a continuation.
-/
namespace TreeGrammar.Code

open Continuation (prependOne prependWith flattenHead flatten regroup)

/-- The continuation, or the end after which no node may be left. -/
def Continuation.orEnd (next : Option Continuation) : Continuation :=
  next.getD .atEnd

/-- How many nested results the matcher returns; where none is counted it returns one. -/
def Continuation.width (next : Continuation) : Nat :=
  if next.captured = 0 then 1 else next.captured.toNat

/-- What the matcher of a continuation yields where names mean what `env` says. -/
def Interpretation.Means {m : Type → Type} [Monad m] [MonadExceptOf RunFault m] {μ ν : Type}
    (I : Interpretation m μ ν) (env : Env m ν) (next : Continuation) (kont : List μ → Yield μ) :
    Prop :=
  I.Delivers next.kept.toNat next.width (next.code.meaning I.host env) kont

/-- The counts of a continuation are in order, its code ends with a line, and its names have numbers
up to `n`. -/
structure Continuation.Ready (next : Continuation) (n : Nat) : Prop where
  kept_nonneg : 0 ≤ next.kept
  kept_le : next.kept ≤ next.captured
  closed : next.code.Closed
  names : NamesUpTo n next.code.names

theorem Continuation.ready_atEnd (n : Nat) : Continuation.atEnd.Ready n :=
  ⟨le_rfl, le_rfl, rfl, fun _ h => by cases h⟩

namespace Continuation.Ready

variable {next : Continuation} {n : Nat}

theorem one_le_width (h : next.Ready n) : 1 ≤ next.width := by
  have := h.kept_nonneg
  have := h.kept_le
  unfold width
  split <;> omega

end Continuation.Ready

/-- At the end of a sequence a matcher is put in front of the check that no node is left. -/
theorem prependOne_orEnd (next : Option Continuation) (add : Fragment → Gen Fragment) :
    prependOne next add = prependOne (some (Continuation.orEnd next)) add := by
  cases next with
  | none => rfl
  | some next => rfl

theorem exists_prependOne {next : Option Continuation} {n k n₀ : Nat}
    (h : (Continuation.orEnd next).Ready n₀) {add : Fragment → Gen Fragment} {code : Fragment}
    (hc : Makes (add (Continuation.orEnd next).code) n code k) :
    Makes (prependOne next add) n
      ⟨(Continuation.orEnd next).width + 1, (Continuation.orEnd next).kept + 1, code⟩ k := by
  rw [prependOne_orEnd]
  generalize Continuation.orEnd next = next at h hc ⊢
  have hk := h.kept_nonneg
  have hl := h.kept_le
  have hcounts : 0 ≤ next.kept ∧ next.kept ≤ next.captured := ⟨hk, hl⟩
  rw [prependOne]
  simp only [hcounts, and_self, if_true, Continuation.width]
  by_cases hz : next.captured = 0
  · have hkz : next.kept = 0 := by omega
    simp only [hz, if_true, hkz]
    exact makes_bind hc (makes_pure _ _)
  · simp only [hz, if_false, Int.toNat_of_nonneg (hk.trans hl)]
    exact makes_bind hc (makes_pure _ _)

/-- A matcher in front of a continuation: the counts, the names and the meaning of the whole. -/
structure InFront (next : Continuation) (n : Nat) (k : Continuation) (l : Nat) : Prop where
  le : n ≤ l
  kept_eq : k.kept = next.kept + 1
  captured_eq : k.captured = next.width + 1
  closed : k.code.Closed
  names : NamesFrom next.code.names n l k.code.names

theorem exists_prependWith {combine : Expr → Expr → Expr}
    {joined : ∀ {m : Type → Type} [Monad m] {ν : Type},
      Matcher m ν → Matcher m ν → Matcher m ν} (hj : Joins combine joined) {element : Term}
    {next : Option Continuation} {n₀ n : Nat} (hn : (Continuation.orEnd next).Ready n₀)
    (hle : n₀ ≤ n) (he : element.expr.Closed) (hnames : NamesFrom [] n₀ n element.names) :
    ∃ k l, Makes (prependWith combine element next) n k l ∧
      InFront (Continuation.orEnd next) n₀ k l ∧
      ∀ {m : Type → Type} [Monad m] [MonadExceptOf RunFault m] {ν : Type} (host : Host m ν)
        (env : Env m ν), k.code.meaning host env =
          joined (element.meaning host env) ((Continuation.orEnd next).code.meaning host env) := by
  obtain ⟨t, l, hmake, ht⟩ := exists_termed (Continuation.orEnd next).code n
  have hfault : Term.join combine element t =
      .ok ⟨combine element.expr t.expr, element.defs ++ t.defs⟩ := by
    rw [Term.join, Term.joined, hj.fault he (ht.closed hn.closed)]
  -- The names of the element are new, and those of the rest are older or newer still.
  have hdisjoint : ∀ x ∈ element.names, x ∉ t.names := by
    intro x hx hxt
    rcases hnames x hx with hold | hnew
    · cases hold
    · rcases ht.names x hxt with hold | hlater
      · have := hn.names x hold
        omega
      · omega
  refine ⟨_, l, exists_prependOne hn
    (makes_bind hmake (makes_bind (makes_lift hfault l) (makes_pure _ _))), ?_, ?_⟩
  · refine ⟨hle.trans ht.le, rfl, rfl, hj.closed, ?_⟩
    intro x hx
    rcases join_names hj hx with hx | hx
    · rcases hnames x hx with hold | hnew
      · cases hold
      · exact .inr ⟨hnew.1, hnew.2.trans ht.le⟩
    · exact ht.names.mono hle le_rfl x hx
  · intro m _ _ ν host env
    rw [Fragment.meaning_term, join_meaning hj hdisjoint, ht.meaning]

/-- Results are taken together by code that means just that, or by none where none is needed. -/
theorem exists_regroup {next : Continuation} {n₀ n count kept captured : Nat} {wrap : Wrap}
    (ho : wrap.IsOwn) (hn : next.Ready n₀) (hc : 1 ≤ count) (hk : next.kept = kept)
    (hw : next.captured = captured) (hle : count ≤ kept) :
    ∃ code l, Makes (regroup count next wrap) n code l ∧ n ≤ l ∧ code.Closed ∧
      NamesFrom next.code.names n l code.names ∧
      ∀ {m : Type → Type} [Monad m] [MonadExceptOf RunFault m] {μ ν : Type}
        (I : Interpretation m μ ν) (env : Env m ν) (kont : List μ → Yield μ),
        I.Delivers kept captured (next.code.meaning I.host env) kont →
        I.Delivers (kept - count + 1) (widthTaken count kept captured)
          (code.meaning I.host env)
          fun nodes => (kont nodes).map (Prod.map (headTaken wrap count) id) := by
  have hkc : kept ≤ captured := by
    have := hn.kept_le
    omega
  have hpattern := nestedPairs_eq hc (hle.trans hkc)
  have hresult := flatTuple_eq hc hle wrap
  rw [← hw] at hpattern
  rw [← hk] at hresult
  by_cases htext : (headPattern count (count < captured)).text =
      (headResult count (count < kept) wrap).text
  · refine ⟨next.code, n, ?_, le_rfl, hn.closed, .of_old fun _ hx => hx, ?_⟩
    · refine makes_bind (makes_lift hpattern n) (makes_bind (makes_lift hresult n) ?_)
      rw [if_pos htext]
      exact makes_pure _ n
    · rintro m _ _ μ ν I env kont ⟨answer, ha, hp⟩
      exact ⟨answer, ha, fun nodes => (hp nodes).together ho hc hle htext⟩
  · obtain ⟨t, l, hmake, ht⟩ := exists_termed next.code n
    refine ⟨.block ((Block.regroup t.expr (headPattern count (count < captured))
      (headResult count (count < kept) wrap)).after t.defs), l, ?_, ht.le, trivial, ?_, ?_⟩
    · refine makes_bind (makes_lift hpattern n) (makes_bind (makes_lift hresult n) ?_)
      rw [if_neg htext]
      exact makes_bind hmake (makes_pure _ l)
    · intro x hx
      rw [Fragment.names, Block.names_after] at hx
      exact ht.names x hx
    · intro m _ _ μ ν I env kont h
      rw [← ht.meaning I.host env] at h
      dsimp only [Fragment.meaning, Fragment.toBlock]
      rw [Block.meaning_after]
      exact Interpretation.delivers_regroup h ho hc hle

/-- The first `count` results of a continuation taken together: the counts, the names and the
meaning of what is left. -/
structure Taken (count : Nat) (wrap : Wrap) (next : Continuation) (n : Nat) (k : Continuation)
    (l : Nat) : Prop where
  le : n ≤ l
  kept_eq : k.kept = next.kept - count + 1
  captured_eq : k.captured = if count < next.kept then next.captured - count + 1 else 1
  closed : k.code.Closed
  names : NamesFrom next.code.names n l k.code.names
  means : ∀ {m : Type → Type} [Monad m] [MonadExceptOf RunFault m] {μ ν : Type}
    (I : Interpretation m μ ν) (env : Env m ν) (kont : List μ → Yield μ), I.Means env next kont →
      I.Means env k fun nodes => (kont nodes).map (Prod.map (headTaken wrap count) id)

theorem exists_flattenHead {next : Continuation} {n₀ n count : Nat} {wrap : Wrap} (ho : wrap.IsOwn)
    (hn : next.Ready n₀) (hc : 1 ≤ count) (hle : count ≤ next.kept) :
    ∃ k l, Makes (flattenHead count (some next) wrap) n (some k) l ∧
      Taken count wrap next n k l := by
  obtain ⟨captured, kept, code⟩ := next
  obtain ⟨kept, rfl⟩ := Int.eq_ofNat_of_zero_le hn.kept_nonneg
  obtain ⟨captured, rfl⟩ := Int.eq_ofNat_of_zero_le (hn.kept_nonneg.trans hn.kept_le)
  have hkc := hn.kept_le
  simp only at hkc hle
  obtain ⟨flat, l, hmake, hl, hclosed, hnames, hmeans⟩ :=
    exists_regroup ho hn hc rfl rfl (by omega) (n := n)
  have hcheck : 0 ≤ (count : Int) ∧ (count : Int) ≤ kept ∧ (kept : Int) ≤ captured :=
    ⟨by omega, hle, hkc⟩
  have hne : ¬ (count : Int) = 0 := by omega
  have hwidth : (Continuation.mk captured kept code).width = captured := by
    rw [Continuation.width, if_neg (show ¬ (captured : Int) = 0 by omega), Int.toNat_natCast]
  -- Whatever the counts are written as, they are those of the results taken together.
  have htaken (k : Continuation) (hcode : k.code = flat) (hkept : k.kept = kept - count + 1)
      (hcaptured : k.captured =
        if (count : Int) < kept then (captured : Int) - count + 1 else 1) :
      Taken count wrap ⟨captured, kept, code⟩ n k l := by
    refine ⟨hl, hkept, hcaptured, hcode ▸ hclosed, hcode ▸ hnames, ?_⟩
    intro m _ _ μ ν I env kont h
    have hk : k.kept.toNat = kept - count + 1 := by omega
    have hw : k.width = widthTaken count kept captured := by
      unfold Continuation.width widthTaken
      split at hcaptured <;> split <;> split <;> omega
    rw [Interpretation.Means, hwidth, Int.toNat_natCast] at h
    rw [Interpretation.Means, hw, hk, hcode]
    exact hmeans I env kont h
  by_cases hlt : (count : Int) < kept
  · refine ⟨⟨captured - count + 1, kept - count + 1, flat⟩, l, ?_, htaken _ rfl rfl ?_⟩
    · simp only [flattenHead, Continuation.orDone, Option.getD_some, hcheck, hne, hlt, and_self,
        if_true, if_false]
      exact makes_bind hmake (makes_pure _ l)
    · rw [if_pos hlt]
  · refine ⟨⟨1, 1, flat⟩, l, ?_, htaken _ rfl ?_ ?_⟩
    · simp only [flattenHead, Continuation.orDone, Option.getD_some, hcheck, hne, hlt, and_self,
        if_true, if_false]
      exact makes_bind hmake (makes_pure _ l)
    · simp only
      omega
    · rw [if_neg hlt]

end TreeGrammar.Code
