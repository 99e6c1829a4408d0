import TreeGrammar.Proofs.Generation

/-!
The counts of continuations. A body in front of a continuation adds one result of interest, and all
alternatives of a choice come to the same counts, which depend on what follows the choice alone.
Wherever a step starts, it comes to something that satisfies a property or it stops with one of some
errors; that goes through the steps of the compiler, and the induction is on the body, for all
continuations at once.
-/
namespace TreeGrammar.Code

open Continuation (prependOne prependWith prependNext flattenHead flatten regroup orDone orEnd)

section
variable {α β : Type} {stop stop' : CodeError → Prop} {P Q : α → Prop}

/-- Wherever a step starts, it makes something with the property or stops with one of the errors. -/
def Comes (x : Gen α) (stop : CodeError → Prop) (P : α → Prop) : Prop :=
  ∀ n, match (x.run.run n).1 with
    | .ok a => P a
    | .error e => stop e

theorem comes_pure {a : α} (h : P a) : Comes (pure a) stop P :=
  fun _ => h

theorem comes_throw {e : CodeError} (h : stop e) : Comes (throw e) stop P :=
  fun _ => h

theorem comes_lift {x : Except CodeError α} (ho : ∀ a, x = .ok a → P a)
    (he : ∀ e, x = .error e → stop e) : Comes (liftM x) stop P := by
  intro n
  cases x with
  | ok a => exact ho a rfl
  | error e => exact he e rfl

theorem comes_freshId : Comes freshId stop fun _ => True :=
  fun _ => trivial

theorem comes_anything {x : Gen α} : Comes x (fun _ => True) fun _ => True := by
  intro n
  split <;> trivial

theorem Comes.bind {f : α → Gen β} {R : β → Prop} {x : Gen α} (h : Comes x stop P)
    (hf : ∀ a, P a → Comes (f a) stop R) : Comes (x >>= f) stop R := by
  intro n
  have hx := h n
  rw [ExceptT.run_bind, StateT.run_bind]
  rcases hrun : x.run.run n with ⟨a | e, k⟩
  · rw [hrun] at hx
    exact hx
  · rw [hrun] at hx
    exact hf _ hx k

theorem Comes.mono {x : Gen α} (h : Comes x stop P) (hs : ∀ e, stop e → stop' e)
    (hp : ∀ a, P a → Q a) : Comes x stop' Q := by
  intro n
  have hx := h n
  split at hx
  · exact hp _ hx
  · exact hs _ hx

theorem Comes.of_makes {x : Gen α} {n l : Nat} {a : α} (h : Comes x stop P)
    (hm : Makes x n a l) : P a := by
  have hx := h n
  unfold Makes at hm
  rwa [hm] at hx

theorem Comes.of_fails {x : Gen α} {n : Nat} {e : CodeError} (h : Comes x stop P)
    (hf : Fails x n e) : stop e := by
  obtain ⟨k, hk⟩ := hf
  have hx := h n
  rwa [hk] at hx

/-- A step that has no error to stop with makes something. -/
theorem Comes.exists_makes {x : Gen α} (h : Comes x stop P) (hs : ∀ e, ¬ stop e) (n : Nat) :
    ∃ a l, Makes x n a l ∧ P a := by
  have hx := h n
  rcases hrun : x.run.run n with ⟨e | a, l⟩
  · rw [hrun] at hx
    exact absurd hx (hs e)
  · rw [hrun] at hx
    exact ⟨a, l, hrun, hx⟩

end

/-- Why the compiler stops: a group is empty, or text has to be put after code that does not end
with a line. -/
inductive Stops (grouped closed : Prop) : CodeError → Prop where
  | emptyGroup (h : ¬ grouped) : Stops grouped closed .emptyGroup
  | noCode (h : ¬ closed) : Stops grouped closed .noCode
  | notClosed (h : ¬ closed) : Stops grouped closed .notClosed

theorem Stops.mono {grouped closed grouped' closed' : Prop} (hg : grouped' → grouped)
    (hc : closed' → closed) {e : CodeError} (h : Stops grouped closed e) :
    Stops grouped' closed' e := by
  cases h with
  | emptyGroup h => exact .emptyGroup fun hg' => h (hg hg')
  | noCode h => exact .noCode fun hc' => h (hc hc')
  | notClosed h => exact .notClosed fun hc' => h (hc hc')

/-- The counts of a continuation are in order. -/
structure Continuation.InOrder (next : Continuation) : Prop where
  kept_nonneg : 0 ≤ next.kept
  kept_le : next.kept ≤ next.captured

theorem Continuation.inOrder_orEnd {next : Option Continuation} (h : ∀ k ∈ next, k.InOrder) :
    (orEnd next).InOrder := by
  cases next with
  | none => exact ⟨le_rfl, le_rfl⟩
  | some next => exact h next rfl

theorem Continuation.closed_orEnd {next : Option Continuation} (h : ∀ k ∈ next, k.code.Closed) :
    (orEnd next).code.Closed := by
  cases next with
  | none => rfl
  | some next => exact h next rfl

/-- The counts of a continuation with `count` results of interest put in front of it. What else is
captured stays the same, unless no result was of interest before: then it may have been dropped. -/
structure Longer (base : Continuation) (count : Nat) (k : Continuation) : Prop where
  kept_eq : k.kept = base.kept + count
  kept_le : k.kept ≤ k.captured
  captured_eq : 0 < base.kept → k.captured = base.captured + count
  captured_le : k.captured ≤ base.width + count

/-- The compiler has put `count` results of interest in front of a continuation. -/
structure Lengthened (base : Continuation) (count : Nat) (k : Continuation) : Prop
    extends Longer base count k where
  closed : base.code.Closed → k.code.Closed

namespace Continuation.InOrder

variable {base : Continuation} (h : base.InOrder)
include h

theorem captured_le_width : base.captured ≤ base.width := by
  have hkept := h.kept_nonneg
  have hle := h.kept_le
  unfold Continuation.width
  split <;> omega

theorem one_le_width : 1 ≤ base.width := by
  have hkept := h.kept_nonneg
  have hle := h.kept_le
  unfold Continuation.width
  split <;> omega

theorem width_of_pos (hpos : 0 < base.kept) : (base.width : Int) = base.captured := by
  have hle := h.kept_le
  unfold Continuation.width
  split <;> omega

theorem lengthened_nil : Lengthened base 0 base :=
  ⟨⟨by simp, h.kept_le, by simp, by simpa using h.captured_le_width⟩, id⟩

end Continuation.InOrder

section
variable {base k k' : Continuation} {count more : Nat}

theorem Longer.inOrder (h : Longer base count k) (hb : base.InOrder) : k.InOrder := by
  have hkept := h.kept_eq
  have hbase := hb.kept_nonneg
  exact ⟨by omega, h.kept_le⟩

theorem Longer.trans (h : Longer base count k) (h' : Longer k more k') (hb : base.InOrder) :
    Longer base (count + more) k' := by
  have hkept := h.kept_eq
  have hkept' := h'.kept_eq
  -- What is captured is as wide as before or one unit that stands for nothing.
  have hwidth : k.width ≤ base.width + count := by
    have hcaptured := h.captured_le
    have hone := hb.one_le_width
    unfold Continuation.width at hone ⊢ hcaptured
    split <;> omega
  refine ⟨by omega, h'.kept_le, fun hpos => ?_, ?_⟩
  · have hcaptured := h.captured_eq hpos
    have hcaptured' := h'.captured_eq (by omega)
    omega
  · have hcaptured' := h'.captured_le
    omega

theorem Lengthened.trans (h : Lengthened base count k) (h' : Lengthened k more k')
    (hb : base.InOrder) : Lengthened base (count + more) k' :=
  ⟨h.toLonger.trans h'.toLonger hb, fun hc => h'.closed (h.closed hc)⟩

/-- A group in front of a continuation is one result of interest. -/
theorem Lengthened.of_counts (hb : base.InOrder) (hk : (k.captured, k.kept) = base.groupCounts)
    (hc : base.code.Closed → k.code.Closed) : Lengthened base 1 k := by
  obtain ⟨hcaptured, hkept⟩ := Prod.ext_iff.mp hk
  have hnonneg := hb.kept_nonneg
  have hle := hb.kept_le
  have hone := hb.one_le_width
  unfold Continuation.groupCounts at hcaptured hkept
  by_cases hpos : 0 < base.kept
  · have hwidth := hb.width_of_pos hpos
    rw [if_pos hpos] at hcaptured hkept
    simp only at hcaptured hkept
    exact ⟨⟨hkept, by omega, fun _ => hcaptured, by omega⟩, hc⟩
  · rw [if_neg hpos] at hcaptured hkept
    simp only at hcaptured hkept
    exact ⟨⟨by omega, by omega, fun h => absurd h hpos, by omega⟩, hc⟩

end

section
variable {stop : CodeError → Prop} {next : Option Continuation}

theorem comes_toTerm (code : Fragment) :
    Comes code.toTerm stop fun t => code.Closed → t.expr.Closed := by
  cases code with
  | term t => exact comes_pure id
  | block b => exact comes_freshId.bind fun id _ => comes_pure fun _ => rfl

theorem openEnd?_eq_some {code : List Piece} {e : CodeError} (h : openEnd? code = some e) :
    e = .noCode ∨ e = .notClosed := by
  unfold openEnd? at h
  split at h
  · exact .inl (Option.some.inj h).symm
  · cases h
  · exact .inr (Option.some.inj h).symm

theorem Joint.fault?_expr (j : Joint) (a b : Expr) :
    (j.expr a b).fault? = applicationFault? j.func [a.pieces, b.pieces] := by
  cases j <;> rfl

/-- Where the first of two matchers ends with a line, only the second can be at fault. -/
theorem stops_of_fault {j : Joint} {a b : Expr} (ha : a.Closed) {e : CodeError}
    (h : (j.expr a b).fault? = some e) {grouped : Prop} : Stops grouped b.Closed e := by
  rw [j.fault?_expr, applicationFault?] at h
  split at h
  · cases h
  · have hb : openEnd? b.pieces = some e := by simpa [show openEnd? a.pieces = none from ha] using h
    have hopen : ¬ b.Closed := by
      intro hclosed
      cases hclosed.symm.trans hb
    rcases openEnd?_eq_some hb with rfl | rfl
    · exact .noCode hopen
    · exact .notClosed hopen

theorem comes_prependOne {add : Fragment → Gen Fragment} {P : Fragment → Prop}
    (hn : (orEnd next).InOrder) (ha : Comes (add (orEnd next).code) stop P) :
    Comes (prependOne next add) stop fun k => Longer (orEnd next) 1 k ∧ P k.code := by
  rw [prependOne_orEnd]
  generalize orEnd next = next at hn ha ⊢
  have hkept := hn.kept_nonneg
  have hle := hn.kept_le
  rw [prependOne, if_pos ⟨hkept, hle⟩]
  split
  · rename_i hzero
    have hwidth : next.width = 1 := if_pos hzero
    refine ha.bind fun code hcode => comes_pure ⟨?_, hcode⟩
    exact ⟨by simp only; omega, Int.le.intro 1 rfl, fun h => absurd h (by omega), by simp [hwidth]⟩
  · have hwidth := hn.captured_le_width
    refine ha.bind fun code hcode => comes_pure ⟨?_, hcode⟩
    exact ⟨rfl, by simp only; omega, fun _ => rfl, by simp only; omega⟩

theorem comes_prependWith (j : Joint) {element : Term} (hn : (orEnd next).InOrder)
    (he : element.expr.Closed) {grouped : Prop} :
    Comes (prependWith j.expr element next) (Stops grouped (orEnd next).code.Closed)
      fun k => Lengthened (orEnd next) 1 k := by
  suffices hadd : Comes (do
      let tail ← (orEnd next).code.toTerm
      pure (Fragment.term (← Term.join j.expr element tail)))
      (Stops grouped (orEnd next).code.Closed) Fragment.Closed from
    (comes_prependOne hn hadd).mono (fun _ => id) fun k hk => ⟨hk.1, fun _ => hk.2⟩
  refine (comes_toTerm _).bind fun tail htail => ?_
  refine Comes.bind (P := fun t => t.expr.Closed) (comes_lift ?_ ?_) fun t ht => comes_pure ht
  · intro t ht
    rw [Term.joined_eq_ok ht]
    exact j.joins.closed
  · intro e hfault
    rw [Term.join, Term.joined] at hfault
    split at hfault
    · rename_i e' hsome
      obtain rfl := Except.error.inj hfault
      exact (stops_of_fault he hsome).mono id htail
    · cases hfault

/-- Results are taken together by code that ends with a line if the code before did. -/
theorem comes_regroup {count kept captured : Nat} {next : Continuation} (wrap : Wrap)
    (hc : 1 ≤ count) (hk : next.kept = kept) (hw : next.captured = captured) (hle : count ≤ kept)
    (hkc : kept ≤ captured) :
    Comes (regroup count next wrap) stop fun code => next.code.Closed → code.Closed := by
  rw [regroup, hk, hw, nestedPairs_eq hc (hle.trans hkc), flatTuple_eq hc hle]
  refine Comes.bind (P := fun _ => True) (comes_pure trivial) fun pattern _ => ?_
  refine Comes.bind (P := fun _ => True) (comes_pure trivial) fun result _ => ?_
  split
  · exact comes_pure id
  · exact (comes_toTerm _).bind fun t _ => comes_pure fun _ => trivial

/-- The first results taken together are one result. -/
theorem comes_flattenHead {count : Nat} {next : Continuation} (wrap : Wrap) (hn : next.InOrder)
    (hc : 1 ≤ count) (hle : count ≤ next.kept) :
    Comes (flattenHead count (some next) wrap) stop fun flat => ∃ k, flat = some k ∧
      k.kept = next.kept - count + 1 ∧
      k.captured = (if count < next.kept then next.captured - count + 1 else 1) ∧
      (next.code.Closed → k.code.Closed) := by
  obtain ⟨kept, hk⟩ := Int.eq_ofNat_of_zero_le hn.kept_nonneg
  obtain ⟨captured, hw⟩ := Int.eq_ofNat_of_zero_le (hn.kept_nonneg.trans hn.kept_le)
  have hkc := hn.kept_le
  have hcounts : 0 ≤ (count : Int) ∧ (count : Int) ≤ (orDone (some next)).kept ∧
      (orDone (some next)).kept ≤ (orDone (some next)).captured := ⟨by omega, hle, hkc⟩
  have hne : ¬ (count : Int) = 0 := by omega
  rw [flattenHead, if_pos hcounts, if_neg hne]
  refine (comes_regroup wrap hc hk hw (by omega) (by omega)).bind fun code hcode => ?_
  change Comes (if (count : Int) < next.kept then _ else _) stop _
  split
  · exact comes_pure ⟨_, rfl, rfl, rfl, hcode⟩
  · exact comes_pure ⟨_, rfl, by simp only; omega, rfl, hcode⟩

end

/-- Compiling the body puts one result of interest in front of every continuation whose counts are
in order, unless it stops. -/
def Counted (body : Body) : Prop :=
  ∀ next, (orEnd next).InOrder → Comes (compile next body)
    (Stops body.Grouped (orEnd next).code.Closed) fun k => Lengthened (orEnd next) 1 k

theorem counted_leaf {body : Body} {e : Expr} (he : e.Closed)
    (h : ∀ next, compile next body = prependNext (.ofExpr e) next) : Counted body := by
  intro next hn
  rw [h]
  exact comes_prependWith .seq hn he

theorem counted_repetition (j : Joint) {body whole : Body} (hb : Counted body)
    (hg : whole.Grouped → body.Grouped)
    (h : ∀ next, compile next whole = do
      let element ← (← flatten (← compile none body) .plain).toTerm
      prependWith j.expr element next) : Counted whole := by
  intro next hn
  rw [h]
  have hend : (orEnd none).InOrder := ⟨le_rfl, le_rfl⟩
  -- The element is compiled for itself, so its code does not depend on what follows.
  have helement : Comes (compile none body) (Stops whole.Grouped (orEnd next).code.Closed)
      (Lengthened .atEnd 1) :=
    (hb none hend).mono (fun e he => he.mono hg fun _ => rfl) fun k hk => hk
  refine helement.bind fun k hk => ?_
  have hkept : k.kept = (1 : Nat) := hk.kept_eq
  have hflat : Comes (flatten (some k) .plain) (Stops whole.Grouped (orEnd next).code.Closed)
      Fragment.Closed := by
    change Comes (do pure (orDone (← flattenHead k.kept (some k) .plain)).code) _ _
    rw [hkept]
    refine (comes_flattenHead .plain (hk.inOrder hend) le_rfl (by omega)).bind ?_
    rintro _ ⟨flat, rfl, -, -, hclosed⟩
    exact comes_pure (hclosed (hk.closed rfl))
  refine hflat.bind fun code hcode => ?_
  refine (comes_toTerm code).bind fun element he => ?_
  exact comes_prependWith j hn (he hcode)

section
variable {bodies : List Body} {next : Option Continuation}

theorem comes_compileAll (h : ∀ b ∈ bodies, Counted b) (hn : (orEnd next).InOrder) :
    Comes (compileAll next bodies) (Stops (Body.GroupedAll bodies) (orEnd next).code.Closed)
      fun k => (bodies ≠ [] → k.isSome) ∧ Lengthened (orEnd next) bodies.length (orEnd k) := by
  induction bodies with
  | nil =>
    rw [compileAll]
    exact comes_pure ⟨fun hne => absurd rfl hne, hn.lengthened_nil⟩
  | cons body rest ih =>
    have hrest := ih fun b hb => h b (List.mem_cons_of_mem body hb)
    rw [compileAll]
    refine (hrest.mono (fun e he => he.mono And.right id) fun _ => id).bind ?_
    rintro k ⟨-, hk⟩
    have hbody := h body List.mem_cons_self k (hk.inOrder hn)
    -- Code that ends with a line still does after the rest is put in front of it.
    refine (hbody.mono (fun e he => he.mono And.left hk.closed) fun _ => id).bind fun k' hk' => ?_
    exact comes_pure ⟨fun _ => rfl, hk.trans hk' hn⟩

theorem comes_compileGroup (wrap : Wrap) (h : ∀ b ∈ bodies, Counted b)
    (hn : (orEnd next).InOrder) :
    Comes (compileGroup wrap next bodies)
      (Stops (bodies ≠ [] ∧ Body.GroupedAll bodies) (orEnd next).code.Closed)
      fun k => (k.captured, k.kept) = (orEnd next).groupCounts ∧ Lengthened (orEnd next) 1 k := by
  rw [compileGroup, group]
  split
  · rename_i hempty
    refine comes_throw (.emptyGroup ?_)
    exact fun hg => hg.1 (List.eq_nil_of_length_eq_zero hempty)
  · rename_i hlength
    have hne : bodies ≠ [] := fun hnil => hlength (hnil ▸ rfl)
    have hall := comes_compileAll h hn
    refine (hall.mono (fun e he => he.mono And.right id) fun _ => id).bind ?_
    rintro k ⟨hsome, hk⟩
    obtain ⟨k, rfl⟩ := Option.isSome_iff_exists.mp (hsome hne)
    change Lengthened (orEnd next) bodies.length k at hk
    have hkept := hk.kept_eq
    have hnonneg := hn.kept_nonneg
    refine (comes_flattenHead wrap (hk.inOrder hn) (by omega) (by omega)).bind ?_
    rintro _ ⟨flat, rfl, hflat, hcaptured, hclosed⟩
    have hcounts : (flat.captured, flat.kept) = (orEnd next).groupCounts := by
      unfold Continuation.groupCounts
      by_cases hpos : 0 < (orEnd next).kept
      · have hwas := hk.captured_eq hpos
        rw [if_pos (by omega)] at hcaptured
        rw [if_pos hpos]
        exact Prod.ext (by simp only; omega) (by simp only; omega)
      · rw [if_neg (by omega)] at hcaptured
        rw [if_neg hpos]
        exact Prod.ext hcaptured (by simp only; omega)
    exact comes_pure ⟨hcounts, .of_counts hn hcounts fun hc => hclosed (hk.closed hc)⟩

theorem grouped_elements {body : Body} :
    body.elements ≠ [] ∧ Body.GroupedAll body.elements ↔ body.Grouped := by
  cases body <;> simp [Body.elements, Body.Grouped, Body.GroupedAll]

/-- Every alternative comes to the same counts. -/
theorem comes_compileCase {body : Body} (h : ∀ e ∈ body.elements, Counted e) (index : Int)
    {next : Continuation} (hn : next.InOrder) :
    Comes (compileCase index (some next) body) (Stops body.Grouped next.code.Closed)
      fun k => (k.captured, k.kept) = next.groupCounts := by
  have hnext : (orEnd (some next)).InOrder := hn
  refine (comes_compileGroup (.case index) h hnext).mono (fun e he => ?_) fun k hk => hk.1
  exact he.mono grouped_elements.mpr id

theorem comes_agree {next k : Continuation} {counts : Option (Int × Int)}
    (hk : (k.captured, k.kept) = next.groupCounts) (hc : ∀ c ∈ counts, c = next.groupCounts)
    {stop : CodeError → Prop} : Comes (agree counts k) stop (· = next.groupCounts) := by
  cases counts with
  | none => exact comes_pure hk
  | some c =>
    obtain rfl := hc c rfl
    rw [agree, if_pos hk.symm]
    exact comes_pure rfl

theorem comes_compileCases (h : ∀ b ∈ bodies, ∀ e ∈ b.elements, Counted e) {number index : Nat}
    {next : Continuation} (hn : next.InOrder) {counts : Option (Int × Int)}
    (hc : ∀ c ∈ counts, c = next.groupCounts) :
    Comes (compileCases number index next counts bodies)
      (Stops (Body.GroupedAll bodies) next.code.Closed)
      fun cases => bodies ≠ [] → cases.1 ≠ [] ∧ cases.2 = some next.groupCounts := by
  have hall : Comes (compileCases number index next counts bodies)
      (Stops (Body.GroupedAll bodies) next.code.Closed)
      fun cases => cases.1.length = bodies.length ∧
        cases.2 = if bodies = [] then counts else some next.groupCounts := by
    induction bodies generalizing index counts with
    | nil =>
      rw [compileCases]
      exact comes_pure ⟨rfl, rfl⟩
    | cons body rest ih =>
      rw [compileCases_cons]
      have hcase := comes_compileCase (h body List.mem_cons_self) index hn
      refine (hcase.mono (fun e he => he.mono And.left id) fun _ => id).bind fun k hk => ?_
      refine (comes_agree hk hc).bind ?_
      rintro _ rfl
      -- The first alternative fixes the counts, which are those of every other one.
      have hagreed : ∀ c ∈ some next.groupCounts, c = next.groupCounts :=
        fun c hm => (Option.some.inj hm).symm
      have hrest : Comes (compileCases number (index + 1) next (some next.groupCounts) rest)
          (Stops (Body.GroupedAll rest) next.code.Closed) _ :=
        ih (fun b hb => h b (List.mem_cons_of_mem body hb)) hagreed
      refine (hrest.mono (fun e he => he.mono And.right id) fun _ => id).bind ?_
      rintro ⟨others, counts⟩ ⟨hlength, hcounts⟩
      refine comes_pure ⟨congrArg (· + 1) hlength, ?_⟩
      rw [if_neg (List.cons_ne_nil body rest), hcounts, ite_self]
  refine hall.mono (fun _ => id) fun cases hcases hne => ⟨?_, ?_⟩
  · exact List.ne_nil_of_length_pos (hcases.1 ▸ List.length_pos_of_ne_nil hne)
  · rw [hcases.2, if_neg hne]

theorem comes_alternatives {alternatives : List Alternative} (h : alternatives ≠ [])
    {stop : CodeError → Prop} : Comes (liftM (Block.alternatives alternatives)) stop
      fun _ => True := by
  obtain ⟨a, rest, rfl⟩ := List.exists_cons_of_ne_nil h
  obtain ⟨tries, htries, -⟩ := exists_firstOf (.ref a.1) (rest.map fun c => .ref c.1)
  rw [Block.alternatives, List.map_cons, htries]
  exact comes_pure trivial

theorem counted_choice (h : ∀ b ∈ bodies, ∀ e ∈ b.elements, Counted e) :
    Counted (.choice bodies) := by
  intro next hn
  rw [compile, choose]
  split
  · rename_i hempty
    refine comes_throw (.emptyGroup ?_)
    exact fun hg => hg.1 (List.eq_nil_of_length_eq_zero hempty)
  · rename_i hlength
    have hne : bodies ≠ [] := fun hnil => hlength (hnil ▸ rfl)
    refine comes_freshId.bind fun number _ => (comes_toTerm _).bind fun tail _ => ?_
    -- The alternatives are compiled in front of a name, which is a line.
    have hshared : ((orEnd next).called (.tail number)).InOrder := ⟨hn.1, hn.2⟩
    have hcases : Comes (compileCases number 0 ((orEnd next).called (.tail number)) none bodies)
        (Stops (Body.GroupedAll bodies) _) _ :=
      comes_compileCases h hshared fun c hm => by cases hm
    refine (hcases.mono (fun e he => he.mono And.right fun _ => rfl) fun _ => id).bind ?_
    rintro ⟨alternatives, counts⟩ hmade
    obtain ⟨hsome, rfl⟩ := hmade hne
    refine (comes_alternatives hsome).bind fun tries _ => ?_
    exact comes_pure (.of_counts hn rfl fun _ => trivial)

theorem counted_seq (h : ∀ b ∈ bodies, Counted b) : Counted (.seq bodies) := by
  intro next hn
  rw [compile]
  exact (comes_compileGroup .plain h hn).mono (fun e he => he) fun k hk => hk.2

end

/-- Every body puts one result of interest in front. -/
theorem counted (body : Body) : Counted body := by
  induction body using Body.induction_on_elements with
  | symbol name => exact counted_leaf (e := .rule name) rfl fun _ => by rw [compile]
  | literal text => exact counted_leaf (e := .leaf text) rfl fun _ => by rw [compile]
  | pattern text => exact counted_leaf (e := .leaf text) rfl fun _ => by rw [compile]
  | blank => exact counted_leaf (e := .success) rfl fun _ => by rw [compile]
  | star body ih => exact counted_repetition .star ih id fun _ => by rw [compile]; rfl
  | plus body ih => exact counted_repetition .plus ih id fun _ => by rw [compile]; rfl
  | choice bodies ih => exact counted_choice ih
  | seq bodies ih => exact counted_seq ih

end TreeGrammar.Code
