import Mathlib.Data.Vector.Basic
import TreeGrammar.Proofs.Evaluation
import TreeGrammar.Proofs.Expressions
import TreeGrammar.Proofs.Gaps
import TreeGrammar.Proofs.Growth

/-!
The first results of a sequence taken together, whatever the wrap is that stands for a function of
values. The regrouped matcher returns what the matcher before returns with its first values taken
together, after the same nodes. No code is made for that only where the values stay as they are.
-/
namespace TreeGrammar.Code

open Continuation (flattenHead regroup orDone)
open Script

/-- A wrap stands for a function of values. Where it adds no text it leaves them as they are, and it
is none that writes down a pair with the rest of the results, which is no matter of the value. -/
structure Wrap.Stands (around : Around) (wrap : Wrap) (f : Value → Value) : Prop where
  value : ∀ v, wrap.value around v = some (f v)
  bare : wrap.before = "" → wrap.after = "" → ∀ v, f v = v
  apart : ¬ (wrap.before = "(" ∧ wrap.after = ", tail)")

/-- The wraps of the compiler stand for its marks. -/
theorem Wrap.stands_mark {wrap : Wrap} (h : wrap.IsOwn) (around : Around) :
    wrap.Stands around wrap.mark := by
  refine ⟨fun v => Wrap.value_eq_mark h around v, fun hb _ v => ?_, fun ⟨hb, _⟩ => ?_⟩
  · cases wrap with
    | plain => rfl
    | case index =>
      have hlength := congrArg String.length hb
      simp [Wrap.before] at hlength
    | around before after => cases h
  · cases wrap with
    | plain => exact absurd hb (by decide)
    | case index =>
      have hchars := congrArg String.toList hb
      simp [Wrap.before, String.toList_append] at hchars
    | around before after => cases h

/-- The values that are left when the first `count` are taken together, of which `kept` were of
interest: the others are dropped unless one of interest follows. -/
def headValues (f : Value → Value) (count kept : Nat) (vs : List Value) : List Value :=
  f (.tupled (vs.take count)) :: if count < kept then vs.drop count else []

theorem length_headValues (f : Value → Value) (count kept : Nat) (vs : List Value) :
    (headValues f count kept vs).length = widthTaken count kept vs.length := by
  unfold headValues widthTaken
  split <;> simp

section
variable {around : Around} {wrap : Wrap} {f : Value → Value} {count kept : Nat} {vs : List Value}

theorem nested_headValues (hk : kept ≤ vs.length) : Value.nested (headValues f count kept vs) =
    if count < kept then .pair (f (.tupled (vs.take count))) (.nested (vs.drop count))
    else f (.tupled (vs.take count)) := by
  unfold headValues
  split
  · have hdrop : vs.drop count ≠ [] := List.ne_nil_of_length_pos (by rw [List.length_drop]; omega)
    exact Value.nested_cons _ hdrop
  · rfl

/-- What the pattern takes apart the result puts together as it should. -/
theorem regrouped_eq {m : Type → Type} [Monad m] [MonadExceptOf RunFault m]
    (hf : wrap.Stands around f) (hc : 1 ≤ count) (hle : count ≤ kept) (hk : kept ≤ vs.length) :
    (regrouped around (headPattern count (count < vs.length)) (headResult count (count < kept) wrap)
      (.nested vs) : m Value) = pure (.nested (headValues f count kept vs)) := by
  have htake : (vs.take count).length = count := by
    rw [List.length_take]
    omega
  have hne : vs.take count ≠ [] := List.ne_nil_of_length_pos (by omega)
  have hbind := bind_headPattern (vs.drop count) (decide (count < kept)) hne
    (hf.value (.tupled (vs.take count))) fun hmore =>
      List.ne_nil_of_length_pos (by rw [List.length_drop]; have := of_decide_eq_true hmore; omega)
  have hpos : (0 < (vs.drop count).length) = (count < vs.length) := by
    rw [List.length_drop]
    exact propext (by omega)
  rw [List.take_append_drop, htake] at hbind
  simp only [hpos] at hbind
  rw [regrouped, hbind, nested_headValues hk]
  simp only [decide_eq_true_eq]

/-- Where pattern and result have one text the values are together already. -/
theorem nested_headValues_of_text (hf : wrap.Stands around f) (hc : 1 ≤ count) (hle : count ≤ kept)
    (hk : kept ≤ vs.length) (h : (headPattern count (count < vs.length)).text =
      (headResult count (count < kept) wrap).text) :
    Value.nested (headValues f count kept vs) = .nested vs := by
  have hmore : decide (count < kept) → decide (count < vs.length) := by
    simp only [decide_eq_true_eq]
    omega
  rw [nested_headValues hk]
  rcases same_text hc hmore h with ⟨hbefore, hafter, hcases⟩ | ⟨hbefore, hafter, -⟩
  · rw [hf.bare hbefore hafter]
    simp only [decide_eq_decide, decide_eq_false_iff_not] at hcases
    rcases hcases with ⟨rfl, hiff⟩ | ⟨rfl, hlast, hfew⟩
    · -- A single value is left alone, in front of what follows.
      obtain ⟨v, ws, rfl⟩ := List.exists_cons_of_length_pos (show 0 < vs.length by omega)
      split
      · rename_i hlt
        have hws : ws ≠ [] := List.ne_nil_of_length_pos (by have := hiff.mp hlt; simpa using this)
        exact (Value.nested_cons v hws).symm
      · rename_i hlt
        have hws : ws = [] := List.eq_nil_of_length_eq_zero (by simpa using mt hiff.mpr hlt)
        rw [hws]
        rfl
    · -- Two values that nothing follows are the pair that they are.
      obtain ⟨v, w, rfl⟩ := List.length_eq_two.mp (show vs.length = 2 by omega)
      rw [if_neg hfew]
      rfl
  · exact absurd ⟨hbefore, hafter⟩ hf.apart

end

section
variable {m : Type → Type} [Monad m] [LawfulMonad m] [MonadExceptOf RunFault m] {ν : Type}
  {chain : Chain ν} {parts : Parts}

/-- Read as an expression, a pattern comes to the value that it takes apart. -/
theorem eval_pattern (call : Function → Matcher m ν) {pattern : Pattern} {v : Value}
    (hb : pattern.bind v = some parts)
    (hl : ∀ entry ∈ parts, chain.lookUp entry.1.name = some (.value entry.2)) :
    pattern.phrase.eval call chain = pure (.value v) := by
  induction pattern generalizing v parts with
  | unit =>
    cases v with
    | tuple vs =>
      cases vs <;> cases hb
      simp only [Pattern.phrase, Phrase.eval, evalAll, pure_bind]
      rfl
    | _ => cases hb
  | part part =>
    cases hb
    exact eval_variable (constant?_part part) (hl _ List.mem_cons_self)
  | pair first second ihf ihs =>
    cases v with
    | tuple vs =>
      -- Only a tuple of two values is taken apart.
      rcases vs with _ | ⟨a, _ | ⟨b, _ | ⟨c, vs⟩⟩⟩
      · cases hb
      · cases hb
      · obtain ⟨us, hus, hrest⟩ := Option.bind_eq_some_iff.mp hb
        obtain ⟨ws, hws, hpure⟩ := Option.bind_eq_some_iff.mp hrest
        cases hpure
        obtain ⟨hfirst, hsecond⟩ := List.forall_mem_append.mp hl
        exact eval_tuple₂ (ihf hus hfirst) (ihs hws hsecond) rfl
      · cases hb
    | _ => cases hb

end

/-- Text that is read as an expression for the value that a pattern has taken apart. -/
def Pattern.Restored (pattern : Pattern) (text : String) : Prop :=
  ∃ phrase, ReadAs [.line text] phrase ∧
    ∀ {m : Type → Type} [Monad m] [LawfulMonad m] [MonadExceptOf RunFault m] {ν : Type}
      (call : Function → Matcher m ν) (chain chain' : Chain ν) (v : Value),
      (∀ part ∈ pattern.parts, part.name ∈ chain.locals) →
        unpack chain (.value v) pattern.phrase = some chain' →
          phrase.eval call chain' = pure (.value v)

theorem Pattern.restored_text {pattern : Pattern} (hn : pattern.parts.Nodup) :
    pattern.Restored pattern.text := by
  refine ⟨pattern.phrase, pattern.readAs, ?_⟩
  intro m _ _ _ ν call chain chain' v hlocals hunpack
  rw [unpack_pattern] at hunpack
  obtain ⟨parts, hbind, rfl⟩ := Option.map_eq_some_iff.mp hunpack
  have hparts := parts_of_bind hbind
  apply eval_pattern call hbind
  intro entry hentry
  refine lookUp_assignParts (hparts ▸ hn) (fun other ho => ?_) hentry
  exact hlocals other.1 (hparts ▸ List.mem_map_of_mem ho)

/-- Taking results together makes the code for it, with the counts of what is left. -/
theorem makes_flattenHead {next : Continuation} {count kept captured : Nat} {wrap : Wrap}
    {n l : Nat} {code : Fragment} (hk : next.kept = kept) (hw : next.captured = captured)
    (hc : 1 ≤ count) (hle : count ≤ kept) (hkc : kept ≤ captured)
    (h : Makes (regroup count next wrap) n code l) :
    Makes (flattenHead count (some next) wrap) n
      (some ⟨widthTaken count kept captured, (kept - count + 1 : Nat), code⟩) l := by
  have hcounts : 0 ≤ (count : Int) ∧ (count : Int) ≤ (orDone (some next)).kept ∧
      (orDone (some next)).kept ≤ (orDone (some next)).captured := by
    change 0 ≤ (count : Int) ∧ (count : Int) ≤ next.kept ∧ next.kept ≤ next.captured
    omega
  have hne : ¬ (count : Int) = 0 := by omega
  rw [flattenHead, if_pos hcounts, if_neg hne]
  refine makes_bind h ?_
  change Makes (if (count : Int) < next.kept then _ else _) l _ l
  by_cases hlt : count < kept
  · rw [if_pos (by omega), widthTaken, if_pos hlt]
    have hwidth : next.captured - count + 1 = (captured - count + 1 : Nat) := by omega
    have hrest : next.kept - count + 1 = (kept - count + 1 : Nat) := by omega
    rw [← hwidth, ← hrest]
    exact makes_pure _ l
  · rw [if_neg (by omega), widthTaken, if_neg hlt]
    obtain rfl : count = kept := by omega
    rw [Nat.sub_self]
    exact makes_pure _ l

/-- A matcher whose value is taken apart and put together anew. -/
theorem meaning_regroup {m : Type → Type} [Monad m] [LawfulMonad m] [MonadExceptOf RunFault m]
    {ν : Type} (host : Host m ν) (env : Env m ν) {t : Term} {pattern : Pattern} {result : Regrouped}
    {β : Type} {lists : List ν → m (Option (β × List ν))} {value value' : β → Value}
    (hm : ∀ nodes, t.meaning host env nodes =
      Option.map (Prod.map value id) <$> lists nodes)
    (hv : ∀ b, (regrouped host.around pattern result (value b) : m Value) = pure (value' b))
    (nodes : List ν) :
    (Fragment.block ((Block.regroup t.expr pattern result).after t.defs)).meaning host env nodes =
      Option.map (Prod.map value' id) <$> lists nodes := by
  rw [Fragment.meaning, Fragment.toBlock, Block.meaning_after]
  change (t.meaning host env nodes >>= _) = _
  rw [hm nodes, map_eq_pure_bind, map_eq_pure_bind, bind_assoc]
  congr 1
  funext found
  rw [pure_bind]
  cases found with
  | none => rfl
  | some found =>
    have hvalue := hv found.1
    change (regrouped host.around pattern result (value found.1) >>= fun w =>
      pure (some (w, found.2))) = _
    rw [hvalue, pure_bind]
    rfl

/-- Taking the first `count` results together regroups the values and changes nothing else: the
matcher that is made fails where the one before fails and leaves the same nodes, and it returns what
the wrap makes of the tuple of the first values, with the others after it if one of interest is
among them. The counts are those of the values that are left. No code is made only where the text of
the result, whatever a wrap adds to it, is an expression for the value that there is already. -/
theorem flattenHead_regroups {next : Continuation} {count kept captured : Nat}
    (hk : next.kept = kept) (hw : next.captured = captured) (hc : 1 ≤ count) (hle : count ≤ kept)
    (hkc : kept ≤ captured) (wrap : Wrap) (n : Nat) :
    ∃ flat l, Makes (flattenHead count (some next) wrap) n (some flat) l ∧
      flat.kept = (kept - count + 1 : Nat) ∧
      (∀ f (vs : List.Vector Value captured),
        flat.captured = (headValues f count kept vs.toList).length) ∧
      (∀ {m : Type → Type} [Monad m] [LawfulMonad m] [MonadExceptOf RunFault m] {ν : Type}
        (host : Host m ν) (env : Env m ν) (f : Value → Value), wrap.Stands host.around f →
        ∀ lists : List ν → m (Option (List.Vector Value captured × List ν)),
          (∀ nodes, next.code.meaning host env nodes =
            Option.map (Prod.map (fun vs => .nested vs.toList) id) <$> lists nodes) →
          ∀ nodes, flat.code.meaning host env nodes =
            Option.map (Prod.map (fun vs => .nested (headValues f count kept vs.toList)) id) <$>
              lists nodes) ∧
      ∃ pattern result, nestedPairs count next.captured = .ok pattern ∧
        flatTuple count next.kept wrap = .ok result ∧
        (pattern.text = result.text → flat.code = next.code ∧ l = n ∧
          pattern.Restored result.text ∧
          ∀ around f, wrap.Stands around f → ∀ vs : List.Vector Value captured,
            Value.nested (headValues f count kept vs.toList) = .nested vs.toList) := by
  have hpattern := nestedPairs_eq hc (hle.trans hkc)
  have hresult := flatTuple_eq hc hle wrap
  rw [← hw] at hpattern
  rw [← hk] at hresult
  have hlength (f : Value → Value) (vs : List.Vector Value captured) :
      widthTaken count kept captured = (headValues f count kept vs.toList).length := by
    rw [length_headValues, vs.toList_length]
  by_cases htext : (headPattern count (count < captured)).text =
      (headResult count (count < kept) wrap).text
  · -- The values are together already, so the code stays.
    have htogether (around : Around) (f : Value → Value) (hf : wrap.Stands around f)
        (vs : List.Vector Value captured) :
        Value.nested (headValues f count kept vs.toList) = .nested vs.toList :=
      nested_headValues_of_text hf hc hle (by rwa [vs.toList_length])
        (by rwa [vs.toList_length])
    have hmake : Makes (regroup count next wrap) n next.code n := by
      refine makes_bind (makes_lift hpattern n) (makes_bind (makes_lift hresult n) ?_)
      rw [if_pos htext]
      exact makes_pure _ n
    refine ⟨_, n, makes_flattenHead hk hw hc hle hkc hmake, rfl,
      fun f vs => congrArg Nat.cast (hlength f vs), ?_, _, _, hpattern, hresult,
      fun _ => ⟨rfl, rfl, ?_, htogether⟩⟩
    · intro m _ _ _ ν host env f hf lists hlists nodes
      rw [hlists nodes]
      simp only [htogether host.around f hf]
    · rw [← htext]
      exact Pattern.restored_text (nodup_headPattern hc _)
  · obtain ⟨t, l, hterm, ht⟩ := exists_termed next.code n
    have hmake : Makes (regroup count next wrap) n (.block ((Block.regroup t.expr
        (headPattern count (count < captured))
        (headResult count (count < kept) wrap)).after t.defs)) l := by
      refine makes_bind (makes_lift hpattern n) (makes_bind (makes_lift hresult n) ?_)
      rw [if_neg htext]
      exact makes_bind hterm (makes_pure _ l)
    refine ⟨_, l, makes_flattenHead hk hw hc hle hkc hmake, rfl,
      fun f vs => congrArg Nat.cast (hlength f vs), ?_, _, _, hpattern, hresult,
      fun h => absurd h htext⟩
    intro m _ _ _ ν host env f hf lists hlists nodes
    have hterms (nodes : List ν) : t.meaning host env nodes =
        Option.map (Prod.map (fun vs => .nested vs.toList) id) <$> lists nodes := by
      rw [ht.meaning host env, hlists nodes]
    have hvalues (vs : List.Vector Value captured) :
        (regrouped host.around (headPattern count (count < captured))
          (headResult count (count < kept) wrap) (.nested vs.toList) : m Value) =
          pure (.nested (headValues f count kept vs.toList)) := by
      have hvs : kept ≤ vs.toList.length := by rwa [vs.toList_length]
      have hregroup : (regrouped host.around _ _ _ : m Value) = _ := regrouped_eq hf hc hle hvs
      rwa [vs.toList_length] at hregroup
    exact meaning_regroup host env hterms hvalues nodes

/-- Two results of interest before the end, which is a third one. -/
def twoBeforeEnd : Continuation :=
  ⟨3, 2, .ofExpr (.seq .success (.seq .success .finish))⟩

theorem twoBeforeEnd_first_marked :
    ∃ flat l, Makes (flattenHead 1 (some twoBeforeEnd) (.case 4)) 0 (some flat) l ∧
      flat.kept = 2 ∧ flat.captured = 3 ∧ ∀ host : Host (Except RunFault) Nat,
        flat.code.meaning host .empty [] =
          .ok (some (.pair (.case 4 .unit) (.pair .unit .unit), [])) ∧
        flat.code.meaning host .empty [7] = .ok none := by
  obtain ⟨flat, l, hmake, hkept, hcaptured, hmeaning, -⟩ :=
    flattenHead_regroups (show twoBeforeEnd.kept = (2 : Nat) from rfl)
      (show twoBeforeEnd.captured = (3 : Nat) from rfl) (show 1 ≤ 1 from le_rfl) (by decide)
      (by decide) (.case 4) 0
  refine ⟨flat, l, hmake, hkept, hcaptured id ⟨[.unit, .unit, .unit], rfl⟩, fun host => ?_⟩
  have hown : (Wrap.case 4).IsOwn := trivial
  have hstands := Wrap.stands_mark hown host.around
  have hlists : ∀ nodes : List Nat, twoBeforeEnd.code.meaning host .empty nodes =
      Option.map (Prod.map (fun vs : List.Vector Value 3 => .nested vs.toList) id) <$>
        (pure (if nodes = [] then some (⟨[.unit, .unit, .unit], rfl⟩, []) else none) :
          Except RunFault _) := by
    intro nodes
    cases nodes with
    | nil => rfl
    | cons node rest => rfl
  have h := hmeaning host .empty _ hstands _ hlists
  exact ⟨h [], h [7]⟩

end TreeGrammar.Code
