import Mathlib.Data.List.Basic
import TreeGrammar.Code.Transcript
import TreeGrammar.Proofs.Chains
import TreeGrammar.Proofs.Readable

/-!
What expressions come to. A name of the code is no constant, so it means what it is bound to in the
frames; an expression for a matcher comes to a function that is its matcher, in every frame in which
the names that it mentions are bound. A pattern takes a value apart and an expression for a result
puts the parts together, as values of their names.
-/
namespace TreeGrammar.Script

open Code

section
variable {ν : Type}

/-- A letter that names of variables start with, and no constant does. -/
def isInitial (c : Char) : Bool :=
  c = '_' || c = 'e' || c = 'n' || c = 'r' || c = 't'

theorem isInitial_cases {c : Char} (h : isInitial c) :
    c = '_' ∨ c = 'e' ∨ c = 'n' ∨ c = 'r' ∨ c = 't' := by
  simpa [isInitial, or_assoc] using h

theorem constant?_of_initial {word : String} (h : ∃ c ∈ word.toList.head?, isInitial c) :
    (constant? word : Option (Datum ν)) = none := by
  obtain ⟨c, hhead, hc⟩ := h
  obtain ⟨cs, hw⟩ := List.head?_eq_some_iff.mp hhead
  -- A number starts with a digit, a method with `self`, and the table has no such first letter.
  have hdigit : indexOf? word = none := by
    have hfirst : c.isDigit = false := by
      rcases isInitial_cases hc with rfl | rfl | rfl | rfl | rfl <;> rfl
    rw [indexOf?, hw, List.all_cons, hfirst]
    rfl
  have hrule : ruleOf? word = none := by
    have hfirst : ('s' == c) = false := by
      rcases isInitial_cases hc with rfl | rfl | rfl | rfl | rfl <;> rfl
    have hprefix : "self.parse_".toList.isPrefixOf word.toList = false := by
      have hstart : "self.parse_".toList = 's' :: "elf.parse_".toList := rfl
      rw [hw, hstart, List.isPrefixOf, hfirst, Bool.false_and]
    rw [ruleOf?, hprefix]
    rfl
  have houtside : (outside : List (String × Datum ν)).lookup word = none := by
    rw [List.lookup_eq_none_iff]
    intro entry hentry
    have hall : ∀ head ∈ (outside : List (String × Datum ν)).map (·.1.toList.head?),
        head.all (!isInitial ·) := by
      simp only [outside, List.map_cons, List.map_nil, List.forall_mem_cons]
      decide
    have hstart := hall _ (List.mem_map_of_mem hentry)
    rw [bne_iff_ne]
    rintro rfl
    rw [hhead, Option.all_some, hc] at hstart
    cases hstart
  rw [constant?, hdigit, hrule, houtside]
  rfl

theorem constant?_toString (n : Nat) :
    (constant? (toString n) : Option (Datum ν)) = some (.index n) := by
  have hall : (toString n).toList.all Char.isDigit = true := by
    rw [toList_toString, List.all_eq_true]
    exact fun c => Nat.isDigit_of_mem_toDigits (by decide) (by decide)
  have hne : (toString n).toList.isEmpty = false := by
    rw [toList_toString, List.isEmpty_eq_false_iff]
    exact Nat.toDigits_ne_nil
  have hindex : indexOf? (toString n) = some n := by
    rw [indexOf?, hall, hne, toList_toString]
    simp
  rw [constant?, hindex]
  rfl

theorem toList_method (name : String) : ("self." ++ methodName (.str name)).toList =
    "self.parse_".toList ++ name.toList := by
  have hstart : "self.parse_".toList = "self.".toList ++ "parse_".toList := rfl
  rw [methodName, Json.shown, String.toList_append, String.toList_append, hstart, List.append_assoc]

theorem ruleOf?_method (name : String) : ruleOf? ("self." ++ methodName (.str name)) = some name := by
  have hprefix : "self.parse_".toList.isPrefixOf ("self.parse_".toList ++ name.toList) = true :=
    List.isPrefixOf_iff_prefix.mpr (List.prefix_append _ _)
  rw [ruleOf?, toList_method, hprefix, List.drop_left, String.ofList_toList]
  rfl

theorem constant?_method (name : String) :
    (constant? ("self." ++ methodName (.str name)) : Option (Datum ν)) =
      some (.function (.rule (.str name))) := by
  have hdigit : indexOf? ("self." ++ methodName (.str name)) = none := by
    have hstart : "self.parse_".toList = 's' :: "elf.parse_".toList := rfl
    rw [indexOf?, toList_method, hstart, List.cons_append, List.all_cons]
    rfl
  rw [constant?, hdigit, ruleOf?_method]
  rfl

theorem head?_name (x : Local) : x.name.toList.head? = some '_' := by
  have hstart : "_parse_".toList = '_' :: "parse_".toList := rfl
  rw [Local.toList_name, hstart]
  rfl

theorem name_ne {word : String} (h : word.toList.head? ≠ some '_') (x : Local) : x.name ≠ word := by
  rintro rfl
  exact h (head?_name x)

theorem constant?_name (x : Local) : (constant? x.name : Option (Datum ν)) = none :=
  constant?_of_initial ⟨'_', head?_name x, rfl⟩

theorem head?_part (part : Part) : ∃ c, part.name.toList.head? = some c ∧ (c = 'e' ∨ c = 't') := by
  cases part with
  | element i =>
    have hname : (Part.element i).name.toList = 'e' :: (toString i).toList := by
      rw [Part.name, String.toList_append]
      rfl
    exact ⟨'e', by rw [hname]; rfl, .inl rfl⟩
  | tail => exact ⟨'t', rfl, .inr rfl⟩

theorem constant?_part (part : Part) : (constant? part.name : Option (Datum ν)) = none := by
  obtain ⟨c, hc, h⟩ := head?_part part
  exact constant?_of_initial ⟨c, hc, by rcases h with rfl | rfl <;> rfl⟩

theorem name_ne_part (x : Local) (part : Part) : x.name ≠ part.name := by
  obtain ⟨c, hc, h⟩ := head?_part part
  apply name_ne
  rw [hc]
  rcases h with rfl | rfl <;> decide

theorem part_name_injective : Function.Injective Part.name := by
  intro p q h
  have hlist := congrArg String.toList h
  cases p with
  | tail =>
    cases q with
    | tail => rfl
    | element j =>
      rw [Part.name, Part.name, String.toList_append] at hlist
      cases hlist
  | element i =>
    rw [Part.name, String.toList_append] at hlist
    cases q with
    | tail => cases hlist
    | element j =>
      rw [Part.name, String.toList_append] at hlist
      have hdigits := List.append_cancel_left hlist
      rw [toList_toString, toList_toString] at hdigits
      rw [toDigits_injective hdigits]

end

section
variable {m : Type → Type} [Monad m] [LawfulMonad m] [MonadExceptOf RunFault m] {ν : Type}
  {host : Host m ν} {least : Nat} {visible : List Local} {chain : Chain ν} {env : Env m ν}
  {call : Function → Matcher m ν}

omit [LawfulMonad m] in
theorem eval_constant {word : String} {d : Datum ν} (h : constant? word = some d) :
    (Phrase.name word).eval call chain = pure d := by
  rw [Phrase.eval, h]
  rfl

omit [LawfulMonad m] in
theorem eval_variable {word : String} {d : Datum ν}
    (hc : (constant? word : Option (Datum ν)) = none) (h : chain.lookUp word = some d) :
    (Phrase.name word).eval call chain = pure d := by
  rw [Phrase.eval, hc, h]
  rfl

/-- The application of something outside of all functions to two arguments. -/
theorem eval_call₂ {func : String} {p q : Phrase} {c a b : Datum ν} (hc : constant? func = some c)
    (hp : p.eval call chain = pure a) (hq : q.eval call chain = pure b) :
    (Phrase.call (.name func) [p, q]).eval call chain = c.apply call [a, b] := by
  rw [Phrase.eval, eval_constant hc]
  simp only [evalAll, hp, hq, pure_bind]

theorem eval_tuple₂ {p q : Phrase} {a b c : Datum ν} (hp : p.eval call chain = pure a)
    (hq : q.eval call chain = pure b) (hc : tupleOf [a, b] = some c) :
    (Phrase.tuple [p, q]).eval call chain = pure c := by
  simp only [Phrase.eval, evalAll, hp, hq, hc, orFault, pure_bind]

/-- The expression comes to a function, which is the matcher. -/
def Amounts (host : Host m ν) (least : Nat) (chain : Chain ν) (phrase : Phrase)
    (matcher : Matcher m ν) : Prop :=
  ∃ f, (∀ call : Function → Matcher m ν, phrase.eval call chain = pure (.function f)) ∧
    Denotes host least chain f matcher

theorem amounts_joined (j : Joint) {a b : Expr}
    (ha : Amounts host least chain a.phrase (a.meaning host env))
    (hb : Amounts host least chain b.phrase (b.meaning host env)) :
    Amounts host least chain (j.expr a b).phrase ((j.expr a b).meaning host env) := by
  obtain ⟨f, hf, hdf⟩ := ha
  obtain ⟨g, hg, hdg⟩ := hb
  refine ⟨joined j f g, fun call => ?_, ?_⟩
  · cases j with
    | seq => exact eval_call₂ (c := .combinator .seq) rfl (hf call) (hg call)
    | star => exact eval_call₂ (c := .combinator .star) rfl (hf call) (hg call)
    | plus => exact eval_call₂ (c := .combinator .plus) rfl (hf call) (hg call)
  · rw [j.joins.meaning]
    exact hdf.joined j hdg

/-- An expression whose names are bound comes to a function that is its matcher. -/
theorem amounts_meaning {e : Expr} (hr : e.Readable) (hn : e.names ⊆ visible)
    (hb : Binds host least visible chain env) :
    Amounts host least chain e.phrase (e.meaning host env) := by
  induction e with
  | success =>
    exact ⟨.success, fun _ => eval_constant rfl, denotes_of_matcher fun _ => rfl⟩
  | finish =>
    exact ⟨.finish, fun _ => eval_constant rfl, denotes_of_matcher fun _ => rfl⟩
  | ref name =>
    obtain ⟨f, a, hf, ha, hd⟩ := hb name (hn (List.mem_singleton_self name))
    refine ⟨f, fun _ => eval_variable (constant?_name name) hf, ?_⟩
    rw [Expr.meaning_ref host ha]
    exact hd
  | rule name =>
    obtain ⟨s, rfl, -⟩ := hr
    exact ⟨.rule (.str s), fun _ => eval_constant (constant?_method s),
      denotes_of_matcher fun _ => rfl⟩
  | leaf kind =>
    obtain ⟨s, rfl⟩ := hr
    refine ⟨.leaf (.str s), fun call => ?_, denotes_of_matcher fun _ => rfl⟩
    have hfunc : constant? "self._parse_leaf_rule" = some (.combinator .leaf : Datum ν) := rfl
    rw [Expr.phrase, Phrase.eval, eval_constant hfunc]
    simp only [evalAll, Phrase.eval, pure_bind]
    rfl
  | seq a b iha ihb =>
    exact amounts_joined .seq (iha hr.1 fun x hx => hn (List.mem_append_left _ hx))
      (ihb hr.2 fun x hx => hn (List.mem_append_right _ hx))
  | star a b iha ihb =>
    exact amounts_joined .star (iha hr.1 fun x hx => hn (List.mem_append_left _ hx))
      (ihb hr.2 fun x hx => hn (List.mem_append_right _ hx))
  | plus a b iha ihb =>
    exact amounts_joined .plus (iha hr.1 fun x hx => hn (List.mem_append_left _ hx))
      (ihb hr.2 fun x hx => hn (List.mem_append_right _ hx))
  | node kind children ih =>
    obtain ⟨⟨s, rfl⟩, hchildren⟩ := hr
    obtain ⟨f, hf, hd⟩ := ih hchildren hn
    have hkind (call : Function → Matcher m ν) :
        (Phrase.quoted s).eval call chain = pure (.value (.text s)) := by rw [Phrase.eval]
    refine ⟨.node (.str s) f, fun call => ?_, hd.node⟩
    exact eval_call₂ (c := .combinator .node) rfl (hkind call) (hf call)
  | given code => exact hr.elim

end

/-- The frames after the parts of a pattern are assigned. -/
def assignParts {ν : Type} (chain : Chain ν) (parts : Parts) : Chain ν :=
  parts.foldl (fun chain entry => chain.assign entry.1.name (.value entry.2)) chain

section
variable {ν : Type} {chain : Chain ν} {parts : Parts}

/-- A value is taken apart as the pattern says. -/
theorem unpack_pattern (chain : Chain ν) (pattern : Pattern) (v : Value) :
    unpack chain (.value v) pattern.phrase = (pattern.bind v).map (assignParts chain) := by
  induction pattern generalizing chain v with
  | unit =>
    cases v with
    | tuple vs => cases vs <;> rfl
    | _ => rfl
  | part part => rfl
  | pair first second ihf ihs =>
    cases v with
    | tuple vs =>
      -- A pair takes apart tuples of two values and no others.
      rcases vs with _ | ⟨a, _ | ⟨b, _ | ⟨c, vs⟩⟩⟩
      · rfl
      · change (unpack chain (.value a) first.phrase).bind (fun _ => none) = _
        rw [Option.bind_fun_none]
        rfl
      · change (unpack chain (.value a) first.phrase).bind (fun chain =>
          (unpack chain (.value b) second.phrase).bind some) = _
        simp only [Option.bind_fun_some, ihf, ihs, Pattern.bind]
        cases first.bind a with
        | none => rfl
        | some us =>
          cases second.bind b with
          | none => rfl
          | some ws => exact congrArg some (List.foldl_append ..).symm
      · change (unpack chain (.value a) first.phrase).bind (fun chain =>
          (unpack chain (.value b) second.phrase).bind fun _ => none) = _
        simp only [Option.bind_fun_none]
        rfl
    | _ => rfl

theorem keeps_assign_part (chain : Chain ν) (part : Part) (d : Datum ν) :
    chain.Keeps (chain.assign part.name d) :=
  Chain.keeps_assign fun x hx => absurd hx (name_ne_part x part)

theorem keeps_assignParts (chain : Chain ν) (parts : Parts) :
    chain.Keeps (assignParts chain parts) := by
  induction parts generalizing chain with
  | nil => exact Chain.keeps_refl chain
  | cons entry parts ih => exact (keeps_assign_part chain entry.1 _).trans (ih _)

theorem lookUp_assignParts_of_notMem {word : String} (h : ∀ entry ∈ parts, word ≠ entry.1.name) :
    (assignParts chain parts).lookUp word = chain.lookUp word := by
  induction parts generalizing chain with
  | nil => rfl
  | cons entry parts ih =>
    obtain ⟨hfirst, hrest⟩ := List.forall_mem_cons.mp h
    exact (ih hrest).trans (Chain.lookUp_assign_of_ne hfirst)

/-- Every part has its value then, as no name stands twice in a pattern. -/
theorem lookUp_assignParts (hn : (parts.map Prod.fst).Nodup)
    (hl : ∀ entry ∈ parts, entry.1.name ∈ chain.locals) {part : Part} {v : Value}
    (hm : (part, v) ∈ parts) : (assignParts chain parts).lookUp part.name = some (.value v) := by
  induction parts generalizing chain with
  | nil => cases hm
  | cons entry parts ih =>
    obtain ⟨hnew, hrest⟩ := List.nodup_cons.mp hn
    obtain ⟨hfirst, hlocals⟩ := List.forall_mem_cons.mp hl
    rcases List.mem_cons.mp hm with rfl | hm
    · have hother : ∀ entry ∈ parts, part.name ≠ entry.1.name := by
        intro other ho heq
        have hpart : part = other.1 := part_name_injective heq
        exact hnew (List.mem_map.mpr ⟨other, ho, hpart.symm⟩)
      exact (lookUp_assignParts_of_notMem hother).trans (Chain.lookUp_assign_self hfirst)
    · refine ih hrest (fun other ho => ?_) hm
      rw [Chain.locals_assign]
      exact hlocals other ho

theorem lookup_of_mem (hn : (parts.map Prod.fst).Nodup) {part : Part} {v : Value}
    (hm : (part, v) ∈ parts) : parts.lookup part = some v := by
  induction parts with
  | nil => cases hm
  | cons entry parts ih =>
    obtain ⟨hnew, hrest⟩ := List.nodup_cons.mp hn
    rcases List.mem_cons.mp hm with rfl | hm
    · exact List.lookup_cons_self
    · have hne : part ≠ entry.1 := fun heq => hnew (heq ▸ List.mem_map_of_mem hm)
      rw [List.lookup_cons, beq_eq_false_iff_ne.mpr hne]
      exact ih hrest hm

theorem parts_of_bind {pattern : Pattern} {v : Value} (h : pattern.bind v = some parts) :
    parts.map Prod.fst = pattern.parts := by
  induction pattern generalizing v parts with
  | unit =>
    cases v with
    | tuple vs =>
      cases vs <;> cases h
      rfl
    | _ => cases h
  | part part =>
    cases h
    rfl
  | pair first second ihf ihs =>
    cases v with
    | tuple vs =>
      match vs, h with
      | [a, b], h =>
        obtain ⟨us, hus, hrest⟩ := Option.bind_eq_some_iff.mp h
        obtain ⟨ws, hws, hpure⟩ := Option.bind_eq_some_iff.mp hrest
        cases hpure
        rw [List.map_append, ihf hus, ihs hws]
        rfl
    | _ => cases h

theorem tupleOf_values (vs : List Value) :
    tupleOf (vs.map .value) = some (.value (.tuple vs) : Datum ν) := by
  have hall : (vs.map fun v => (.value v : Datum ν)).mapM Datum.value? = some vs := by
    induction vs with
    | nil => rfl
    | cons v vs ih =>
      rw [List.map_cons, List.mapM_cons, ih]
      rfl
  -- Two parts may be a value and nodes, which these are not.
  rcases vs with _ | ⟨a, _ | ⟨b, _ | ⟨c, vs⟩⟩⟩
  · rfl
  · rfl
  · rfl
  · change Option.map _ (((a :: b :: c :: vs).map Datum.value).mapM Datum.value?) = _
    rw [hall]
    rfl

end

section
variable {m : Type → Type} [Monad m] [LawfulMonad m] [MonadExceptOf RunFault m] {ν : Type}
  {chain : Chain ν} {parts : Parts} {call : Function → Matcher m ν}

/-- The parts of an expression have values, to which their names are bound. -/
def Known (chain : Chain ν) (parts : Parts) (used : List Part) : Prop :=
  ∀ part ∈ used, ∃ v, parts.lookup part = some v ∧ chain.lookUp part.name = some (.value v)

theorem eval_parts (call : Function → Matcher m ν) {used : List Part}
    (h : Known chain parts used) : ∃ vs, used.mapM (fun part => parts.lookup part) = some vs ∧
      evalAll call chain (used.map Part.phrase) = pure (vs.map .value) := by
  induction used with
  | nil => exact ⟨[], rfl, by rw [List.map_nil, evalAll, List.map_nil]⟩
  | cons part used ih =>
    obtain ⟨hpart, hused⟩ := List.forall_mem_cons.mp h
    obtain ⟨v, hv, hlook⟩ := hpart
    obtain ⟨vs, hvs, heval⟩ := ih hused
    have hfirst : part.phrase.eval call chain = pure (.value v) :=
      eval_variable (constant?_part part) hlook
    refine ⟨v :: vs, by rw [List.mapM_cons, hv, hvs]; rfl, ?_⟩
    simp only [List.map_cons, evalAll, hfirst, heval, pure_bind]

/-- A mark around an expression comes to the marked value. -/
theorem eval_wrapped (around : Around) {wrap : Wrap} (hw : wrap.Readable) {phrase : Phrase}
    {v : Value} (h : phrase.eval call chain = pure (.value v)) :
    ∃ w, wrap.value around v = some w ∧
      (wrap.phrase phrase).eval call chain = pure (.value w) := by
  cases wrap with
  | plain => exact ⟨v, rfl, h⟩
  | case index =>
    obtain ⟨n, rfl⟩ := Int.eq_ofNat_of_zero_le hw
    have hindex : (Phrase.name (toString n)).eval call chain = pure (.index n) :=
      eval_constant (constant?_toString n)
    exact ⟨.case n v, rfl, eval_call₂ (c := .combinator .mark) rfl hindex h⟩
  | around before after => exact hw.elim

/-- The expression for a result comes to its value. -/
theorem eval_result (call : Function → Matcher m ν) (around : Around) {result : Regrouped}
    (hr : result.Readable) (h : Known chain parts result.parts) :
    ∃ v, result.value around parts = some v ∧
      result.phrase.eval call chain = pure (.value v) := by
  induction result with
  | unit =>
    refine ⟨.unit, rfl, ?_⟩
    simp only [Regrouped.phrase, Phrase.eval, evalAll, pure_bind]
    rfl
  | part part =>
    obtain ⟨v, hv, hlook⟩ := h part (List.mem_singleton_self part)
    exact ⟨v, hv, eval_variable (constant?_part part) hlook⟩
  | tuple used =>
    have hused : Known chain parts used := h
    obtain ⟨vs, hvs, heval⟩ := eval_parts call hused
    refine ⟨.tuple vs, by rw [Regrouped.value, hvs]; rfl, ?_⟩
    rw [Regrouped.phrase, Phrase.eval, heval, pure_bind, tupleOf_values]
    rfl
  | wrapped wrap inner ih =>
    obtain ⟨v, hv, heval⟩ := ih hr.2 h
    obtain ⟨w, hw, hwrapped⟩ := eval_wrapped around hr.1 heval
    refine ⟨w, ?_, hwrapped⟩
    rw [Regrouped.value, hv]
    exact hw
  | pair first second ihf ihs =>
    obtain ⟨v, hv, hevalv⟩ := ihf hr.1 fun part hp => h part (List.mem_append_left _ hp)
    obtain ⟨w, hw, hevalw⟩ := ihs hr.2 fun part hp => h part (List.mem_append_right _ hp)
    refine ⟨.pair v w, by rw [Regrouped.value, hv, hw]; rfl, ?_⟩
    exact eval_tuple₂ hevalv hevalw rfl

end

end TreeGrammar.Script
