import Mathlib.Data.List.Basic
import TreeGrammar.Proofs.Execution
import TreeGrammar.Proofs.Expressions

/-!
The pattern for nested pairs and the expression for a flat tuple belong together: what the one binds
the other puts together, in whatever language the texts are read in and whatever function of texts
the wrap is, and it uses no other variables. A language is only asked to know names and tuples; the
expressions of the generated code are one.
-/
namespace TreeGrammar

namespace Script

/-- An expression as text, the variables that it uses and what it comes to. -/
structure Reckoned (ν : Type) where
  text : String
  uses : List String
  datum : Datum ν

/-- What texts come to as expressions in the frames around them. A variable comes to what it is
bound to, and some expressions between parentheses to the tuple of what they come to. -/
structure Semantics (ν : Type) where
  Comes : Chain ν → Reckoned ν → Prop
  bound : ∀ {chain : Chain ν} {word : String} {d : Datum ν}, Spells word [.word word] →
    (constant? word : Option (Datum ν)) = none → chain.lookUp word = some d →
    Comes chain ⟨word, [word], d⟩
  joined : ∀ {chain : Chain ν} {parts : List (Reckoned ν)} {d : Datum ν}, parts.length ≠ 1 →
    (∀ part ∈ parts, Comes chain part) → tupleOf (parts.map Reckoned.datum) = some d →
    Comes chain ⟨"(" ++ ", ".intercalate (parts.map Reckoned.text) ++ ")",
      parts.flatMap Reckoned.uses, d⟩

/-- Whatever expression for the first value it is given, the wrap makes one for the second value
that uses no further variables. -/
def Semantics.Turns {ν : Type} (semantics : Semantics ν) (wrap : String → String)
    (v w : Value) : Prop :=
  ∀ (chain : Chain ν) (text : String) (uses : List String),
    semantics.Comes chain ⟨text, uses, .value v⟩ →
      ∃ used ⊆ uses, semantics.Comes chain ⟨wrap text, used, .value w⟩

/-- The words of an expression. -/
def Phrase.words : Phrase → List String
  | .name word => [word]
  | .quoted _ => []
  | .call func args => func.words ++ wordsOf args
  | .tuple parts => wordsOf parts
where
  wordsOf : List Phrase → List String
    | [] => []
    | part :: rest => part.words ++ wordsOf rest

/-- The words of an expression that are no constants. -/
def Phrase.variables (ν : Type) (phrase : Phrase) : List String :=
  phrase.words.filter fun word => (constant? word : Option (Datum ν)).isNone

end Script

namespace Code

open Script

section
variable {m : Type → Type} [Monad m] [LawfulMonad m] [MonadExceptOf RunFault m] {ν : Type}

/-- The text is read as an expression with these variables, which comes to the datum. -/
def ReadsTo (call : Function → Matcher m ν) (chain : Chain ν) (e : Reckoned ν) : Prop :=
  ∃ phrase, ReadAs [.line e.text] phrase ∧ phrase.variables ν = e.uses ∧
    phrase.eval call chain = pure e.datum

theorem exists_phrases {call : Function → Matcher m ν} {chain : Chain ν}
    {parts : List (Reckoned ν)} (h : ∀ part ∈ parts, ReadsTo call chain part) :
    ∃ phrases : List Phrase,
      List.Forall₂ ReadAs ((parts.map Reckoned.text).map fun text => [.line text]) phrases ∧
      (Phrase.words.wordsOf phrases).filter
        (fun word => (constant? word : Option (Datum ν)).isNone) =
          parts.flatMap Reckoned.uses ∧
      evalAll call chain phrases = pure (parts.map Reckoned.datum) := by
  induction parts with
  | nil => exact ⟨[], .nil, rfl, by rw [evalAll, List.map_nil]⟩
  | cons part parts ih =>
    obtain ⟨hpart, hparts⟩ := List.forall_mem_cons.mp h
    obtain ⟨phrase, hread, huses, heval⟩ := hpart
    obtain ⟨phrases, hreads, hwords, hevals⟩ := ih hparts
    refine ⟨phrase :: phrases, .cons hread hreads, ?_, ?_⟩
    · rw [Phrase.words.wordsOf, List.filter_append, hwords, List.flatMap_cons, ← huses]
      rfl
    · simp only [evalAll, heval, hevals, pure_bind, List.map_cons]

/-- The expressions of the generated code, where functions do what `call` says. -/
def readSemantics (call : Function → Matcher m ν) : Semantics ν where
  Comes := ReadsTo call
  bound := by
    intro chain word d hspells hconstant hbound
    refine ⟨.name word, readAs_word hspells, ?_, eval_variable hconstant hbound⟩
    rw [Phrase.variables, Phrase.words, List.filter_singleton, hconstant]
    rfl
  joined := by
    intro chain parts d hlength hparts htuple
    obtain ⟨phrases, hreads, hwords, hevals⟩ := exists_phrases hparts
    have hsize : phrases.length = parts.length := by simpa using hreads.length_eq.symm
    refine ⟨.tuple phrases, readAs_tuple (by rwa [hsize]) hreads, hwords, ?_⟩
    rw [Phrase.eval, hevals, pure_bind, htuple]
    rfl

theorem variables_wrapped {wrap : Wrap} (hw : wrap.Readable) (phrase : Phrase) :
    (wrap.phrase phrase).variables ν = phrase.variables ν := by
  cases wrap with
  | plain => rfl
  | case index =>
    obtain ⟨n, rfl⟩ := Int.eq_ofNat_of_zero_le hw
    have hindex : (constant? (toString (n : Int)) : Option (Datum ν)) = some (.index n) :=
      constant?_toString n
    have hmark : (constant? "combine.Case" : Option (Datum ν)) = some (.combinator .mark) := rfl
    simp only [Wrap.phrase, Phrase.variables, Phrase.words, Phrase.words.wordsOf, List.cons_append,
      List.nil_append, List.append_nil, List.filter_cons, hmark, hindex, Option.isNone_some,
      Bool.false_eq_true, if_false]
  | around before after => exact hw.elim

/-- The wraps of the compiler make the values that they stand for. -/
theorem turns_wrap {around : Around} {wrap : Wrap} (hw : wrap.Readable)
    (call : Function → Matcher m ν) {v w : Value} (h : wrap.value around v = some w) :
    (readSemantics call).Turns wrap.text v w := by
  intro chain text uses hcomes
  obtain ⟨phrase, hread, huses, heval⟩ := hcomes
  obtain ⟨w', hvalue, hwrapped⟩ := eval_wrapped around hw heval
  obtain rfl := Option.some.inj (hvalue.symm.trans h)
  have hvariables := (variables_wrapped (ν := ν) hw phrase).trans huses
  exact ⟨uses, List.Subset.refl uses, wrap.phrase phrase, Wrap.readAs hw hread, hvariables,
    hwrapped⟩

end

section
variable {ν : Type}

theorem fst_elementParts (first : Nat) (vs : List Value) :
    (elementParts first vs).map Prod.fst = (List.range' first vs.length).map .element := by
  induction vs generalizing first with
  | nil => rfl
  | cons v vs ih =>
    rw [elementParts, List.map_cons, ih, List.length_cons, List.range'_succ, List.map_cons]

theorem snd_elementParts (first : Nat) (vs : List Value) :
    (elementParts first vs).map Prod.snd = vs := by
  induction vs generalizing first with
  | nil => rfl
  | cons v vs ih => rw [elementParts, List.map_cons, ih]

theorem mem_elementParts (first i : Nat) (vs : List Value) (h : i < vs.length) :
    (Part.element (first + i), vs[i]) ∈ elementParts first vs := by
  induction vs generalizing first i with
  | nil => cases h
  | cons v vs ih =>
    cases i with
    | zero => exact List.mem_cons_self
    | succ i =>
      have hrest := ih (first + 1) i (Nat.lt_of_succ_lt_succ h)
      rw [show first + 1 + i = first + (i + 1) by omega] at hrest
      exact List.mem_cons_of_mem _ hrest

/-- The parts are bound to their values. -/
def HasParts (chain : Chain ν) (parts : Parts) : Prop :=
  ∀ entry ∈ parts, chain.lookUp entry.1.name = some (.value entry.2)

/-- A frame in which the names of the pattern are local takes some nested values apart. -/
theorem unpack_nested {count : Nat} {vs : List Value} (hc : 1 ≤ count) (hle : count ≤ vs.length)
    (chain : Chain ν)
    (hl : ∀ word ∈ (headPattern count (count < vs.length)).phrase.targets, word ∈ chain.locals) :
    ∃ chain', unpack chain (.value (.nested vs)) (headPattern count (count < vs.length)).phrase =
      some chain' ∧ HasParts chain' (headParts count vs) := by
  have hbind := bind_nested hc hle
  have hparts := parts_of_bind hbind
  refine ⟨assignParts chain (headParts count vs), ?_, fun entry hentry => ?_⟩
  · rw [unpack_pattern, hbind]
    rfl
  · refine lookUp_assignParts ?_ (fun other hother => ?_) hentry
    · rw [hparts]
      exact nodup_headPattern hc _
    · apply hl
      rw [Pattern.targets_phrase, ← hparts]
      exact List.mem_map_of_mem (List.mem_map_of_mem hother)

variable (semantics : Semantics ν) {chain : Chain ν}

theorem comes_part {part : Part} {v : Value} (h : chain.lookUp part.name = some (.value v)) :
    semantics.Comes chain ⟨part.name, [part.name], .value v⟩ :=
  semantics.bound part.spells_name (constant?_part part) h

/-- The expression for some elements comes to their tuple. -/
theorem comes_flatElements {vs : List Value} (hv : vs ≠ [])
    (h : HasParts chain (elementParts 0 vs)) :
    semantics.Comes chain ⟨(flatElements vs.length).text,
      (elementParts 0 vs).map fun entry => entry.1.name, .value (.tupled vs)⟩ := by
  match vs, hv with
  -- A single element stands for itself, several are the parts of a tuple.
  | [v], _ => exact comes_part semantics (h _ List.mem_cons_self)
  | v :: w :: us, _ =>
    let parts : List (Reckoned ν) := (elementParts 0 (v :: w :: us)).map fun entry =>
      ⟨entry.1.name, [entry.1.name], .value entry.2⟩
    have hcomes : ∀ part ∈ parts, semantics.Comes chain part := by
      intro part hpart
      obtain ⟨entry, hentry, rfl⟩ := List.mem_map.mp hpart
      exact comes_part semantics (h entry hentry)
    have hdata : parts.map Reckoned.datum = (v :: w :: us).map .value := by
      rw [List.map_map, ← snd_elementParts 0 (v :: w :: us), List.map_map]
      simp only [snd_elementParts]
      rfl
    have htexts : parts.map Reckoned.text =
        ((List.range (v :: w :: us).length).map Part.element).map Part.name := by
      rw [List.range_eq_range', ← fst_elementParts, List.map_map, List.map_map]
      rfl
    have huses : parts.flatMap Reckoned.uses =
        (elementParts 0 (v :: w :: us)).map fun entry => entry.1.name := by
      rw [List.flatMap_map]
      exact List.flatMap_pure_eq_map _ _
    have hall := semantics.joined (by simp [parts, elementParts]) hcomes
      (hdata ▸ tupleOf_values (v :: w :: us))
    rw [htexts, huses] at hall
    exact hall

/-- The text of the tuple of the first `count` results, and of the rest if it is kept. -/
def headText (count : Nat) (more : Bool) (wrap : String → String) : String :=
  let elements := wrap (flatElements count).text
  if more then "(" ++ elements ++ ", " ++ Part.tail.name ++ ")" else elements

/-- What the wrap makes of the tuple of the first `count` values, paired with what is left if that
is of interest. -/
def regroupedValue (count kept : Nat) (vs : List Value) (w : Value) : Value :=
  if count < kept then .pair w (.nested (vs.drop count)) else w

/-- What the pattern for some nested values binds, the expression for their first ones puts
together. -/
theorem comes_headText {count kept : Nat} {vs : List Value} (hc : 1 ≤ count) (hle : count ≤ kept)
    (hk : kept ≤ vs.length) (h : HasParts chain (headParts count vs)) {wrap : String → String}
    {w : Value} (hw : semantics.Turns wrap (.tupled (vs.take count)) w) :
    ∃ uses ⊆ (headParts count vs).map fun entry => entry.1.name,
      semantics.Comes chain
        ⟨headText count (count < kept) wrap, uses, .value (regroupedValue count kept vs w)⟩ := by
  have htake : (vs.take count).length = count := by
    rw [List.length_take]
    omega
  have hne : vs.take count ≠ [] := List.ne_nil_of_length_pos (by omega)
  obtain ⟨helements, hrest⟩ := List.forall_mem_append.mp h
  have htuple := comes_flatElements semantics hne helements
  rw [htake] at htuple
  obtain ⟨used, hused, hwrapped⟩ := hw chain _ _ htuple
  have hnames : used ⊆ (headParts count vs).map fun entry => entry.1.name := by
    rw [headParts, List.map_append]
    exact List.subset_append_of_subset_left _ hused
  by_cases hlt : count < kept
  · -- Results of interest follow, so there is a rest, which the pattern binds.
    have hmore : count < vs.length := by omega
    rw [if_pos hmore] at hrest
    have htail := comes_part semantics (hrest _ (List.mem_singleton_self _))
    have hboth := List.forall_mem_cons.mpr ⟨hwrapped, List.forall_mem_singleton.mpr htail⟩
    have hpair := semantics.joined (by simp) hboth rfl
    refine ⟨used ++ [Part.tail.name], List.append_subset.mpr ⟨hnames, ?_⟩, ?_⟩
    · intro word hword
      obtain rfl := List.mem_singleton.mp hword
      rw [headParts, if_pos hmore, List.map_append]
      exact List.mem_append_right _ (List.mem_singleton_self _)
    · rw [regroupedValue, if_pos hlt, headText, decide_eq_true hlt]
      simpa [String.append_assoc, Value.pair] using hpair
  · refine ⟨used, hnames, ?_⟩
    rw [regroupedValue, if_neg hlt, headText, decide_eq_false hlt]
    exact hwrapped

end

/-- The text of the tuple of the first `count` of `available` results, where the wrap is any
function of texts. -/
def flatText (count available : Int) (wrap : String → String) : Except CodeError String := do
  checkCount count available
  if count = 0 then pure "()" else pure (headText count.toNat (count < available) wrap)

theorem flatText_eq_map (count available : Int) (wrap : Wrap) :
    flatText count available wrap.text = (flatTuple count available wrap).map Regrouped.text := by
  unfold flatText flatTuple checkCount
  by_cases hcheck : 0 ≤ count ∧ count ≤ available
  · rw [if_pos hcheck]
    by_cases hzero : count = 0
    · rw [if_pos hzero, if_pos hzero]
      rfl
    · rw [if_neg hzero, if_neg hzero]
      by_cases hlt : count < available
      · rw [if_pos hlt, decide_eq_true hlt]
        rfl
      · rw [if_neg hlt, decide_eq_false hlt]
        rfl
  · rw [if_neg hcheck]
    rfl

theorem flatText_eq {count available : Nat} (hc : 1 ≤ count) (ha : count ≤ available)
    (wrap : String → String) :
    flatText count available wrap = .ok (headText count (count < available) wrap) := by
  have hne : ¬ (count : Int) = 0 := by omega
  rw [flatText, checkCount_of_le ha]
  simp only [hne, if_false, Int.toNat_natCast, Int.ofNat_lt]
  rfl

/-- After the check of the counts nothing fails. -/
theorem checked_eq_error_iff {α : Type} {count available : Int} {next : Except CodeError α}
    (hnext : ∃ a, next = .ok a) (e : CodeError) :
    (do checkCount count available; next) = .error e ↔
      e = .badCount ∧ (count < 0 ∨ available < count) := by
  obtain ⟨a, rfl⟩ := hnext
  unfold checkCount
  by_cases hcheck : 0 ≤ count ∧ count ≤ available
  · rw [if_pos hcheck]
    constructor
    · intro h
      cases h
    · rintro ⟨-, hbad⟩
      omega
  · rw [if_neg hcheck]
    constructor
    · intro h
      cases h
      exact ⟨rfl, by omega⟩
    · rintro ⟨rfl, -⟩
      rfl

theorem nestedPairs_eq_error_iff (count available : Int) (e : CodeError) :
    nestedPairs count available = .error e ↔
      e = .badCount ∧ (count < 0 ∨ available < count) := by
  apply checked_eq_error_iff
  split <;> exact ⟨_, rfl⟩

theorem flatText_eq_error_iff (count available : Int) (wrap : String → String) (e : CodeError) :
    flatText count available wrap = .error e ↔
      e = .badCount ∧ (count < 0 ∨ available < count) := by
  apply checked_eq_error_iff
  split <;> exact ⟨_, rfl⟩

/-- Frames after some nested values are taken apart: the first `count` of them are bound to their
names and what is left, if anything is, to the last name. The text is an expression for the
regrouped value that uses no variable but these names, and is read as one. -/
structure Regroups {ν : Type} (count kept : Nat) (vs : List Value) (names : List String)
    (wrap : String → String) (text : String) (chain : Chain ν) : Prop where
  element : ∀ i (h : i < vs.length), i < count →
    chain.lookUp (Part.element i).name = some (.value vs[i])
  rest : count < vs.length → chain.lookUp Part.tail.name = some (.value (.nested (vs.drop count)))
  result : ∀ (semantics : Semantics ν) (w : Value),
    semantics.Turns wrap (.tupled (vs.take count)) w →
      ∃ uses ⊆ names, semantics.Comes chain ⟨text, uses, .value (regroupedValue count kept vs w)⟩
  read : ∀ {m : Type → Type} [Monad m] [LawfulMonad m] [MonadExceptOf RunFault m]
    (call : Function → Matcher m ν) (w : Value),
    (readSemantics call).Turns wrap (.tupled (vs.take count)) w →
      ∃ phrase, readPhrase [.line text] = some phrase ∧ phrase.variables ν ⊆ names ∧
        phrase.eval call chain = pure (.value (regroupedValue count kept vs w))

theorem regroups_of_hasParts {ν : Type} {count kept : Nat} {vs : List Value} (hc : 1 ≤ count)
    (hle : count ≤ kept) (hk : kept ≤ vs.length) {chain : Chain ν}
    (h : HasParts chain (headParts count vs)) (wrap : String → String) :
    Regroups count kept vs (headPattern count (count < vs.length)).phrase.targets wrap
      (headText count (count < kept) wrap) chain := by
  obtain ⟨helements, hrest⟩ := List.forall_mem_append.mp h
  have hresult : ∀ (semantics : Semantics ν) (w : Value),
      semantics.Turns wrap (.tupled (vs.take count)) w →
        ∃ uses ⊆ (headPattern count (count < vs.length)).phrase.targets, semantics.Comes chain
          ⟨headText count (count < kept) wrap, uses, .value (regroupedValue count kept vs w)⟩ := by
    intro semantics w hw
    have hparts := parts_of_bind (bind_nested hc (hle.trans hk))
    rw [Pattern.targets_phrase, ← hparts, List.map_map]
    exact comes_headText semantics hc hle hk h hw
  refine ⟨fun i hi hlt => ?_, fun hlt => ?_, hresult, fun call w hw => ?_⟩
  · have htake : i < (vs.take count).length := by
      rw [List.length_take]
      omega
    have hmem := mem_elementParts 0 i (vs.take count) htake
    rw [Nat.zero_add, List.getElem_take] at hmem
    exact helements _ hmem
  · rw [if_pos hlt] at hrest
    exact hrest _ (List.mem_singleton_self _)
  · obtain ⟨uses, huses, phrase, hread, hvariables, heval⟩ := hresult (readSemantics call) w hw
    exact ⟨phrase, readPhrase_of_readAs hread, hvariables ▸ huses, heval⟩

/-- The names of a pattern are those of the elements, and one more if anything is left. -/
theorem targets_headPattern {count : Nat} (hc : 1 ≤ count) (more : Bool) :
    (headPattern count more).phrase.targets =
      (List.range count).map (fun i => (Part.element i).name) ++
        if more then [Part.tail.name] else [] := by
  rw [Pattern.targets_phrase, parts_headPattern hc, List.map_append, List.map_map]
  cases more <;> rfl

/-- Pattern and expression agree. Both fail just where the count is negative or more than there are.
Else the pattern is read as names to be assigned, and in every frame that has them as its own names
it takes nested values apart so that the expression puts the first ones together. -/
theorem tuple_shapes_agree :
    (∀ (count available : Int) (e : CodeError), nestedPairs count available = .error e ↔
      e = .badCount ∧ (count < 0 ∨ available < count)) ∧
    (∀ (count available : Int) (wrap : String → String) (e : CodeError),
      flatText count available wrap = .error e ↔
        e = .badCount ∧ (count < 0 ∨ available < count)) ∧
    (∀ (count available : Int) (wrap : Wrap), flatText count available wrap.text =
      (flatTuple count available wrap).map Regrouped.text) ∧
    ∀ (count kept : Nat) (vs : List Value), 1 ≤ count → count ≤ kept → kept ≤ vs.length →
      ∃ pattern target, nestedPairs count vs.length = .ok pattern ∧
        readPhrase [.line pattern.text] = some target ∧
        target.targets = (List.range count).map (fun i => (Part.element i).name) ++
          (if decide (count < vs.length) then [Part.tail.name] else []) ∧
        ∀ wrap : String → String, ∃ text, flatText count kept wrap = .ok text ∧
          ∀ {ν : Type} (chain : Chain ν), (∀ word ∈ target.targets, word ∈ chain.locals) →
            ∃ chain', unpack chain (.value (.nested vs)) target = some chain' ∧
              Regroups count kept vs target.targets wrap text chain' := by
  refine ⟨nestedPairs_eq_error_iff, flatText_eq_error_iff, flatText_eq_map, ?_⟩
  intro count kept vs hc hle hk
  have hpattern := nestedPairs_eq hc (hle.trans hk)
  have hread := readPhrase_of_readAs (Pattern.readAs (headPattern count (count < vs.length)))
  refine ⟨_, _, hpattern, hread, targets_headPattern hc _, fun wrap => ?_⟩
  refine ⟨_, flatText_eq hc hle wrap, fun chain hlocals => ?_⟩
  obtain ⟨chain', hunpack, hbound⟩ := unpack_nested hc (hle.trans hk) chain hlocals
  exact ⟨chain', hunpack, regroups_of_hasParts hc hle hk hbound wrap⟩

/-- Two of four values in the case of an alternative, before a third one of interest. -/
theorem two_of_four_marked :
    let values : List Value := [.text "a", .text "b", .text "c", .text "d"]
    let chain : Chain Nat := [⟨["e0", "e1", "tail"], []⟩]
    ∃ target chain' phrase, readPhrase [.line "(e0, (e1, tail))"] = some target ∧
      unpack chain (.value (.nested values)) target = some chain' ∧
      flatText 2 3 (Wrap.case 1).text = .ok "(combine.Case(1, (e0, e1)), tail)" ∧
      readPhrase [.line "(combine.Case(1, (e0, e1)), tail)"] = some phrase ∧
      (phrase.eval (fun _ _ => throw .noMeaning) chain' : Except RunFault (Datum Nat)) =
        .ok (.value (.pair (.case 1 (.pair (.text "a") (.text "b")))
          (.pair (.text "c") (.text "d")))) := by
  intro values chain
  obtain ⟨-, -, -, hshapes⟩ := tuple_shapes_agree
  obtain ⟨pattern, target, hpattern, hread, htargets, hwraps⟩ :=
    hshapes 2 3 values (by decide) (by decide) (by decide)
  obtain ⟨text, htext, hchains⟩ := hwraps (Wrap.case 1).text
  have hlocals : ∀ word ∈ target.targets, word ∈ chain.locals := by
    rw [htargets]
    decide
  obtain ⟨chain', hunpack, hregroups⟩ := hchains chain hlocals
  let call : Function → Matcher (Except RunFault) Nat := fun _ _ => throw .noMeaning
  have hcase : (Wrap.case 1).Readable := Wrap.readable_case (by decide)
  have hvalue : (Wrap.case 1).value (fun _ _ _ => none) (.tupled (values.take 2)) =
      some (.case 1 (.pair (.text "a") (.text "b"))) := rfl
  have hturns := turns_wrap hcase call hvalue
  obtain ⟨phrase, hphrase, -, heval⟩ := hregroups.read call _ hturns
  obtain rfl := Except.ok.inj hpattern
  obtain rfl := Except.ok.inj htext
  exact ⟨target, chain', phrase, hread, hunpack, rfl, hphrase, heval⟩

end Code

end TreeGrammar
