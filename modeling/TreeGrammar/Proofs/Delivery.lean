import TreeGrammar.Code.Continuation
import TreeGrammar.Proofs.Judgement
import TreeGrammar.Proofs.Making
import TreeGrammar.Proofs.Regrouping
import TreeGrammar.Proofs.Repetition

/-!
What continuations deliver. The matcher of a continuation returns its results of interest first,
then others, as nested pairs. Each way to put a matcher in front, to take results together or to
try alternatives does to the results of interest what it does to the nested values.
-/
namespace TreeGrammar.Code

/-- An interpretation of code: a judgement of its runs, and a host that reads placed nodes. -/
structure Interpretation (m : Type → Type) [Monad m] (μ ν : Type) where
  judgement : Judgement m
  place : μ → ν
  host : Host m ν
  read : Reading μ
  kind : ∀ n, host.kind (place n) = read.kind n
  leaf : ∀ n, judgement.returns (host.leaf (place n)) (read.leaf n)

/-- Results of interest and the nodes that are left. -/
abbrev Yield (μ : Type) := Option (List Value × List μ)

/-- The first of some results that goes on to a yield, in front of that yield. -/
def followedBy {μ : Type} (results : List (List Value × List μ)) (kont : List μ → Yield μ) :
    Yield μ :=
  results.findSome? fun r => (kont r.2).map (Prod.map (r.1 ++ ·) id)

section
variable {μ : Type}

theorem followedBy_append (a b : List (List Value × List μ)) (kont : List μ → Yield μ) :
    followedBy (a ++ b) kont = (followedBy a kont).or (followedBy b kont) :=
  List.findSome?_append

theorem followedBy_singleton (vs : List Value) (nodes : List μ) (kont : List μ → Yield μ) :
    followedBy [(vs, nodes)] kont = (kont nodes).map (Prod.map (vs ++ ·) id) :=
  List.findSome?_singleton

theorem map_append_append (y : Yield μ) (vs ws : List Value) :
    (y.map (Prod.map (ws ++ ·) id)).map (Prod.map (vs ++ ·) id) =
      y.map (Prod.map (vs ++ ws ++ ·) id) := by
  rw [Option.map_map]
  congr 1
  funext r
  simp [Prod.map]

theorem followedBy_flatMap (a : List (List Value × List μ))
    (b : List μ → List (List Value × List μ)) (kont : List μ → Yield μ) :
    followedBy (a.flatMap fun r => (b r.2).map (Prod.map (r.1 ++ ·) id)) kont =
      followedBy a fun nodes => followedBy (b nodes) kont := by
  induction a with
  | nil => rfl
  | cons r a ih =>
    have hfirst : followedBy ((b r.2).map (Prod.map (r.1 ++ ·) id)) kont =
        (followedBy (b r.2) kont).map (Prod.map (r.1 ++ ·) id) := by
      rw [followedBy, followedBy, List.findSome?_map, List.map_findSome?]
      congr 1
      funext s
      exact (map_append_append (kont s.2) r.1 s.1).symm
    calc followedBy ((r :: a).flatMap fun r => (b r.2).map (Prod.map (r.1 ++ ·) id)) kont
        = ((followedBy (b r.2) kont).map (Prod.map (r.1 ++ ·) id)).or
            (followedBy a fun nodes => followedBy (b nodes) kont) := by
          rw [List.flatMap_cons, followedBy_append, hfirst, ih]
      _ = followedBy ([r] ++ a) fun nodes => followedBy (b nodes) kont := by
          rw [followedBy_append, followedBy_singleton]

end

/-- The value of a match holds `width` nested results, the first `kept` of which are yielded. -/
inductive Packs {μ : Type} (kept width : Nat) : Yield μ → Match μ → Prop where
  | none : Packs kept width none none
  | some (vs ws : List Value) (rest : List μ) (hk : vs.length = kept)
      (hw : vs.length + ws.length = width) :
      Packs kept width (some (vs, rest)) (some (.nested (vs ++ ws), rest))

section
variable {μ : Type} {kept width : Nat}

theorem Packs.cons {y : Yield μ} {found : Match μ} (h : Packs kept width y found)
    (hw : 1 ≤ width) (v : Value) :
    Packs (kept + 1) (width + 1) (y.map (Prod.map (v :: ·) id))
      (found.map (Prod.map (.pair v) id)) := by
  cases h with
  | none => exact .none
  | some vs ws rest hk hl =>
    have hne : vs ++ ws ≠ [] := by
      apply List.ne_nil_of_length_pos
      rw [List.length_append]
      omega
    have hp := Packs.some (v :: vs) ws rest (by rw [List.length_cons, hk])
      (by rw [List.length_cons]; omega : _ = width + 1)
    rw [List.cons_append, Value.nested_cons v hne] at hp
    exact hp

theorem Packs.eq_of_one {value : Option Value} {found : Match μ}
    (h : Packs 1 1 (value.map fun v => ([v], [])) found) : found = value.map fun v => (v, []) := by
  cases value with
  | none =>
    cases h
    rfl
  | some v =>
    cases h with
    | some vs ws rest hk hw =>
      obtain rfl : ws = [] := by
        apply List.eq_nil_of_length_eq_zero
        rw [List.length_singleton] at hw
        omega
      rfl

theorem Packs.orElse {y y' : Yield μ} {found found' : Match μ} (h : Packs kept width y found)
    (h' : Packs kept width y' found') : Packs kept width (y.or y') (found.or found') := by
  cases h with
  | none => exact h'
  | some vs ws rest hk hl => exact .some vs ws rest hk hl

theorem Packs.findSome {α : Type} {f : α → Yield μ} {g : α → Match μ} (l : List α)
    (h : ∀ a, Packs kept width (f a) (g a)) :
    Packs kept width (l.findSome? f) (l.findSome? g) := by
  induction l with
  | nil => exact .none
  | cons a l ih =>
    rw [← List.singleton_append, List.findSome?_append, List.findSome?_append,
      List.findSome?_singleton, List.findSome?_singleton]
    exact (h a).orElse ih

end

/-- Tries matchers in turn, the last one without another to follow. -/
def firstMatch {m : Type → Type} [Monad m] {ν : Type} : List (Matcher m ν) → Matcher m ν
  | [] => fun _ => pure none
  | [matcher] => matcher
  | matcher :: other :: rest => fun nodes => do
    match ← matcher nodes with
    | some found => pure (some found)
    | none => firstMatch (other :: rest) nodes

namespace Interpretation

variable {m : Type → Type} [Monad m] {μ ν : Type} (I : Interpretation m μ ν) {kept width : Nat}

/-- What the matcher answers holds what is yielded. -/
def Delivers (kept width : Nat) (matcher : Matcher m ν) (kont : List μ → Yield μ) : Prop :=
  ∃ answer, I.judgement.Answers I.place matcher answer ∧
    ∀ nodes, Packs kept width (kont nodes) (answer nodes)

variable {I} {element tail : Matcher m ν} {e : List μ → Match μ} {kont kont' : List μ → Yield μ}

theorem delivers_finish :
    I.Delivers 0 1 .finish fun nodes => if nodes.isEmpty then some ([], []) else none := by
  refine ⟨_, Judgement.answers_finish, fun nodes => ?_⟩
  cases nodes with
  | nil => exact .some [] [.unit] [] rfl rfl
  | cons n rest => exact .none

theorem delivers_seq (he : I.judgement.Answers I.place element e)
    (ht : I.Delivers kept width tail kont) (hw : 1 ≤ width) :
    I.Delivers (kept + 1) (width + 1) (.seq element tail) fun nodes =>
      followedBy ((e nodes).toList.map (Prod.map ([·]) id)) kont := by
  obtain ⟨t, hta, htp⟩ := ht
  refine ⟨_, Judgement.answers_seq he hta, fun nodes => ?_⟩
  dsimp only [followedBy]
  rcases e nodes with _ | ⟨v, rest⟩
  · exact .none
  · rw [Option.toList_some, List.map_singleton, List.findSome?_singleton]
    exact (htp rest).cons hw v

theorem delivers_repetition {least : Nat} (hl : least ≤ 1)
    (he : I.judgement.Answers I.place element e) (ht : I.Delivers kept width tail kont)
    (hw : 1 ≤ width) :
    I.Delivers (kept + 1) (width + 1) (.repetition least element tail) fun nodes =>
      followedBy ((cuts least (fun slice => usedUp (e slice)) nodes).map
        (Prod.map (fun vs => [.list vs]) id)) kont := by
  obtain ⟨t, hta, htp⟩ := ht
  refine ⟨_, Matcher.answers_repetition hl he hta, fun nodes => ?_⟩
  dsimp only [followedBy, firstCut]
  rw [List.findSome?_map]
  exact Packs.findSome _ fun cut => (htp cut.2).cons hw (.list cut.1)

theorem delivers_orElse {a b : Matcher m ν} (ha : I.Delivers kept width a kont)
    (hb : I.Delivers kept width b kont') :
    I.Delivers kept width (fun nodes => do
      match ← a nodes with
      | some found => pure (some found)
      | none => b nodes) fun nodes => (kont nodes).or (kont' nodes) := by
  obtain ⟨f, hfa, hfp⟩ := ha
  obtain ⟨g, hga, hgp⟩ := hb
  refine ⟨fun nodes => (f nodes).or (g nodes), fun nodes => ?_, fun nodes => ?_⟩
  · refine I.judgement.returns_bind (hfa nodes) ?_
    dsimp only
    rcases f nodes with _ | found
    · exact hga nodes
    · exact I.judgement.returns_pure _
  · exact (hfp nodes).orElse (hgp nodes)

/-- Trying matchers in turn delivers what the first of them yields, else what the others do. -/
theorem delivers_firstMatch {a : Matcher m ν} {rest : List (Matcher m ν)}
    (ha : I.Delivers kept width a kont) (hr : I.Delivers kept width (firstMatch rest) kont')
    (hn : rest = [] → ∀ nodes, kont' nodes = none) :
    I.Delivers kept width (firstMatch (a :: rest)) fun nodes =>
      (kont nodes).or (kont' nodes) := by
  cases rest with
  | nil =>
    simp only [hn rfl, Option.or_none]
    exact ha
  | cons b rest => exact delivers_orElse ha hr

end Interpretation

/-- A marked value. -/
def Wrap.mark : Wrap → Value → Value
  | case index, v => .case index v
  | _, v => v

theorem Wrap.value_eq_mark {wrap : Wrap} (h : wrap.IsOwn) (around : Around) (v : Value) :
    wrap.value around v = some (wrap.mark v) := by
  cases wrap with
  | plain => rfl
  | case index => rfl
  | around before after => exact h.elim

/-- The first `count` results taken together, in front of the others. -/
def headTaken (wrap : Wrap) (count : Nat) (vs : List Value) : List Value :=
  wrap.mark (.tupled (vs.take count)) :: vs.drop count

/-- Where the results in front are `count` many, they are what is taken together. -/
theorem followedBy_headTaken {μ : Type} {wrap : Wrap} {count : Nat}
    {results : List (List Value × List μ)} (h : ∀ r ∈ results, r.1.length = count)
    (kont : List μ → Yield μ) :
    (followedBy results kont).map (Prod.map (headTaken wrap count) id) =
      followedBy (results.map (Prod.map (fun vs => [wrap.mark (.tupled vs)]) id)) kont := by
  induction results with
  | nil => rfl
  | cons r rest ih =>
    have hrest := ih fun s hs => h s (List.mem_cons_of_mem r hs)
    have hlength := h r List.mem_cons_self
    have hfirst : ((kont r.2).map (Prod.map (r.1 ++ ·) id)).map
          (Prod.map (headTaken wrap count) id) =
        (kont r.2).map (Prod.map ([wrap.mark (.tupled r.1)] ++ ·) id) := by
      rw [Option.map_map]
      congr 1
      funext s
      simp [Prod.map, headTaken, ← hlength]
    rw [List.map_cons, ← List.singleton_append, followedBy_append, Option.map_or, hrest,
      followedBy_singleton, hfirst, ← List.singleton_append (l := List.map _ rest),
      followedBy_append]
    congr 1
    exact (followedBy_singleton _ r.2 kont).symm

section
variable {μ : Type} {kept width count : Nat} {wrap : Wrap}

/-- How many results there are when the first `count` of `width` are one, of which `kept` were of
interest. -/
def widthTaken (count kept width : Nat) : Nat :=
  if count < kept then width - count + 1 else 1

/-- A value whose first results are taken together. -/
def valueTaken (wrap : Wrap) (count : Nat) (vs ws : List Value) : Value :=
  let w := wrap.mark (.tupled (vs.take count))
  if count < vs.length then .pair w (.nested (vs.drop count ++ ws)) else w

theorem packs_valueTaken (vs ws : List Value) (rest : List μ)
    (hk : vs.length = kept) (hl : count ≤ kept) (hw : vs.length + ws.length = width) :
    Packs (kept - count + 1) (widthTaken count kept width)
      (some (headTaken wrap count vs, rest)) (some (valueTaken wrap count vs ws, rest)) := by
  have hlen : (headTaken wrap count vs).length = kept - count + 1 := by
    rw [headTaken, List.length_cons, List.length_drop, hk]
  by_cases h : count < kept
  · have hne : vs.drop count ++ ws ≠ [] := by
      apply List.ne_nil_of_length_pos
      rw [List.length_append, List.length_drop]
      omega
    have hp := Packs.some (headTaken wrap count vs) ws rest hlen
      (by rw [hlen, widthTaken, if_pos h]; omega :
        _ = widthTaken count kept width)
    rw [headTaken, List.cons_append, Value.nested_cons _ hne] at hp
    rw [valueTaken, if_pos (hk ▸ h)]
    exact hp
  · have hp := Packs.some (headTaken wrap count vs) [] rest hlen
      (by rw [hlen, widthTaken, if_neg h, List.length_nil]; omega :
        _ = widthTaken count kept width)
    have hdrop : vs.drop count = [] := List.drop_eq_nil_of_le (by omega)
    rw [headTaken, hdrop, List.append_nil] at hp
    rw [valueTaken, if_neg (hk ▸ h), headTaken, hdrop]
    exact hp

/-- More nested values follow the first `count` where there are more than `count`. -/
theorem lt_width_eq {vs ws : List Value} (hk : vs.length = kept) (hl : count ≤ kept)
    (hw : vs.length + ws.length = width) :
    (count < width) = (0 < (vs.drop count ++ ws).length) := by
  rw [List.length_append, List.length_drop]
  apply propext
  omega

theorem length_take_of_kept {vs : List Value} (hk : vs.length = kept) (hl : count ≤ kept) :
    (vs.take count).length = count := by
  rw [List.length_take]
  omega

theorem value_headResult (around : Around) (ho : wrap.IsOwn) (vs ws : List Value) (hc : 1 ≤ count)
    (hk : vs.length = kept) (hl : count ≤ kept) (hw : vs.length + ws.length = width) :
    ((headPattern count (count < width)).bind (.nested (vs ++ ws))).bind
        (fun parts => (headResult count (count < kept) wrap).value around parts) =
      some (valueTaken wrap count vs ws) := by
  have htake := length_take_of_kept hk hl
  have hmore := lt_width_eq hk hl hw
  have hne : vs.take count ≠ [] := List.ne_nil_of_length_pos (by omega)
  have h := bind_headPattern (vs.drop count ++ ws) (decide (count < kept)) hne
    (Wrap.value_eq_mark ho around (.tupled (vs.take count)))
    (fun hlt => List.ne_nil_of_length_pos (by
      have := of_decide_eq_true hlt
      rw [List.length_append, List.length_drop]
      omega))
  rw [htake, ← List.append_assoc, List.take_append_drop] at h
  simp only [hmore, valueTaken, hk]
  simpa only [decide_eq_true_eq] using h

/-- Where no code takes the first results together, they are together. -/
theorem nested_eq_valueTaken (ho : wrap.IsOwn) (vs ws : List Value) (hc : 1 ≤ count)
    (hk : vs.length = kept) (hl : count ≤ kept) (hw : vs.length + ws.length = width)
    (h : (headPattern count (count < width)).text =
      (headResult count (count < kept) wrap).text) :
    Value.nested (vs ++ ws) = valueTaken wrap count vs ws := by
  have htake := length_take_of_kept hk hl
  have hmore := lt_width_eq hk hl hw
  have hne : vs.take count ≠ [] := List.ne_nil_of_length_pos (by omega)
  have hn := nested_eq_of_text_eq (vs.drop count ++ ws) (decide (count < kept)) hne ho
    (Wrap.value_eq_mark ho (fun _ _ _ => none) (.tupled (vs.take count)))
    (by simpa only [htake, hmore] using h)
  rw [← List.append_assoc, List.take_append_drop] at hn
  rw [hn, valueTaken, hk]
  simp only [decide_eq_true_eq]

/-- Matches whose first results are together already. -/
theorem Packs.together {y : Yield μ} {found : Match μ} (h : Packs kept width y found)
    (ho : wrap.IsOwn) (hc : 1 ≤ count) (hl : count ≤ kept)
    (htext : (headPattern count (count < width)).text =
      (headResult count (count < kept) wrap).text) :
    Packs (kept - count + 1) (widthTaken count kept width)
      (y.map (Prod.map (headTaken wrap count) id)) found := by
  cases h with
  | none => exact .none
  | some vs ws rest hk hw =>
    rw [nested_eq_valueTaken ho vs ws hc hk hl hw htext]
    exact packs_valueTaken vs ws rest hk hl hw

/-- A match with its value regrouped by the code that takes the first results together. -/
def regroupedHead (around : Around) (wrap : Wrap) (count kept width : Nat) (found : Match μ) :
    Match μ :=
  found.bind fun r =>
    (((headPattern count (count < width)).bind r.1).bind fun parts =>
      (headResult count (count < kept) wrap).value around parts).map fun v => (v, r.2)

theorem Packs.regroupedHead {y : Yield μ} {found : Match μ} (h : Packs kept width y found)
    (around : Around) (ho : wrap.IsOwn) (hc : 1 ≤ count) (hl : count ≤ kept) :
    Packs (kept - count + 1) (widthTaken count kept width)
      (y.map (Prod.map (headTaken wrap count) id))
      (Code.regroupedHead around wrap count kept width found) := by
  cases h with
  | none => exact .none
  | some vs ws rest hk hw =>
    rw [Code.regroupedHead, Option.bind_some, value_headResult around ho vs ws hc hk hl hw]
    exact packs_valueTaken vs ws rest hk hl hw

end

/-- The code that takes the first results together never meets a value of another form. -/
theorem Interpretation.delivers_regroup {m : Type → Type} [Monad m] [MonadExceptOf RunFault m]
    {μ ν : Type} {I : Interpretation m μ ν} {kept width count : Nat} {wrap : Wrap}
    {matcher : Matcher m ν} {kont : List μ → Yield μ} (h : I.Delivers kept width matcher kont)
    (ho : wrap.IsOwn) (hc : 1 ≤ count) (hl : count ≤ kept) :
    I.Delivers (kept - count + 1) (widthTaken count kept width)
      (fun nodes => do
        match ← matcher nodes with
        | none => pure none
        | some (v, rest) =>
          pure (some (← regrouped I.host.around (headPattern count (count < width))
            (headResult count (count < kept) wrap) v, rest)))
      fun nodes => (kont nodes).map (Prod.map (headTaken wrap count) id) := by
  obtain ⟨answer, hanswer, hpacks⟩ := h
  refine ⟨fun nodes => regroupedHead I.host.around wrap count kept width (answer nodes),
    fun nodes => ?_, fun nodes => (hpacks nodes).regroupedHead I.host.around ho hc hl⟩
  apply I.judgement.returns_bind (hanswer nodes)
  have hnodes := hpacks nodes
  dsimp only
  generalize kont nodes = y at hnodes
  generalize answer nodes = found at hnodes ⊢
  cases hnodes with
  | none => exact I.judgement.returns_pure _
  | some vs ws rest hk hw =>
    have hvalue := value_headResult I.host.around ho vs ws hc hk hl hw
    rw [regroupedHead, Option.bind_some, hvalue]
    refine I.judgement.returns_bind ?_ (I.judgement.returns_pure _)
    rw [regrouped, id, hvalue]
    exact I.judgement.returns_pure _

end TreeGrammar.Code
