import Mathlib.Data.List.Basic
import TreeGrammar.Code.Tuple
import TreeGrammar.Proofs.Results

/-!
Nested pairs taken apart and put together to tuples. A pattern for the first of some nested values
binds them and what is left, and the regrouped expression has the value of their tuple, paired with
what is left if that is kept. Where pattern and result have one text the value stays as it is.
-/
namespace TreeGrammar

/-- Some values as right-nested pairs. -/
def Value.nested : List Value → Value
  | [] => .unit
  | [v] => v
  | v :: w :: vs => .pair v (nested (w :: vs))

theorem Value.nested_cons (v : Value) {vs : List Value} (h : vs ≠ []) :
    nested (v :: vs) = .pair v (nested vs) := by
  cases vs with
  | nil => exact absurd rfl h
  | cons w vs => rfl

namespace Code

/-- The values of elements, the first of which has the given index. -/
def elementParts : Nat → List Value → Parts
  | _, [] => []
  | first, v :: vs => (.element first, v) :: elementParts (first + 1) vs

theorem lookup_element (first i : Nat) (vs : List Value) (more : Parts) (h : i < vs.length) :
    (elementParts first vs ++ more).lookup (.element (first + i)) = some vs[i] := by
  induction vs generalizing first i with
  | nil => cases h
  | cons v vs ih =>
    rw [elementParts, List.cons_append, List.lookup_cons]
    cases i with
    | zero => simp
    | succ i =>
      have hne : (Part.element (first + (i + 1)) == .element first) = false := by
        rw [beq_eq_false_iff_ne]
        intro hp
        injection hp
        omega
      have hi := ih (first + 1) i (Nat.lt_of_succ_lt_succ h)
      rw [show first + (i + 1) = first + 1 + i by omega] at hne ⊢
      rw [hne]
      exact hi

theorem lookup_tail (first : Nat) (vs : List Value) (w : Value) :
    (elementParts first vs ++ [(Part.tail, w)]).lookup Part.tail = some w := by
  induction vs generalizing first with
  | nil => rfl
  | cons v vs ih => exact ih (first + 1)

theorem bind_nestedFrom (first : Nat) (v : Value) (vs : List Value) :
    (nestedFrom false first vs.length).bind (Value.nested (v :: vs)) =
      some (elementParts first (v :: vs)) := by
  induction vs generalizing first v with
  | nil => rfl
  | cons w vs ih =>
    have hmore := ih (first + 1) w
    simp [nestedFrom, Value.nested, Value.pair, Pattern.bind, elementParts, hmore]

theorem bind_nestedFrom_tail (first : Nat) (v : Value) (vs : List Value) {ws : List Value}
    (h : ws ≠ []) :
    (nestedFrom true first vs.length).bind (Value.nested (v :: vs ++ ws)) =
      some (elementParts first (v :: vs) ++ [(.tail, Value.nested ws)]) := by
  induction vs generalizing first v with
  | nil =>
    rw [List.singleton_append, Value.nested_cons v h]
    rfl
  | cons w vs ih =>
    have hmore := ih (first + 1) w
    rw [List.cons_append] at hmore
    simp [nestedFrom, Value.nested, Value.pair, Pattern.bind, elementParts, hmore]

/-- The pattern for the first `count` of nested results. -/
def headPattern (count : Nat) (more : Bool) : Pattern :=
  nestedFrom more 0 (count - 1)

/-- What the pattern for the first `count` of some nested values binds. -/
def headParts (count : Nat) (vs : List Value) : Parts :=
  elementParts 0 (vs.take count) ++
    if count < vs.length then [(.tail, Value.nested (vs.drop count))] else []

theorem bind_nested {count : Nat} {vs : List Value} (hc : 1 ≤ count) (hle : count ≤ vs.length) :
    (headPattern count (count < vs.length)).bind (Value.nested vs) = some (headParts count vs) := by
  have hpos : 0 < (vs.take count).length := by
    rw [List.length_take]
    omega
  obtain ⟨v, us, htake⟩ := List.exists_cons_of_length_pos hpos
  have hlength : us.length = count - 1 := by
    have hall := congrArg List.length htake
    rw [List.length_take, List.length_cons] at hall
    omega
  rw [headPattern, headParts, ← hlength, htake]
  -- The last name is there only if something is left for it.
  by_cases hlt : count < vs.length
  · have hdrop : vs.drop count ≠ [] := List.ne_nil_of_length_pos (by rw [List.length_drop]; omega)
    have hbind := bind_nestedFrom_tail 0 v us hdrop
    rw [← htake, List.take_append_drop, htake] at hbind
    rw [if_pos hlt, decide_eq_true hlt, hbind]
  · have hwhole : vs.take count = vs := List.take_of_length_le (by omega)
    have hbind := bind_nestedFrom 0 v us
    rw [← htake, hwhole] at hbind
    rw [if_neg hlt, decide_eq_false hlt, hbind, ← htake, hwhole, List.append_nil]

/-- The tuple of the first `count` results, and the rest if it is kept. -/
def headResult (count : Nat) (more : Bool) (wrap : Wrap) : Regrouped :=
  if more then .pair (.wrapped wrap (flatElements count)) (.part .tail)
  else .wrapped wrap (flatElements count)

theorem checkCount_of_le {count available : Nat} (h : count ≤ available) :
    checkCount count available = .ok () :=
  if_pos ⟨by omega, by omega⟩

theorem nestedPairs_eq {count available : Nat} (hc : 1 ≤ count) (ha : count ≤ available) :
    nestedPairs count available = .ok (headPattern count (count < available)) := by
  obtain ⟨more, rfl⟩ : ∃ more, count = more + 1 := ⟨count - 1, by omega⟩
  rw [nestedPairs, checkCount_of_le ha]
  change Except.ok (nestedFrom (decide (((more + 1 : Nat) : Int) < available)) 0 more) = _
  simp only [Int.ofNat_lt]
  rfl

theorem flatTuple_eq {count available : Nat} (hc : 1 ≤ count) (ha : count ≤ available)
    (wrap : Wrap) :
    flatTuple count available wrap = .ok (headResult count (count < available) wrap) := by
  have hne : ¬ (count : Int) = 0 := by omega
  have hlt : ((count : Int) < available) = (count < available) := by simp only [Int.ofNat_lt]
  rw [flatTuple, checkCount_of_le ha]
  simp only [hne, hlt, if_false, Int.toNat_natCast, headResult, decide_eq_true_eq]
  by_cases h : count < available
  · rw [if_pos h, if_pos h]
    rfl
  · rw [if_neg h, if_neg h]
    rfl

theorem mapM_lookup {parts : Parts} (first : Nat) (vs : List Value)
    (h : ∀ i (hi : i < vs.length), parts.lookup (.element (first + i)) = some vs[i]) :
    ((List.range' first vs.length).map Part.element).mapM (fun p => parts.lookup p) =
      some vs := by
  induction vs generalizing first with
  | nil => rfl
  | cons v vs ih =>
    have hfirst : parts.lookup (.element first) = some v := h 0 (by simp)
    have hmore := ih (first + 1) fun i hi => by
      have hs := h (i + 1) (by simpa using hi)
      rw [show first + 1 + i = first + (i + 1) by omega]
      simpa using hs
    rw [List.length_cons, List.range'_succ, List.map_cons, List.mapM_cons, hfirst, hmore]
    rfl

theorem value_flatElements (around : Around) {parts : Parts} {vs : List Value} (hv : vs ≠ [])
    (h : ∀ i (hi : i < vs.length), parts.lookup (.element i) = some vs[i]) :
    (flatElements vs.length).value around parts = some (.tupled vs) := by
  match vs, hv with
  | [v], _ => exact h 0 (by simp)
  | v :: w :: vs, _ =>
    have hall := mapM_lookup 0 (v :: w :: vs) (by simpa using h)
    rw [← List.range_eq_range'] at hall
    change ((List.range _).map Part.element |>.mapM fun p => parts.lookup p).map Value.tuple = _
    rw [hall]
    rfl

/-- A pattern and a result that take the first results together. What is left is dropped or kept
as it is. -/
theorem bind_headPattern {around : Around} {wrap : Wrap} {vs : List Value} {w : Value}
    (ws : List Value) (more : Bool) (hv : vs ≠ [])
    (hw : wrap.value around (.tupled vs) = some w)
    (hm : more = true → ws ≠ []) :
    ((headPattern vs.length (0 < ws.length)).bind (Value.nested (vs ++ ws))).bind
        (fun parts => (headResult vs.length more wrap).value around parts) =
      some (if more then .pair w (Value.nested ws) else w) := by
  have hle : vs.length ≤ (vs ++ ws).length := by simp
  have hbind := bind_nested (List.length_pos_of_ne_nil hv) hle
  have hpos : (vs.length < (vs ++ ws).length) = (0 < ws.length) := by simp
  simp only [headParts, hpos, List.take_left, List.drop_left] at hbind
  have htuple (rest : Parts) : (Regrouped.wrapped wrap (flatElements vs.length)).value around
      (elementParts 0 vs ++ rest) = some w := by
    have hall := value_flatElements around hv fun i hi => by
      simpa using lookup_element 0 i vs rest hi
    rw [Regrouped.value, hall]
    exact hw
  rw [hbind, Option.bind_some]
  cases more with
  | false => exact htuple _
  | true =>
    have htail := lookup_tail 0 vs (Value.nested ws)
    rw [if_pos (List.length_pos_of_ne_nil (hm rfl))]
    change (do
      let a ← Regrouped.value around _ (.wrapped wrap (flatElements vs.length))
      let b ← List.lookup Part.tail (elementParts 0 vs ++ [(Part.tail, Value.nested ws)])
      pure (Value.pair a b)) = _
    rw [htuple, htail]
    rfl

/-- Wraps that the compiler puts around tuples itself. -/
def Wrap.IsOwn : Wrap → Prop
  | plain | case _ => True
  | around _ _ => False

/-- Pattern and result have one text only where one result is left alone, or where two become the
pair that they are already. -/
theorem eq_of_text_eq {count : Nat} (hc : 1 ≤ count) {more more' : Bool} {wrap : Wrap}
    (hw : wrap.IsOwn)
    (h : (headPattern count more).text = (headResult count more' wrap).text) :
    wrap = .plain ∧
      (count = 1 ∧ more' = more ∨ count = 2 ∧ more = false ∧ more' = false) := by
  have hchars := congrArg String.toList h
  match count, wrap, hw with
  -- A single result is bound by its name and stays, alone or in front of the others.
  | 1, .plain, _ =>
    cases more <;> cases more' <;>
      simp [headPattern, headResult, nestedFrom, flatElements, Pattern.text, Regrouped.text,
        Wrap.text, Part.name] at hchars ⊢
  -- Of two results the pattern nests the second one if more follow.
  | 2, .plain, _ | n + 3, .plain, _ =>
    cases more <;> cases more' <;>
      simp [headPattern, headResult, nestedFrom, flatElements, Pattern.text, Regrouped.text,
        Wrap.text, List.range_succ_eq_map, String.intercalate_cons_cons, Part.name] at hchars ⊢
  -- No pattern starts like a mark.
  | n + 1, .case index, _ =>
    cases n <;> cases more <;> cases more' <;>
      simp [headPattern, headResult, nestedFrom, Pattern.text, Regrouped.text, Wrap.text,
        Part.name] at hchars

/-- Where no code is needed to take the first results together, they are together already. -/
theorem nested_eq_of_text_eq {around : Around} {wrap : Wrap} {vs : List Value} {w : Value}
    (ws : List Value) (more : Bool) (hv : vs ≠ []) (ho : wrap.IsOwn)
    (hw : wrap.value around (.tupled vs) = some w)
    (h : (headPattern vs.length (0 < ws.length)).text = (headResult vs.length more wrap).text) :
    Value.nested (vs ++ ws) = if more then .pair w (Value.nested ws) else w := by
  have hc : 1 ≤ vs.length := List.length_pos_of_ne_nil hv
  -- The texts decide: either one result is left alone or two are the pair that they are.
  obtain ⟨rfl, hone | htwo⟩ := eq_of_text_eq hc ho h
  · obtain ⟨hl, rfl⟩ := hone
    obtain ⟨v, rfl⟩ := List.length_eq_one_iff.mp hl
    obtain rfl : v = w := Option.some.inj hw
    cases ws with
    | nil => rfl
    | cons u ws => rfl
  · obtain ⟨hl, hws, rfl⟩ := htwo
    obtain ⟨u, v, rfl⟩ := List.length_eq_two.mp hl
    obtain rfl : Value.tuple [u, v] = w := Option.some.inj hw
    obtain rfl : ws = [] := by simpa using hws
    rfl

end Code

end TreeGrammar
