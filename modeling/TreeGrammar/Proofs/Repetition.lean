import TreeGrammar.Matcher.Repetition
import TreeGrammar.Proofs.Judgement
import TreeGrammar.Proofs.Results

/-!
The search of a repetition. It remembers the places from which everything has failed and yet finds
what trying all cuts into slices in order finds: from such a place no cut leads to a match of the
tail, whatever the elements before it were.
-/
namespace TreeGrammar

variable {μ ν : Type}

/-- The value of an element that leaves no node of its slice. -/
def usedUp : Match μ → Option Value
  | some (v, []) => some v
  | _ => none

/-- The ways to cut nodes into at least `least` slices, where `least` is zero or one. -/
def cuts (least : Nat) (element : List μ → Option Value) (nodes : List μ) :
    List (List Value × List μ) :=
  slices element [] nodes ++ if least = 0 then [([], nodes)] else []

/-- What the tail makes of a cut, after elements with the given values, last one first. -/
def tailAfter (values : List Value) (t : List μ → Match μ) (cut : List Value × List μ) :
    Match μ :=
  (t cut.2).map (Prod.map (.pair (.list (values.reverse ++ cut.1))) id)

/-- The first cut that the tail matches after. -/
def firstCut (least : Nat) (e t : List μ → Match μ) (nodes : List μ) : Match μ :=
  (cuts least (fun slice => usedUp (e slice)) nodes).findSome? (tailAfter [] t)

namespace Matcher

variable {m : Type → Type} [Monad m] {J : Judgement m} {place : μ → ν}
  {element tail : Matcher m ν} {e t : List μ → Match μ}

/-- No cut of the nodes leads to a match of the tail. -/
def Hopeless (e t : List μ → Match μ) (nodes : List μ) : Prop :=
  ∀ cut ∈ cuts 0 (fun slice => usedUp (e slice)) nodes, t cut.2 = none

/-- All places that are remembered are hopeless. A place is known by the count of nodes after it. -/
def DeadEnds (e t : List μ → Match μ) (whole : List μ) (dead : List Nat) : Prop :=
  ∀ nodes, nodes <:+ whole → nodes.length ∈ dead → Hopeless e t nodes

theorem tailAfter_eq_none {values : List Value} {cut : List Value × List μ} :
    tailAfter values t cut = none ↔ t cut.2 = none := by
  rw [tailAfter, Option.map_eq_none_iff]

theorem hopeless_iff (values : List Value) {nodes : List μ} :
    Hopeless e t nodes ↔ (cuts 0 (fun slice => usedUp (e slice)) nodes).findSome?
      (tailAfter values t) = none := by
  rw [List.findSome?_eq_none_iff]
  exact forall₂_congr fun _ _ => tailAfter_eq_none.symm

theorem DeadEnds.cons {whole nodes : List μ} {dead : List Nat} (hd : DeadEnds e t whole dead)
    (hs : nodes <:+ whole) (hn : Hopeless e t nodes) :
    DeadEnds e t whole (nodes.length :: dead) := by
  intro other ho hm
  rcases List.mem_cons.mp hm with hl | hm
  -- Two ends of the whole list that are equally long are the same.
  · have hsuffix := List.suffix_of_suffix_length_le ho hs (Nat.le_of_eq hl)
    have hsame : other = nodes := hsuffix.eq_of_length hl
    rw [hsame]
    exact hn
  · exact hd other ho hm

theorem findSome?_cons (v : Value) (values : List Value) (l : List (List Value × List μ)) :
    (l.map (Prod.map (v :: ·) id)).findSome? (tailAfter values t) =
      l.findSome? (tailAfter (v :: values) t) := by
  rw [List.findSome?_map]
  congr 1
  funext cut
  simp [tailAfter]

/-- The cuts that are left to try where the first slice starts with `front`. -/
def openCuts (least : Nat) (values : List Value) (e : List μ → Match μ) (front back : List μ) :
    List (List Value × List μ) :=
  slices (fun slice => usedUp (e slice)) front back ++
    if least ≤ values.length then [([], front ++ back)] else []

/-- A slice that is no element, or after which nothing matches, may as well be longer. -/
theorem findSome?_openCuts_of_hopeless {least : Nat} {values : List Value} {front back : List μ}
    {n : μ} (h : ∀ v, usedUp (e (front ++ [n])) = some v → Hopeless e t back) :
    (openCuts least values e front (n :: back)).findSome? (tailAfter values t) =
      (openCuts least values e (front ++ [n]) back).findSome? (tailAfter values t) := by
  have happ : front ++ n :: back = (front ++ [n]) ++ back := by simp
  rw [openCuts, openCuts, slices, happ, List.append_assoc, List.findSome?_append]
  rcases hv : usedUp (e (front ++ [n])) with _ | v
  · rfl
  · have hfail := (hopeless_iff (v :: values)).mp (h v hv)
    rw [cuts, if_pos rfl] at hfail
    rw [Option.toList_some, List.flatMap_singleton, findSome?_cons, hfail]
    rfl

/-- What the tail makes of the nodes after an element comes before what longer slices lead to. -/
theorem findSome?_openCuts_of_found {least : Nat} {values : List Value} {front back : List μ}
    {n : μ} {v : Value} {r : Value × List μ} (hv : usedUp (e (front ++ [n])) = some v)
    (h : (cuts 0 (fun slice => usedUp (e slice)) back).findSome? (tailAfter (v :: values) t) =
      some r) :
    (openCuts least values e front (n :: back)).findSome? (tailAfter values t) = some r := by
  rw [cuts, if_pos rfl] at h
  rw [openCuts, slices, List.append_assoc, List.findSome?_append, hv, Option.toList_some,
    List.flatMap_singleton, findSome?_cons, h]
  rfl

/-- What a search has to find. -/
def Tells (place : μ → ν) (e t : List μ → Match μ) (whole nodes : List μ) :
    Match μ → Found ν → Prop
  | some (v, rest), found => found = .found v (rest.map place)
  | none, found =>
    ∃ dead, found = .exhausted (nodes.length :: dead) ∧ DeadEnds e t whole dead

/-- With no node left for a further slice, the tail is all there is to try. -/
theorem search_nil_returns {least : Nat} {whole : List μ} (ht : J.Answers place tail t)
    (front : List μ) (values : List Value) (dead : List Nat) (hd : DeadEnds e t whole dead) :
    ∃ found, J.returns (search element tail least (front.map place) [] values dead) found ∧
      Tells place e t whole front
        ((openCuts least values e front []).findSome? (tailAfter values t)) found := by
  have hend : ∃ dead', (.exhausted ((front.map place).length :: dead) : Found ν) =
      .exhausted (front.length :: dead') ∧ DeadEnds e t whole dead' :=
    ⟨dead, by rw [List.length_map], hd⟩
  rw [search, openCuts, slices, List.nil_append, List.append_nil]
  by_cases hc : least ≤ values.length
  · rw [if_pos hc, if_pos hc, List.findSome?_singleton]
    have hfront := ht front
    dsimp only [tailAfter]
    rcases hr : t front with _ | ⟨v, rest⟩
    · rw [hr] at hfront
      exact ⟨_, J.returns_bind hfront (J.returns_pure _), hend⟩
    · rw [hr] at hfront
      exact ⟨_, J.returns_bind hfront (J.returns_pure _), by simp [Tells]⟩
  · rw [if_neg hc, if_neg hc]
    exact ⟨_, J.returns_pure _, hend⟩

/-- The search finds the first of the open cuts, and it remembers no place in vain. -/
theorem search_returns {least : Nat} {whole : List μ} (he : J.Answers place element e)
    (ht : J.Answers place tail t) (front back : List μ) (values : List Value) (dead : List Nat)
    (hl : least ≤ values.length + 1) (hs : front ++ back <:+ whole)
    (hd : DeadEnds e t whole dead) :
    ∃ found, J.returns
        (search element tail least (front.map place) (back.map place) values dead) found ∧
      Tells place e t whole (front ++ back)
        ((openCuts least values e front back).findSome? (tailAfter values t)) found := by
  -- The nodes after the slice get fewer: it takes one more of them, or the next slice starts there.
  induction back generalizing front values dead with
  | nil =>
    rw [List.append_nil]
    exact search_nil_returns ht front values dead hd
  | cons n back ih =>
    have hback : back <:+ whole := ((List.suffix_cons n back).trans
      (List.suffix_append front _)).trans hs
    have happ : front ++ n :: back = (front ++ [n]) ++ back := by simp
    rw [happ] at hs ⊢
    -- Going on with a longer slice is what is left to do if this slice leads nowhere.
    have hlonger (dead' : List Nat) (hd' : DeadEnds e t whole dead')
        (hno : ∀ v, usedUp (e (front ++ [n])) = some v → Hopeless e t back) :
        ∃ found, J.returns (search element tail least (front.map place ++ [place n])
            (back.map place) values dead') found ∧
          Tells place e t whole (front ++ [n] ++ back)
            ((openCuts least values e front (n :: back)).findSome? (tailAfter values t)) found := by
      rw [findSome?_openCuts_of_hopeless hno]
      have hgo := ih (front ++ [n]) values dead' hl hs hd'
      rwa [List.map_append, List.map_singleton] at hgo
    rw [List.map_cons, search, List.length_map]
    by_cases hm : back.length ∈ dead
    · rw [if_pos hm]
      exact hlonger dead hd fun _ _ => hd back hback hm
    · rw [if_neg hm]
      have hslice := he (front ++ [n])
      rw [List.map_append, List.map_singleton] at hslice
      rcases hr : e (front ++ [n]) with _ | ⟨v, _ | ⟨x, rest⟩⟩
      · rw [hr] at hslice
        obtain ⟨found, hf, htold⟩ := hlonger dead hd (by simp [hr, usedUp])
        exact ⟨found, J.returns_bind hslice hf, htold⟩
      · rw [hr] at hslice
        -- The slice is an element: the next one starts after it.
        obtain ⟨inner, hi, hinner⟩ := ih [] (v :: values) dead (by simp; omega) hback hd
        have hopen : openCuts least (v :: values) e [] back =
            cuts 0 (fun slice => usedUp (e slice)) back := by
          rw [openCuts, cuts, if_pos (by simpa using hl), if_pos rfl, List.nil_append]
        rw [hopen] at hinner
        rcases hfirst : (cuts 0 (fun slice => usedUp (e slice)) back).findSome?
            (tailAfter (v :: values) t) with _ | ⟨w, rest⟩
        · rw [hfirst] at hinner
          obtain ⟨dead', rfl, hd'⟩ := hinner
          have hno : Hopeless e t back := (hopeless_iff (v :: values)).mpr hfirst
          obtain ⟨found, hf, htold⟩ := hlonger _ (hd'.cons hback hno) fun _ _ => hno
          exact ⟨found, J.returns_bind hslice (J.returns_bind hi hf), htold⟩
        · rw [hfirst] at hinner
          obtain rfl : inner = _ := hinner
          refine ⟨_, J.returns_bind hslice (J.returns_bind hi (J.returns_pure _)), ?_⟩
          have hused : usedUp (e (front ++ [n])) = some v := by
            rw [hr]
            rfl
          rw [findSome?_openCuts_of_found hused hfirst]
          rfl
      · rw [hr] at hslice
        obtain ⟨found, hf, htold⟩ := hlonger dead hd (by simp [hr, usedUp])
        exact ⟨found, J.returns_bind hslice hf, htold⟩

/-- A repetition answers what the first cut gives that the tail matches after. -/
theorem answers_repetition {least : Nat} (hl : least ≤ 1) (he : J.Answers place element e)
    (ht : J.Answers place tail t) :
    J.Answers place (repetition least element tail) (firstCut least e t) := by
  intro nodes
  have hnone : DeadEnds e t nodes [] := fun _ _ h => by cases h
  obtain ⟨found, hf, htold⟩ :=
    search_returns he ht [] nodes [] [] hl (List.suffix_refl _) hnone
  have hopen : openCuts least [] e [] nodes = cuts least (fun slice => usedUp (e slice)) nodes := by
    simp [openCuts, cuts]
  rw [hopen] at htold
  refine J.returns_bind hf ?_
  change Tells place e t nodes nodes (firstCut least e t nodes) found at htold
  rcases hr : firstCut least e t nodes with _ | ⟨v, rest⟩ <;> rw [hr] at htold
  · obtain ⟨dead, rfl, -⟩ := htold
    exact J.returns_pure _
  · obtain rfl : found = _ := htold
    exact J.returns_pure _

end Matcher

end TreeGrammar
