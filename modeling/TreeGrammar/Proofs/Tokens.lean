import TreeGrammar.Proofs.Compilation

/-!
The tokens inside values. A result of a body uses up the first nodes, and its value holds the tokens
of these nodes, in order and each of them once.
-/
namespace TreeGrammar

namespace Value

mutual

/-- The places and texts of the leaves in a value, from left to right. -/
def leaves : Value → List (Loc × String)
  | tuple [loc place, text token] => [(place, token)]
  | tuple values => leavesOf values
  | list values => leavesOf values
  | case _ value => leaves value
  | loc _ | text _ | datum _ => []

def leavesOf : List Value → List (Loc × String)
  | [] => []
  | value :: rest => leaves value ++ leavesOf rest

end

/-- Whether a value is only one half of a leaf. -/
def isHalf : Value → Bool
  | loc _ | text _ => true
  | _ => false

/-- The value holds the given tokens, and it is no half of a leaf. -/
def Holds (v : Value) (tokens : List (Loc × String)) : Prop :=
  v.isHalf = false ∧ v.leaves = tokens

/-- The values hold the given tokens one after the other. -/
def HoldAll (vs : List Value) (tokens : List (Loc × String)) : Prop :=
  (∀ v ∈ vs, v.isHalf = false) ∧ leavesOf vs = tokens

theorem holds_unit : unit.Holds [] :=
  ⟨rfl, rfl⟩

theorem holdAll_nil : HoldAll [] [] :=
  ⟨List.forall_mem_nil _, rfl⟩

theorem Holds.cons {v : Value} {vs : List Value} {a b : List (Loc × String)} (hv : v.Holds a)
    (hs : HoldAll vs b) : HoldAll (v :: vs) (a ++ b) := by
  refine ⟨List.forall_mem_cons.mpr ⟨hv.1, hs.1⟩, ?_⟩
  rw [leavesOf, hv.2, hs.2]

theorem HoldAll.list {vs : List Value} {a : List (Loc × String)} (h : HoldAll vs a) :
    (Value.list vs).Holds a := by
  refine ⟨rfl, ?_⟩
  rw [leaves, h.2]

theorem Holds.case {v : Value} {a : List (Loc × String)} (h : v.Holds a) (index : Int) :
    (Value.case index v).Holds a := by
  refine ⟨rfl, ?_⟩
  rw [leaves, h.2]

/-- A tuple of values that are no halves is not mistaken for a leaf. -/
theorem HoldAll.tupled {vs : List Value} {a : List (Loc × String)} (h : HoldAll vs a) :
    (Value.tupled vs).Holds a := by
  have htuple : (Value.tuple vs).leaves = a := by
    rw [leaves, h.2]
    rintro place token rfl
    have hhalf := h.1 (.loc place) List.mem_cons_self
    cases hhalf
  -- A single value stays bare, so it is no tuple that could be mistaken.
  match vs, h, htuple with
  | [v], h, _ =>
    have hv := h.2
    rw [leavesOf, leavesOf, List.append_nil] at hv
    exact ⟨h.1 v List.mem_cons_self, hv⟩
  | [], _, ht => exact ⟨rfl, ht⟩
  | _ :: _ :: _, _, ht => exact ⟨rfl, ht⟩

end Value

theorem mem_of_complete {ν : Type} {results : List (Value × List ν)} {v : Value}
    (h : complete results = some v) : (v, []) ∈ results := by
  obtain ⟨⟨w, rest⟩, hm, hr⟩ := List.exists_of_findSome?_eq_some h
  cases rest with
  | nil =>
    cases hr
    exact hm
  | cons n rest => cases hr

variable {ν : Type}

/-- What the rules and leaves are read as holds the tokens that a node has. -/
structure Reading.Keeps (read : Reading ν) (tokens : ν → List (Loc × String))
    (needs : List Body.Need) : Prop where
  rule : ∀ name, .rule name ∈ needs → ∀ nodes, ∀ r ∈ read.call name nodes,
    ∃ n, nodes = n :: r.2 ∧ r.1.Holds (tokens n)
  token : ∀ text, .token text ∈ needs → ∀ n, (read.kind n).alike text →
    (read.leaf n).Holds (tokens n)

section
variable {read : Reading ν} {tokens : ν → List (Loc × String)}

theorem Reading.Keeps.left {a b : List Body.Need} (h : read.Keeps tokens (a ++ b)) :
    read.Keeps tokens a :=
  ⟨fun name hn => h.rule name (List.mem_append_left b hn),
    fun text ht => h.token text (List.mem_append_left b ht)⟩

theorem Reading.Keeps.right {a b : List Body.Need} (h : read.Keeps tokens (a ++ b)) :
    read.Keeps tokens b :=
  ⟨fun name hn => h.rule name (List.mem_append_right a hn),
    fun text ht => h.token text (List.mem_append_right a ht)⟩

/-- The result uses up the first nodes and holds their tokens. -/
def UsesUp (tokens : ν → List (Loc × String)) (nodes : List ν) (r : Value × List ν) : Prop :=
  ∃ used, nodes = used ++ r.2 ∧ r.1.Holds (used.flatMap tokens)

/-- The results one after the other use up the first nodes and hold their tokens. -/
def AllUseUp (tokens : ν → List (Loc × String)) (nodes : List ν) (r : List Value × List ν) :
    Prop :=
  ∃ used, nodes = used ++ r.2 ∧ Value.HoldAll r.1 (used.flatMap tokens)

theorem UsesUp.cons {nodes : List ν} {r : Value × List ν} {rs : List Value × List ν}
    (h : UsesUp tokens nodes r) (hs : AllUseUp tokens r.2 rs) :
    AllUseUp tokens nodes (r.1 :: rs.1, rs.2) := by
  obtain ⟨used, hnodes, hv⟩ := h
  obtain ⟨others, hrest, hvs⟩ := hs
  refine ⟨used ++ others, ?_, ?_⟩
  · rw [hnodes, hrest, List.append_assoc]
  · rw [List.flatMap_append]
    exact hv.cons hvs

theorem allUseUp_nil (nodes : List ν) : AllUseUp tokens nodes ([], nodes) :=
  ⟨[], rfl, Value.holdAll_nil⟩

theorem AllUseUp.map {nodes : List ν} {r : List Value × List ν} (h : AllUseUp tokens nodes r)
    {f : List Value → Value} (hf : ∀ vs a, Value.HoldAll vs a → (f vs).Holds a) :
    UsesUp tokens nodes (f r.1, r.2) := by
  obtain ⟨used, hnodes, hvs⟩ := h
  exact ⟨used, hnodes, hf _ _ hvs⟩

theorem usesUp_leafOf {needs : List Body.Need} {text : Label} (h : read.Keeps tokens needs)
    (ht : .token text ∈ needs) {nodes : List ν} {r : Value × List ν}
    (hr : read.leafOf text nodes = some r) : UsesUp tokens nodes r := by
  cases nodes with
  | nil => cases hr
  | cons n rest =>
    rw [Reading.leafOf] at hr
    split at hr
    · rename_i hk
      cases hr
      refine ⟨[n], rfl, ?_⟩
      rw [List.flatMap_singleton]
      exact h.token text ht n hk
    · cases hr

/-- Slices of which each holds its tokens hold the tokens of all. -/
theorem allUseUp_slices {element : List ν → Option Value}
    (he : ∀ slice v, element slice = some v → v.Holds (slice.flatMap tokens))
    (front back : List ν) {r : List Value × List ν} (hr : r ∈ slices element front back) :
    AllUseUp tokens (front ++ back) r := by
  induction back generalizing front r with
  | nil => cases hr
  | cons n back ih =>
    have happ : front ++ n :: back = (front ++ [n]) ++ back := by simp
    rw [slices, List.mem_append] at hr
    rw [happ]
    rcases hr with hr | hr
    · obtain ⟨v, hv, hr⟩ := List.mem_flatMap.mp hr
      obtain ⟨rs, hrs, rfl⟩ := List.mem_map.mp hr
      have hfirst : UsesUp tokens (front ++ [n] ++ back) (v, back) :=
        ⟨front ++ [n], rfl, he _ _ (Option.mem_toList.mp hv)⟩
      have hmore : AllUseUp tokens back rs := by
        rcases List.mem_append.mp hrs with hrs | hrs
        · exact ih [] hrs
        · rw [List.mem_singleton.mp hrs]
          exact allUseUp_nil back
      exact hfirst.cons hmore
    · exact ih (front ++ [n]) hr

namespace Body

mutual

/-- Every result of a body uses up nodes whose tokens its value holds. -/
theorem usesUp_of_mem_results : (body : Body) → read.Keeps tokens body.needs →
    ∀ nodes, ∀ r ∈ body.results read nodes, UsesUp tokens nodes r
  | symbol name, h, nodes, r, hr => by
    rw [results] at hr
    obtain ⟨n, hnodes, hv⟩ := h.rule name (List.mem_singleton_self _) nodes r hr
    refine ⟨[n], hnodes, ?_⟩
    rw [List.flatMap_singleton]
    exact hv
  | literal text, h, nodes, r, hr | pattern text, h, nodes, r, hr => by
    rw [results] at hr
    exact usesUp_leafOf h (List.mem_singleton_self _) (Option.mem_toList.mp hr)
  | blank, h, nodes, r, hr => by
    rw [results] at hr
    rw [List.mem_singleton.mp hr]
    exact ⟨[], rfl, Value.holds_unit⟩
  | star body, h, nodes, r, hr => by
    rw [results] at hr
    obtain ⟨rs, hrs, rfl⟩ := List.mem_map.mp hr
    refine AllUseUp.map ?_ fun _ _ => Value.HoldAll.list
    rcases List.mem_append.mp hrs with hrs | hrs
    · exact allUseUp_slices (fun slice v => holds_of_complete body h slice v) [] nodes hrs
    · rw [List.mem_singleton.mp hrs]
      exact allUseUp_nil nodes
  | plus body, h, nodes, r, hr => by
    rw [results] at hr
    obtain ⟨rs, hrs, rfl⟩ := List.mem_map.mp hr
    refine AllUseUp.map ?_ fun _ _ => Value.HoldAll.list
    exact allUseUp_slices (fun slice v => holds_of_complete body h slice v) [] nodes hrs
  | choice bodies, h, nodes, r, hr => by
    rw [results] at hr
    exact usesUp_of_mem_resultsOfCases bodies h 0 nodes r hr
  | seq bodies, h, nodes, r, hr => by
    rw [results] at hr
    obtain ⟨rs, hrs, rfl⟩ := List.mem_map.mp hr
    exact (allUseUp_of_mem_resultsOfAll bodies h nodes rs hrs).map fun _ _ => Value.HoldAll.tupled

/-- The value of a slice that is used up holds the tokens of the slice. -/
theorem holds_of_complete : (body : Body) → read.Keeps tokens body.needs →
    ∀ slice v, complete (body.results read slice) = some v → v.Holds (slice.flatMap tokens)
  | body, h, slice, v, hv => by
    obtain ⟨used, hslice, hholds⟩ :=
      usesUp_of_mem_results body h slice (v, []) (mem_of_complete hv)
    rw [hslice, List.append_nil]
    exact hholds

theorem allUseUp_of_mem_resultsOfAll : (bodies : List Body) → read.Keeps tokens (needsOf bodies) →
    ∀ nodes, ∀ r ∈ resultsOfAll read bodies nodes, AllUseUp tokens nodes r
  | [], _, nodes, r, hr => by
    rw [resultsOfAll] at hr
    rw [List.mem_singleton.mp hr]
    exact allUseUp_nil nodes
  | body :: rest, h, nodes, r, hr => by
    rw [resultsOfAll] at hr
    obtain ⟨first, hfirst, hr⟩ := List.mem_flatMap.mp hr
    obtain ⟨rs, hrs, rfl⟩ := List.mem_map.mp hr
    have hbody := usesUp_of_mem_results body h.left nodes first hfirst
    exact hbody.cons (allUseUp_of_mem_resultsOfAll rest h.right first.2 rs hrs)

theorem usesUp_of_mem_resultsOfCases : (bodies : List Body) → read.Keeps tokens (needsOf bodies) →
    ∀ index nodes, ∀ r ∈ resultsOfCases read index bodies nodes, UsesUp tokens nodes r
  | [], _, index, nodes, r, hr => by
    rw [resultsOfCases] at hr
    cases hr
  | body :: rest, h, index, nodes, r, hr => by
    rw [resultsOfCases] at hr
    rcases List.mem_append.mp hr with hr | hr
    · obtain ⟨first, hfirst, rfl⟩ := List.mem_map.mp hr
      obtain ⟨used, hnodes, hv⟩ := usesUp_of_mem_results body h.left nodes first hfirst
      exact ⟨used, hnodes, hv.case index⟩
    · exact usesUp_of_mem_resultsOfCases rest h.right (index + 1) nodes r hr

end

end Body

end

end TreeGrammar
