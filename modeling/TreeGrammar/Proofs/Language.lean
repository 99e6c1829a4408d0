import Mathlib.Computability.Language
import TreeGrammar.Proofs.Readings

/-!
The language of a body: the lists of nodes that have a complete result. Sequences are
concatenations, choices unions and repetitions iterations, except that one or more elements are
never the empty list, whatever the element is.
-/
namespace TreeGrammar

variable {ν : Type}

/-- What nodes have to be for symbols and for tokens. -/
structure Tests (ν : Type) where
  rule : Label → ν → Prop
  token : Label → ν → Prop

def single (p : ν → Prop) : Language ν :=
  {nodes | ∃ n, nodes = [n] ∧ p n}

/-- One or more words of a language. -/
def oneOrMore (l : Language ν) : Language ν :=
  l * KStar.kstar l

/-- One or more words of a language, but not the empty list. -/
def oneOrMoreNodes (l : Language ν) : Language ν :=
  {nodes | nodes ∈ oneOrMore l ∧ nodes ≠ []}

namespace Body

mutual

/-- The language of a body, given what one or more words of a language are. -/
def words (more : Language ν → Language ν) (tests : Tests ν) : Body → Language ν
  | symbol name => single (tests.rule name)
  | literal text | pattern text => single (tests.token text)
  | blank => 1
  | star body => KStar.kstar (words more tests body)
  | plus body => more (words more tests body)
  | choice bodies => wordsOfCases more tests bodies
  | seq bodies => wordsOfAll more tests bodies

def wordsOfCases (more : Language ν → Language ν) (tests : Tests ν) : List Body → Language ν
  | [] => 0
  | body :: rest => words more tests body + wordsOfCases more tests rest

def wordsOfAll (more : Language ν → Language ν) (tests : Tests ν) : List Body → Language ν
  | [] => 1
  | body :: rest => words more tests body * wordsOfAll more tests rest

end

/-- The ordinary language of a body. -/
def language (tests : Tests ν) : Body → Language ν :=
  words oneOrMore tests

/-- The language of a body where one or more elements are never the empty list. -/
def matched (tests : Tests ν) : Body → Language ν :=
  words oneOrMoreNodes tests

end Body

/-- What is tested when nodes are read: that a rule answers for a node, or that the node is of the
kind of a token. -/
def Reading.tests (read : Reading ν) : Tests ν where
  rule name n := read.call name [n] ≠ []
  token text n := (read.kind n).alike text

/-- The rest of the nodes is left after a word of the language. -/
def LeftAfter (l : Language ν) (nodes rest : List ν) : Prop :=
  ∃ used ∈ l, nodes = used ++ rest

theorem complete_isSome_iff {results : List (Value × List ν)} :
    (complete results).isSome ↔ ∃ v, (v, []) ∈ results := by
  rw [complete, List.findSome?_isSome_iff]
  constructor
  · rintro ⟨⟨v, rest⟩, hm, hr⟩
    cases rest with
    | nil => exact ⟨v, hm⟩
    | cons n rest => cases hr
  · rintro ⟨v, hm⟩
    exact ⟨(v, []), hm, rfl⟩

theorem leftAfter_one {nodes rest : List ν} : LeftAfter 1 nodes rest ↔ nodes = rest := by
  constructor
  · rintro ⟨used, hu, rfl⟩
    rw [(Language.mem_one used).mp hu, List.nil_append]
  · rintro rfl
    exact ⟨[], Language.nil_mem_one, rfl⟩

theorem leftAfter_mul {l m : Language ν} {nodes rest : List ν} :
    LeftAfter (l * m) nodes rest ↔
      ∃ middle, LeftAfter l nodes middle ∧ LeftAfter m middle rest := by
  constructor
  · rintro ⟨used, hu, rfl⟩
    obtain ⟨a, ha, b, hb, rfl⟩ := Language.mem_mul.mp hu
    exact ⟨b ++ rest, ⟨a, ha, List.append_assoc _ _ _⟩, ⟨b, hb, rfl⟩⟩
  · rintro ⟨middle, ⟨a, ha, rfl⟩, b, hb, rfl⟩
    exact ⟨a ++ b, Language.append_mem_mul ha hb, (List.append_assoc _ _ _).symm⟩

theorem leftAfter_add {l m : Language ν} {nodes rest : List ν} :
    LeftAfter (l + m) nodes rest ↔ LeftAfter l nodes rest ∨ LeftAfter m nodes rest := by
  constructor
  · rintro ⟨used, hu, hn⟩
    rcases (Language.mem_add _ _ _).mp hu with hu | hu
    · exact .inl ⟨used, hu, hn⟩
    · exact .inr ⟨used, hu, hn⟩
  · rintro (⟨used, hu, hn⟩ | ⟨used, hu, hn⟩)
    · exact ⟨used, (Language.mem_add _ _ _).mpr (.inl hu), hn⟩
    · exact ⟨used, (Language.mem_add _ _ _).mpr (.inr hu), hn⟩

theorem leftAfter_single {p : ν → Prop} {nodes rest : List ν} :
    LeftAfter (single p) nodes rest ↔ ∃ n, nodes = n :: rest ∧ p n := by
  constructor
  · rintro ⟨used, ⟨n, rfl, hp⟩, rfl⟩
    exact ⟨n, rfl, hp⟩
  · rintro ⟨n, rfl, hp⟩
    exact ⟨[n], ⟨n, rfl, hp⟩, rfl⟩

/-- A word of an iteration that is not empty starts with a word that is not empty. -/
theorem exists_cons_of_mem_kstar {l : Language ν} {nodes : List ν} (h : nodes ∈ KStar.kstar l)
    (hne : nodes ≠ []) : ∃ a ∈ l, a ≠ [] ∧ ∃ b ∈ KStar.kstar l, nodes = a ++ b := by
  obtain ⟨words, rfl, hw⟩ := Language.mem_kstar_iff_exists_nonempty.mp h
  cases words with
  | nil => exact absurd rfl hne
  | cons a rest =>
    obtain ⟨ha, hane⟩ := hw a List.mem_cons_self
    refine ⟨a, ha, hane, rest.flatten, ?_, rfl⟩
    exact Language.join_mem_kstar fun y hy => (hw y (List.mem_cons_of_mem a hy)).1

theorem append_mem_kstar {l : Language ν} {a b : List ν} (ha : a ∈ l)
    (hb : b ∈ KStar.kstar l) : a ++ b ∈ KStar.kstar l := by
  obtain ⟨words, rfl, hw⟩ := Language.mem_kstar.mp hb
  exact Language.join_mem_kstar (List.forall_mem_cons.mpr ⟨ha, hw⟩)

theorem mem_oneOrMoreNodes_iff {l : Language ν} {nodes : List ν} :
    nodes ∈ oneOrMoreNodes l ↔ nodes ∈ KStar.kstar l ∧ nodes ≠ [] := by
  constructor
  · rintro ⟨hm, hne⟩
    obtain ⟨a, ha, b, hb, rfl⟩ := Language.mem_mul.mp hm
    exact ⟨append_mem_kstar ha hb, hne⟩
  · rintro ⟨hm, hne⟩
    obtain ⟨a, ha, -, b, hb, rfl⟩ := exists_cons_of_mem_kstar hm hne
    exact ⟨Language.append_mem_mul ha hb, hne⟩

/-- The first slice takes up some nodes after `front`, and the others are words after these. -/
def Sliced (l : Language ν) (front back rest : List ν) : Prop :=
  ∃ more a, more ≠ [] ∧ back = more ++ (a ++ rest) ∧ front ++ more ∈ l ∧ a ∈ KStar.kstar l

section
variable {element : List ν → Option Value} {l : Language ν}

theorem sliced_of_mem_slices (hl : ∀ slice, (element slice).isSome ↔ slice ∈ l)
    {front back rest : List ν} {vs : List Value} (h : (vs, rest) ∈ slices element front back) :
    Sliced l front back rest := by
  induction back generalizing front vs with
  | nil => cases h
  | cons n back ih =>
    rw [slices, List.mem_append] at h
    rcases h with h | h
    -- The first slice ends here.
    · obtain ⟨v, hv, h⟩ := List.mem_flatMap.mp h
      obtain ⟨⟨ws, left⟩, hws, heq⟩ := List.mem_map.mp h
      cases heq
      have hfirst : front ++ [n] ∈ l := by
        apply (hl _).mp
        exact Option.isSome_of_mem (Option.mem_toList.mp hv)
      have hne : [n] ≠ [] := List.cons_ne_nil n []
      rcases List.mem_append.mp hws with hws | hws
      · obtain ⟨more, a, -, rfl, hmore, ha⟩ := ih hws
        exact ⟨[n], more ++ a, hne, by simp, hfirst, append_mem_kstar hmore ha⟩
      · cases List.mem_singleton.mp hws
        exact ⟨[n], [], hne, rfl, hfirst, Language.nil_mem_kstar l⟩
    · obtain ⟨more, a, -, rfl, hmore, ha⟩ := ih h
      rw [List.append_assoc] at hmore
      exact ⟨n :: more, a, List.cons_ne_nil n more, rfl, hmore, ha⟩

theorem cons_mem_slices {front back rest : List ν} {n : ν} {v : Value} {ws : List Value}
    (hv : element (front ++ [n]) = some v)
    (hws : (ws, rest) ∈ slices element [] back ++ [([], back)]) :
    (v :: ws, rest) ∈ slices element front (n :: back) := by
  rw [slices, hv]
  apply List.mem_append_left
  apply List.mem_flatMap.mpr
  exact ⟨v, List.mem_singleton_self v, List.mem_map.mpr ⟨(ws, rest), hws, rfl⟩⟩

theorem exists_mem_slices (hl : ∀ slice, (element slice).isSome ↔ slice ∈ l)
    {front back rest : List ν} (h : Sliced l front back rest) :
    ∃ vs, (vs, rest) ∈ slices element front back := by
  induction back generalizing front with
  | nil =>
    obtain ⟨more, a, hne, hback, -, -⟩ := h
    exact absurd (List.append_eq_nil_iff.mp hback.symm).1 hne
  | cons n back ih =>
    obtain ⟨more, a, hne, hback, hmore, ha⟩ := h
    obtain ⟨first, more, rfl⟩ := List.exists_cons_of_ne_nil hne
    obtain ⟨rfl, rfl⟩ := List.cons_eq_cons.mp hback
    by_cases hend : more = []
    · subst hend
      obtain ⟨v, hv⟩ := Option.isSome_iff_exists.mp ((hl (front ++ [n])).mpr hmore)
      by_cases hnil : a = []
      · rw [hnil]
        exact ⟨[v], cons_mem_slices hv (List.mem_append_right _ (List.mem_singleton_self _))⟩
      -- An empty word is no slice, so the next slice is the next word that is not empty.
      · obtain ⟨b, hb, hbne, c, hc, rfl⟩ := exists_cons_of_mem_kstar ha hnil
        have hnext : Sliced l [] ((b ++ c) ++ rest) rest :=
          ⟨b, c, hbne, List.append_assoc b c rest, hb, hc⟩
        obtain ⟨ws, hws⟩ := ih hnext
        exact ⟨v :: ws, cons_mem_slices hv (List.mem_append_left _ hws)⟩
    · have hlonger : front ++ [n] ++ more ∈ l := by rwa [List.append_assoc]
      obtain ⟨vs, hvs⟩ := ih ⟨more, a, hend, rfl, hlonger, ha⟩
      rw [slices]
      exact ⟨vs, List.mem_append_right _ hvs⟩

end

theorem leftAfter_oneOrMoreNodes {l : Language ν} {nodes rest : List ν} :
    LeftAfter (oneOrMoreNodes l) nodes rest ↔ Sliced l [] nodes rest := by
  constructor
  · rintro ⟨used, hu, rfl⟩
    obtain ⟨hu, hne⟩ := mem_oneOrMoreNodes_iff.mp hu
    obtain ⟨a, ha, hane, b, hb, rfl⟩ := exists_cons_of_mem_kstar hu hne
    exact ⟨a, b, hane, List.append_assoc _ _ _, ha, hb⟩
  · rintro ⟨more, a, hne, rfl, hmore, ha⟩
    refine ⟨more ++ a, mem_oneOrMoreNodes_iff.mpr ⟨append_mem_kstar hmore ha, ?_⟩, ?_⟩
    · exact fun h => hne (List.append_eq_nil_iff.mp h).1
    · rw [List.append_assoc]

/-- The slices of nodes whose elements have values are the words of the language of these. -/
theorem exists_mem_slices_iff {element : List ν → Option Value} {l : Language ν}
    (hl : ∀ slice, (element slice).isSome ↔ slice ∈ l) (nodes rest : List ν) :
    (∃ vs, (vs, rest) ∈ slices element [] nodes) ↔ LeftAfter (oneOrMoreNodes l) nodes rest := by
  rw [leftAfter_oneOrMoreNodes]
  constructor
  · intro h
    obtain ⟨vs, hvs⟩ := h
    exact sliced_of_mem_slices hl hvs
  · exact exists_mem_slices hl

theorem leftAfter_kstar {l : Language ν} {nodes rest : List ν} :
    LeftAfter (KStar.kstar l) nodes rest ↔
      LeftAfter (oneOrMoreNodes l) nodes rest ∨ nodes = rest := by
  constructor
  · rintro ⟨used, hu, rfl⟩
    by_cases hnil : used = []
    · exact .inr (by rw [hnil, List.nil_append])
    · exact .inl ⟨used, mem_oneOrMoreNodes_iff.mpr ⟨hu, hnil⟩, rfl⟩
  · rintro (⟨used, hu, rfl⟩ | rfl)
    · exact ⟨used, (mem_oneOrMoreNodes_iff.mp hu).1, rfl⟩
    · exact ⟨[], Language.nil_mem_kstar l, rfl⟩

theorem exists_mem_map_iff {α β : Type} {f : α → β} {l : List (α × List ν)} {rest : List ν} :
    (∃ b, (b, rest) ∈ l.map (Prod.map f id)) ↔ ∃ a, (a, rest) ∈ l := by
  constructor
  · rintro ⟨b, hb⟩
    obtain ⟨⟨a, left⟩, ha, heq⟩ := List.mem_map.mp hb
    cases heq
    exact ⟨a, ha⟩
  · rintro ⟨a, ha⟩
    exact ⟨f a, List.mem_map.mpr ⟨(a, rest), ha, rfl⟩⟩

theorem exists_mem_append_iff {α : Type} {a b : List (α × List ν)} {rest : List ν} :
    (∃ v, (v, rest) ∈ a ++ b) ↔ (∃ v, (v, rest) ∈ a) ∨ ∃ v, (v, rest) ∈ b := by
  simp only [List.mem_append, exists_or]

theorem exists_mem_end_iff {nodes rest : List ν} :
    (∃ vs : List Value, (vs, rest) ∈ [([], nodes)]) ↔ nodes = rest := by
  simp only [List.mem_singleton, Prod.mk.injEq, exists_eq_left]
  exact eq_comm

theorem exists_mem_leafOf_iff {read : Reading ν} {text : Label} {nodes rest : List ν} :
    (∃ v, (v, rest) ∈ (read.leafOf text nodes).toList) ↔
      LeftAfter (single (read.tests.token text)) nodes rest := by
  rw [leftAfter_single]
  simp only [Option.mem_toList]
  cases nodes with
  | nil => simp [Reading.leafOf]
  | cons n left =>
    by_cases hk : (read.kind n).alike text
    · simp [Reading.leafOf, Reading.tests, hk]
    · simp [Reading.leafOf, Reading.tests, hk]

/-- Symbols are read off the first node alone, and have one result at most. -/
def Reading.LooksAt (read : Reading ν) (answer : ν → Label → Option Value) : Prop :=
  ∀ name nodes, read.call name nodes = (Match.first answer name nodes).toList

variable {read : Reading ν} {answer : ν → Label → Option Value}

theorem Reading.LooksAt.rule_iff (hc : read.LooksAt answer) {name : Label} {n : ν} :
    read.tests.rule name n ↔ (Match.first answer name [n]).isSome := by
  change read.call name [n] ≠ [] ↔ _
  rw [hc]
  cases Match.first answer name [n] <;> simp

theorem exists_mem_call_iff (hc : read.LooksAt answer) {name : Label} {nodes rest : List ν} :
    (∃ v, (v, rest) ∈ read.call name nodes) ↔
      LeftAfter (single (read.tests.rule name)) nodes rest := by
  rw [leftAfter_single, Reading.tests]
  simp only [hc name, Option.mem_toList]
  cases nodes with
  | nil => simp [Match.first, Match.ofFirst]
  | cons n left =>
    rcases ha : answer n name with _ | v
    · simp [Match.first, Match.ofFirst, ha]
    · simp [Match.first, Match.ofFirst, ha]

namespace Body

mutual

/-- A body leaves the nodes after the words of its language, provided that symbols look at the first
node alone. -/
theorem exists_mem_results_iff (hc : read.LooksAt answer) : (body : Body) →
    (nodes rest : List ν) → ((∃ v, (v, rest) ∈ body.results read nodes) ↔
      LeftAfter (body.matched read.tests) nodes rest)
  | symbol name, nodes, rest => by
    rw [results, matched, words]
    exact exists_mem_call_iff hc
  | literal text, nodes, rest | pattern text, nodes, rest => by
    rw [results, matched, words]
    exact exists_mem_leafOf_iff
  | blank, nodes, rest => by
    rw [results, matched, words, leftAfter_one]
    simp only [List.mem_singleton, Prod.mk.injEq, exists_eq_left]
    exact eq_comm
  | star body, nodes, rest => by
    have hslices := exists_mem_slices_iff (complete_isSome_iff_mem hc body) nodes rest
    rw [results, exists_mem_map_iff, exists_mem_append_iff, exists_mem_end_iff, hslices, matched,
      words, leftAfter_kstar]
  | plus body, nodes, rest => by
    have hslices := exists_mem_slices_iff (complete_isSome_iff_mem hc body) nodes rest
    rw [results, exists_mem_map_iff, hslices, matched, words]
  | choice bodies, nodes, rest => by
    rw [results, matched, words]
    exact exists_mem_resultsOfCases_iff hc bodies 0 nodes rest
  | seq bodies, nodes, rest => by
    rw [results, exists_mem_map_iff, matched, words]
    exact exists_mem_resultsOfAll_iff hc bodies nodes rest

/-- There is a complete result for the words of the language of a body. -/
theorem complete_isSome_iff_mem (hc : read.LooksAt answer) : (body : Body) →
    (nodes : List ν) → ((complete (body.results read nodes)).isSome ↔
      nodes ∈ body.matched read.tests)
  | body, nodes => by
    rw [complete_isSome_iff, exists_mem_results_iff hc body nodes []]
    constructor
    · rintro ⟨used, hu, rfl⟩
      rwa [List.append_nil]
    · intro h
      exact ⟨nodes, h, (List.append_nil nodes).symm⟩

theorem exists_mem_resultsOfCases_iff (hc : read.LooksAt answer) :
    (bodies : List Body) → (index : Nat) → (nodes rest : List ν) →
      ((∃ v, (v, rest) ∈ resultsOfCases read index bodies nodes) ↔
        LeftAfter (wordsOfCases oneOrMoreNodes read.tests bodies) nodes rest)
  | [], index, nodes, rest => by
    rw [resultsOfCases, wordsOfCases]
    constructor
    · rintro ⟨v, hv⟩
      cases hv
    · rintro ⟨used, hu, -⟩
      cases hu
  | body :: others, index, nodes, rest => by
    rw [resultsOfCases, wordsOfCases, leftAfter_add, exists_mem_append_iff, exists_mem_map_iff,
      exists_mem_results_iff hc body nodes rest,
      exists_mem_resultsOfCases_iff hc others (index + 1) nodes rest]
    rfl

theorem exists_mem_resultsOfAll_iff (hc : read.LooksAt answer) :
    (bodies : List Body) → (nodes rest : List ν) →
      ((∃ vs, (vs, rest) ∈ resultsOfAll read bodies nodes) ↔
        LeftAfter (wordsOfAll oneOrMoreNodes read.tests bodies) nodes rest)
  | [], nodes, rest => by
    rw [resultsOfAll, wordsOfAll, leftAfter_one, exists_mem_end_iff]
  | body :: others, nodes, rest => by
    rw [resultsOfAll, wordsOfAll, leftAfter_mul]
    have hbody (middle : List ν) := exists_mem_results_iff hc body nodes middle
    have hothers (middle : List ν) := exists_mem_resultsOfAll_iff hc others middle rest
    constructor
    · rintro ⟨vs, hvs⟩
      obtain ⟨⟨v, middle⟩, hv, hvs⟩ := List.mem_flatMap.mp hvs
      exact ⟨middle, (hbody middle).mp ⟨v, hv⟩,
        (hothers middle).mp (exists_mem_map_iff.mp ⟨vs, hvs⟩)⟩
    · rintro ⟨middle, hv, hvs⟩
      obtain ⟨v, hv⟩ := (hbody middle).mpr hv
      obtain ⟨vs, hvs⟩ := (hothers middle).mpr hvs
      refine ⟨v :: vs, List.mem_flatMap.mpr ⟨(v, middle), hv, ?_⟩⟩
      exact List.mem_map.mpr ⟨(vs, rest), hvs, rfl⟩

end

variable {tests : Tests ν}

mutual

/-- No element of one or more elements is ever the empty list. -/
def NoEmptyElement (tests : Tests ν) : Body → Prop
  | symbol _ | literal _ | pattern _ | blank => True
  | star body => NoEmptyElement tests body
  | plus body => [] ∉ body.language tests ∧ NoEmptyElement tests body
  | choice bodies | seq bodies => NoEmptyElements tests bodies

def NoEmptyElements (tests : Tests ν) : List Body → Prop
  | [] => True
  | body :: rest => NoEmptyElement tests body ∧ NoEmptyElements tests rest

end

theorem mem_oneOrMore_of_mem {l m : Language ν} (h : ∀ nodes ∈ l, nodes ∈ m) :
    ∀ nodes ∈ oneOrMoreNodes l, nodes ∈ oneOrMore m := by
  intro nodes hn
  obtain ⟨a, ha, b, hb, rfl⟩ := Language.mem_mul.mp hn.1
  obtain ⟨words, rfl, hw⟩ := Language.mem_kstar.mp hb
  exact Language.append_mem_mul (h a ha) (Language.join_mem_kstar fun y hy => h y (hw y hy))

theorem oneOrMoreNodes_eq {l : Language ν} (h : [] ∉ l) : oneOrMoreNodes l = oneOrMore l := by
  ext nodes
  refine ⟨fun hm => hm.1, fun hm => ⟨hm, ?_⟩⟩
  rintro rfl
  obtain ⟨a, ha, b, -, hab⟩ := Language.mem_mul.mp hm
  rw [(List.append_eq_nil_iff.mp hab).1] at ha
  exact h ha

mutual

theorem mem_language_of_mem_matched : (body : Body) →
    ∀ nodes ∈ body.matched tests, nodes ∈ body.language tests
  | symbol _ | literal _ | pattern _ | blank => fun _ h => h
  | star body => by
    intro nodes h
    obtain ⟨words, rfl, hw⟩ := Language.mem_kstar.mp h
    apply Language.join_mem_kstar
    intro y hy
    exact mem_language_of_mem_matched body y (hw y hy)
  | plus body => mem_oneOrMore_of_mem (mem_language_of_mem_matched body)
  | choice bodies => mem_wordsOfCases_of_mem bodies
  | seq bodies => mem_wordsOfAll_of_mem bodies

theorem mem_wordsOfCases_of_mem : (bodies : List Body) →
    ∀ nodes ∈ wordsOfCases oneOrMoreNodes tests bodies,
      nodes ∈ wordsOfCases oneOrMore tests bodies
  | [] => fun _ h => h
  | body :: rest => by
    intro nodes h
    rcases (Language.mem_add _ _ _).mp h with h | h
    · exact (Language.mem_add _ _ _).mpr (.inl (mem_language_of_mem_matched body nodes h))
    · exact (Language.mem_add _ _ _).mpr (.inr (mem_wordsOfCases_of_mem rest nodes h))

theorem mem_wordsOfAll_of_mem : (bodies : List Body) →
    ∀ nodes ∈ wordsOfAll oneOrMoreNodes tests bodies, nodes ∈ wordsOfAll oneOrMore tests bodies
  | [] => fun _ h => h
  | body :: rest => by
    intro nodes h
    obtain ⟨a, ha, b, hb, rfl⟩ := Language.mem_mul.mp h
    have hfirst := mem_language_of_mem_matched body a ha
    exact Language.append_mem_mul hfirst (mem_wordsOfAll_of_mem rest b hb)

end

mutual

/-- Where no element is empty, what is matched is the ordinary language. -/
theorem matched_eq_language : (body : Body) → body.NoEmptyElement tests →
    body.matched tests = body.language tests
  | symbol _, _ | literal _, _ | pattern _, _ | blank, _ => rfl
  | star body, h => by
    have hbody := matched_eq_language body h
    rw [matched, language] at hbody ⊢
    rw [words, words, hbody]
  | plus body, h => by
    have hbody := matched_eq_language body h.2
    rw [matched, language] at hbody ⊢
    rw [words, words, hbody]
    exact oneOrMoreNodes_eq h.1
  | choice bodies, h => by
    rw [matched, language, words, words]
    exact wordsOfCases_eq bodies h
  | seq bodies, h => by
    rw [matched, language, words, words]
    exact wordsOfAll_eq bodies h

theorem wordsOfCases_eq : (bodies : List Body) → NoEmptyElements tests bodies →
    wordsOfCases oneOrMoreNodes tests bodies = wordsOfCases oneOrMore tests bodies
  | [], _ => rfl
  | body :: rest, h => by
    have hbody := matched_eq_language body h.1
    rw [matched, language] at hbody
    rw [wordsOfCases, wordsOfCases, hbody, wordsOfCases_eq rest h.2]

theorem wordsOfAll_eq : (bodies : List Body) → NoEmptyElements tests bodies →
    wordsOfAll oneOrMoreNodes tests bodies = wordsOfAll oneOrMore tests bodies
  | [], _ => rfl
  | body :: rest, h => by
    have hbody := matched_eq_language body h.1
    rw [matched, language] at hbody
    rw [wordsOfAll, wordsOfAll, hbody, wordsOfAll_eq rest h.2]

end

end Body

end TreeGrammar
