import TreeGrammar.Proofs.Padding
import TreeGrammar.Proofs.Preorder

/-!
Taking extras out of a tree. What is left are the nodes on whose way from the root there is no
extra, in the same order, so taking out some kinds and then others is taking out all of them at
once.
-/
namespace TreeGrammar

theorem Label.isAmong_append (labels more : List Label) (label : Label) :
    Label.isAmong (labels ++ more) label =
      (Label.isAmong labels label || Label.isAmong more label) :=
  List.any_append

namespace Tree

open TreeGrammar.Parser (bareNode)

/-- What a node has besides its children. -/
def own (tree : Tree) : Label × Loc × Json × Json :=
  (tree.kind, tree.loc, tree.named, tree.missing)

/-- Whether one of the kinds on the way to a node is that of an extra. -/
def meets (extras way : List Label) : Bool :=
  way.any (Label.isAmong extras)

variable {extras more : List Label}

theorem kind_withoutExtras (extras : List Label) (tree : Tree) :
    (tree.withoutExtras extras).kind = tree.kind := by
  obtain ⟨kind, loc, children, named, missing⟩ := tree
  rw [withoutExtras]
  rfl

mutual

/-- No node is left below the root that has the kind of an extra. -/
theorem free_withoutExtras : (tree : Tree) → ∀ n ∈ (tree.withoutExtras extras).descendants,
    Label.isAmong extras n.kind = false
  | node kind loc children named missing => by
    rw [withoutExtras]
    exact free_keepOthers children

theorem free_keepOthers : (trees : List Tree) → ∀ n ∈ (keepOthers extras trees).flatMap nodes,
    Label.isAmong extras n.kind = false
  | [] => by
    rw [keepOthers]
    exact fun n hn => nomatch hn
  | tree :: rest => by
    rw [keepOthers]
    split
    · exact free_keepOthers rest
    · rename_i hkind
      rw [List.flatMap_cons, nodes_eq_cons]
      refine List.forall_mem_append.mpr ⟨List.forall_mem_cons.mpr ⟨?_, ?_⟩, free_keepOthers rest⟩
      · rw [kind_withoutExtras, Bool.eq_false_iff]
        exact hkind
      · exact free_withoutExtras tree

end

mutual

/-- Taking out some extras and then more is taking out all of them. -/
theorem withoutExtras_withoutExtras : (tree : Tree) →
    (tree.withoutExtras extras).withoutExtras more = tree.withoutExtras (extras ++ more)
  | node kind loc children named missing => by
    rw [withoutExtras, withoutExtras, withoutExtras, keepOthers_keepOthers children]

theorem keepOthers_keepOthers : (trees : List Tree) →
    keepOthers more (keepOthers extras trees) = keepOthers (extras ++ more) trees
  | [] => by rw [keepOthers, keepOthers, keepOthers]
  | tree :: rest => by
    rw [keepOthers, keepOthers, Label.isAmong_append]
    by_cases hextra : Label.isAmong extras tree.kind
    · rw [if_pos hextra, hextra, keepOthers_keepOthers rest]
      rfl
    · rw [if_neg hextra, keepOthers, kind_withoutExtras, withoutExtras_withoutExtras tree,
        keepOthers_keepOthers rest, Bool.eq_false_iff.mpr hextra]
      rfl

end

mutual

/-- Kinds that are the same extras leave the same tree. -/
theorem withoutExtras_congr (h : ∀ kind, Label.isAmong extras kind = Label.isAmong more kind) :
    (tree : Tree) → tree.withoutExtras extras = tree.withoutExtras more
  | node kind loc children named missing => by
    rw [withoutExtras, withoutExtras, keepOthers_congr h children]

theorem keepOthers_congr (h : ∀ kind, Label.isAmong extras kind = Label.isAmong more kind) :
    (trees : List Tree) → keepOthers extras trees = keepOthers more trees
  | [] => by rw [keepOthers, keepOthers]
  | tree :: rest => by
    rw [keepOthers, keepOthers, h, withoutExtras_congr h tree, keepOthers_congr h rest]

end

mutual

theorem withoutExtras_nil : (tree : Tree) → tree.withoutExtras [] = tree
  | node kind loc children named missing => by rw [withoutExtras, keepOthers_nil children]

theorem keepOthers_nil : (trees : List Tree) → keepOthers [] trees = trees
  | [] => by rw [keepOthers]
  | tree :: rest => by
    rw [keepOthers, withoutExtras_nil tree, keepOthers_nil rest]
    rfl

end

mutual

/-- All that is reached on a way with an extra has the extra on its way. -/
theorem meets_of_mem_reached {way : List Label} (h : meets extras way) : (tree : Tree) →
    ∀ entry ∈ tree.reached way, meets extras entry.1
  | node kind loc children named missing => by
    rw [reached]
    exact List.forall_mem_cons.mpr ⟨h, meets_of_mem_reachedIn h children⟩

theorem meets_of_mem_reachedIn {way : List Label} (h : meets extras way) : (trees : List Tree) →
    ∀ entry ∈ reachedIn way trees, meets extras entry.1
  | [] => by
    rw [reachedIn]
    exact fun entry he => nomatch he
  | tree :: rest => by
    have hlonger : meets extras (way ++ [tree.kind]) := by
      rw [meets, List.any_append, Bool.or_eq_true]
      exact .inl h
    rw [reachedIn]
    exact List.forall_mem_append.mpr
      ⟨meets_of_mem_reached hlonger tree, meets_of_mem_reachedIn h rest⟩

end

/-- The entries of nodes on whose way there is no extra. -/
def spared (extras : List Label) (entries : List (List Label × Tree)) : List (List Label × Tree) :=
  entries.filter fun entry => !meets extras entry.1

mutual

/-- The nodes of what is left of a tree are those on whose way there is no extra. -/
theorem reached_withoutExtras {way : List Label} (h : meets extras way = false) : (tree : Tree) →
    ((tree.withoutExtras extras).reached way).map (fun entry => entry.2.own) =
      (spared extras (tree.reached way)).map fun entry => entry.2.own
  | node kind loc children named missing => by
    rw [withoutExtras, reached, reached, spared, List.filter_cons_of_pos (by simp [h]),
      List.map_cons, List.map_cons, reachedIn_keepOthers h children]
    rfl

theorem reachedIn_keepOthers {way : List Label} (h : meets extras way = false) :
    (trees : List Tree) →
    (reachedIn way (keepOthers extras trees)).map (fun entry => entry.2.own) =
      (spared extras (reachedIn way trees)).map fun entry => entry.2.own
  | [] => by
    rw [keepOthers, reachedIn]
    rfl
  | tree :: rest => by
    have hmeets : meets extras (way ++ [tree.kind]) = Label.isAmong extras tree.kind := by
      rw [meets, List.any_append, List.any_cons, List.any_nil, Bool.or_false, ← meets, h,
        Bool.false_or]
    rw [keepOthers, reachedIn, spared, List.filter_append, List.map_append]
    by_cases hextra : Label.isAmong extras tree.kind
    -- The extra is on the way to itself and to all nodes below it, so none of these is spared.
    · have hnone : spared extras (tree.reached (way ++ [tree.kind])) = [] := by
        rw [spared, List.filter_eq_nil_iff]
        intro entry he
        simpa using meets_of_mem_reached (hmeets.trans hextra) tree entry he
      rw [if_pos hextra, reachedIn_keepOthers h rest, ← spared, hnone]
      rfl
    · have hkept := reached_withoutExtras (hmeets.trans (Bool.eq_false_iff.mpr hextra)) tree
      rw [if_neg hextra, reachedIn, List.map_append, kind_withoutExtras, hkept,
        reachedIn_keepOthers h rest]
      rfl

end

mutual

theorem canLookUp_of_isScalar (extras : List Label) : (tree : Tree) →
    (∀ n ∈ tree.nodes, n.kind.isScalar) → tree.canLookUp extras
  | node kind loc children named missing, h => by
    rw [canLookUp]
    exact canLookUpAll_of_isScalar extras children (forall_mem_nodes.mp h).2

theorem canLookUpAll_of_isScalar (extras : List Label) : (trees : List Tree) →
    (∀ tree ∈ trees, ∀ n ∈ tree.nodes, n.kind.isScalar) → canLookUpAll extras trees
  | [], _ => by rw [canLookUpAll]
  | tree :: rest, h => by
    obtain ⟨htree, hrest⟩ := List.forall_mem_cons.mp h
    rw [canLookUpAll, htree tree (self_mem_nodes tree), canLookUp_of_isScalar extras tree htree,
      canLookUpAll_of_isScalar extras rest hrest]
    simp

end

mutual

/-- What can be looked up in turn can be looked up at once. -/
theorem canLookUp_append : (tree : Tree) → tree.canLookUp extras →
    (tree.withoutExtras extras).canLookUp more → tree.canLookUp (extras ++ more)
  | node kind loc children named missing, h, hmore => by
    rw [withoutExtras, canLookUp] at hmore
    rw [canLookUp] at h ⊢
    exact canLookUpAll_append children h hmore

theorem canLookUpAll_append : (trees : List Tree) → canLookUpAll extras trees →
    canLookUpAll more (keepOthers extras trees) → canLookUpAll (extras ++ more) trees
  | [], _, _ => by rw [canLookUpAll]
  | tree :: rest, h, hmore => by
    rw [canLookUpAll, Bool.and_eq_true, Bool.and_eq_true, Bool.or_eq_true] at h
    obtain ⟨⟨hscalar, htree⟩, hrest⟩ := h
    rw [canLookUpAll, hscalar, Label.isAmong_append]
    rw [keepOthers] at hmore
    by_cases hextra : Label.isAmong extras tree.kind
    -- Nothing is looked up below an extra, neither in turn nor at once.
    · rw [if_pos hextra] at hmore
      rw [hextra, canLookUpAll_append rest hrest hmore]
      rfl
    · rw [if_neg hextra, canLookUpAll, kind_withoutExtras, Bool.and_eq_true, Bool.and_eq_true,
        Bool.or_eq_true] at hmore
      obtain ⟨⟨-, hleft⟩, hrestMore⟩ := hmore
      rw [canLookUpAll_append rest hrest hrestMore]
      rcases hleft with hleft | hleft
      · rw [hleft]
        simp
      · rw [canLookUp_append tree (htree.resolve_left hextra) hleft]
        simp

end

mutual

/-- What can be looked up in a tree can be looked up in what is left of it. -/
theorem canLookUp_withoutExtras : (tree : Tree) → tree.canLookUp extras →
    (tree.withoutExtras extras).canLookUp extras
  | node kind loc children named missing, h => by
    rw [canLookUp] at h
    rw [withoutExtras, canLookUp]
    exact canLookUpAll_keepOthers children h

theorem canLookUpAll_keepOthers : (trees : List Tree) → canLookUpAll extras trees →
    canLookUpAll extras (keepOthers extras trees)
  | [], _ => by rw [keepOthers, canLookUpAll]
  | tree :: rest, h => by
    rw [canLookUpAll, Bool.and_eq_true, Bool.and_eq_true, Bool.or_eq_true] at h
    obtain ⟨⟨hscalar, htree⟩, hrest⟩ := h
    rw [keepOthers]
    split
    · exact canLookUpAll_keepOthers rest hrest
    · rename_i hextra
      rw [canLookUpAll, kind_withoutExtras, hscalar,
        canLookUp_withoutExtras tree (htree.resolve_left hextra),
        canLookUpAll_keepOthers rest hrest]
      simp

end

/-- The extras are taken out of a tree if there are none or if they and its kinds can be
compared. -/
theorem stripped_eq_some_iff {tree rest : Tree} : tree.stripped extras = some rest ↔
    rest = tree.withoutExtras extras ∧
      (extras = [] ∨ extras.all Json.isScalar ∧ tree.canLookUp extras) := by
  rw [stripped]
  cases extras with
  | nil =>
    rw [withoutExtras_nil, List.isEmpty_nil, if_pos rfl]
    exact ⟨fun h => ⟨(Option.some.inj h).symm, .inl rfl⟩, fun h => congrArg some h.1.symm⟩
  | cons extra others =>
    rw [if_neg (by simp), ← Bool.and_eq_true]
    by_cases h : ((extra :: others).all Json.isScalar && tree.canLookUp (extra :: others)) = true
    · rw [if_pos h, Option.some.injEq]
      exact ⟨fun heq => ⟨heq.symm, .inr h⟩, fun heq => heq.1.symm⟩
    · rw [if_neg h]
      exact iff_of_false (fun heq => Option.some_ne_none _ heq.symm)
        fun heq => heq.2.elim (List.cons_ne_nil _ _) h

/-- What is left has only kinds that were there before. -/
theorem exists_kind_eq {tree n : Tree} (hn : n ∈ (tree.withoutExtras extras).nodes) :
    ∃ before ∈ tree.nodes, before.kind = n.kind := by
  have hown : n.own ∈ (tree.withoutExtras extras).nodes.map own := List.mem_map_of_mem hn
  rw [nodes, List.map_map] at hown
  have hspared : n.own ∈ (spared extras (tree.reached [])).map fun entry => entry.2.own := by
    rw [← reached_withoutExtras rfl tree]
    exact hown
  obtain ⟨entry, he, hsame⟩ := List.mem_map.mp hspared
  exact ⟨entry.2, List.mem_map_of_mem (List.mem_of_mem_filter he), congrArg Prod.fst hsame⟩

section
variable {tree rest last : Tree}

/-- Extras that are taken out in turn can be taken out at once, which leaves the same. -/
theorem stripped_append (h : tree.stripped extras = some rest)
    (hlast : rest.stripped more = some last) : tree.stripped (extras ++ more) = some last := by
  obtain ⟨rfl, hextras⟩ := stripped_eq_some_iff.mp h
  obtain ⟨rfl, hmore⟩ := stripped_eq_some_iff.mp hlast
  refine stripped_eq_some_iff.mpr ⟨withoutExtras_withoutExtras tree, ?_⟩
  rcases hextras with rfl | ⟨hscalar, hlook⟩
  · rw [withoutExtras_nil] at hmore
    exact hmore
  · rcases hmore with rfl | ⟨hscalarMore, hlookMore⟩
    · rw [List.append_nil]
      exact .inr ⟨hscalar, hlook⟩
    · rw [List.all_append, hscalar, hscalarMore]
      exact .inr ⟨rfl, canLookUp_append tree hlook hlookMore⟩

/-- Nothing is left to take out. -/
theorem stripped_stripped (h : tree.stripped extras = some rest) :
    rest.stripped extras = some rest := by
  obtain ⟨rfl, hextras⟩ := stripped_eq_some_iff.mp h
  refine stripped_eq_some_iff.mpr ⟨?_, hextras.imp_right fun hlook => ?_⟩
  · rw [withoutExtras_withoutExtras]
    exact withoutExtras_congr (fun kind => by rw [Label.isAmong_append, Bool.or_self]) tree
  · exact ⟨hlook.1, canLookUp_withoutExtras tree hlook.2⟩

/-- Kinds that can be compared can be taken out of a tree whose kinds can be. -/
theorem stripped_of_isScalar (he : extras.all Json.isScalar)
    (h : ∀ n ∈ tree.nodes, n.kind.isScalar) :
    tree.stripped extras = some (tree.withoutExtras extras) :=
  stripped_eq_some_iff.mpr ⟨rfl, .inr ⟨he, canLookUp_of_isScalar extras tree h⟩⟩

/-- What is left of a tree: no extra below the root, all nodes that are no extras and stand below
none, as they were and in the same order, and nothing to take out once more. -/
structure Leaves (extras : List Label) (tree rest : Tree) : Prop where
  free : ∀ n ∈ rest.descendants, Label.isAmong extras n.kind = false
  kept : rest.nodes.map own = (spared extras (tree.reached [])).map fun entry => entry.2.own
  again : rest.stripped extras = some rest

theorem leaves_of_stripped (h : tree.stripped extras = some rest) : Leaves extras tree rest := by
  refine ⟨?_, ?_, stripped_stripped h⟩
  · obtain ⟨rfl, -⟩ := stripped_eq_some_iff.mp h
    exact free_withoutExtras tree
  · obtain ⟨rfl, -⟩ := stripped_eq_some_iff.mp h
    rw [nodes, List.map_map]
    exact reached_withoutExtras rfl tree

end

/-- Extras are taken out of a tree with all that is below them, the root apart, and nothing else is.
Taking out some kinds and then others is taking out all of them at once. If the kinds can be
compared they can be taken out, in any order. -/
theorem stripped_removes_extras (tree : Tree) (extras more : List Label) :
    (∀ rest, tree.stripped extras = some rest → Leaves extras tree rest ∧
      ∀ last, rest.stripped more = some last → tree.stripped (extras ++ more) = some last) ∧
    (extras.all Json.isScalar → more.all Json.isScalar → (∀ n ∈ tree.nodes, n.kind.isScalar) →
      ∃ rest last, tree.stripped extras = some rest ∧ rest.stripped more = some last ∧
        (tree.stripped more).bind (stripped extras) = some last) := by
  refine ⟨fun rest h => ⟨leaves_of_stripped h, fun last => stripped_append h⟩, ?_⟩
  intro he hm hkinds
  have hleft (labels : List Label) : ∀ n ∈ (tree.withoutExtras labels).nodes, n.kind.isScalar := by
    intro n hn
    obtain ⟨before, hbefore, hkind⟩ := exists_kind_eq hn
    exact hkind ▸ hkinds before hbefore
  refine ⟨_, _, stripped_of_isScalar he hkinds, stripped_of_isScalar hm (hleft extras), ?_⟩
  rw [stripped_of_isScalar hm hkinds, Option.bind_some, stripped_of_isScalar he (hleft more),
    withoutExtras_withoutExtras, withoutExtras_withoutExtras]
  refine congrArg some (withoutExtras_congr (fun kind => ?_) tree)
  rw [Label.isAmong_append, Label.isAmong_append, Bool.or_comm]

/-- A note with an item in which there is a note, and with a note in which there is an item. -/
def notedNote : Tree :=
  bareNode "note" [bareNode "item" [bareNode "note" []], bareNode "note" [bareNode "item" []]]

/-- Without notes the first item is left, and the root, which is a note itself. -/
theorem notedNote_stripped :
    notedNote.stripped [.str "note"] = some (bareNode "note" [bareNode "item" []]) ∧
    Leaves [.str "note"] notedNote (bareNode "note" [bareNode "item" []]) ∧
    notedNote.stripped [.str "note", .str "item"] = some (bareNode "note" []) := by
  have hnotes : notedNote.stripped [.str "note"] = some (bareNode "note" [bareNode "item" []]) := by
    with_unfolding_all rfl
  have hitems : (bareNode "note" [bareNode "item" []]).stripped [.str "item"] =
      some (bareNode "note" []) := by
    with_unfolding_all rfl
  obtain ⟨hleaves, hboth⟩ :=
    (stripped_removes_extras notedNote [.str "note"] [.str "item"]).1 _ hnotes
  exact ⟨hnotes, hleaves, hboth _ hitems⟩

end Tree

end TreeGrammar
