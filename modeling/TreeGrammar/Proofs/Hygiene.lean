import Mathlib.Data.List.Basic
import TreeGrammar.Proofs.Growth

/-!
The names of a compiled module. Every number up to the last one has one purpose in the whole module,
every name is bound once, different names have different texts, and every name is used after its
binding in the same function or in a function inside it.
-/
namespace TreeGrammar.Code

/-- The digits of the number in a name. -/
theorem toList_toString (n : Nat) : (toString n).toList = Nat.toDigits 10 n := by
  rw [Nat.toString_eq_repr, Nat.toList_repr]

theorem toDigits_injective : Function.Injective (Nat.toDigits 10) := by
  intro n k h
  have hnum := congrArg (fun digits => Nat.ofDigitChars 10 digits 0) h
  simpa using hnum

/-- The letters of a name after those that all names start with. -/
def Local.letters : Local → List Char
  | function id => Nat.toDigits 10 id
  | tail id => 't' :: 'a' :: 'i' :: 'l' :: '_' :: Nat.toDigits 10 id
  | case id index =>
    'c' :: 'a' :: 's' :: 'e' :: '_' :: (Nat.toDigits 10 id ++ '_' :: Nat.toDigits 10 index)

theorem Local.toList_name (name : Local) : name.name.toList = "_parse_".toList ++ name.letters := by
  cases name with
  | function id => rw [Local.name, String.toList_append, toList_toString, letters]
  | tail id => rw [Local.name, String.toList_append, toList_toString, letters]; rfl
  | case id index =>
    have hbetween : "_".toList = ['_'] := rfl
    rw [Local.name, String.toList_append, String.toList_append, String.toList_append,
      toList_toString, toList_toString, hbetween, letters, List.append_assoc, List.append_assoc]
    rfl

/-- The digits of a number hold no other letter. -/
theorem toDigits_ne_cons {n : Nat} {c : Char} (hc : c.isDigit = false) (cs : List Char) :
    Nat.toDigits 10 n ≠ c :: cs := by
  intro h
  have hmem : c ∈ Nat.toDigits 10 n := h ▸ List.mem_cons_self
  have hd := Nat.isDigit_of_mem_toDigits (b := 10) (by decide) (by decide) hmem
  rw [hc] at hd
  cases hd

theorem Local.letters_injective : Function.Injective Local.letters := by
  intro a b h
  cases a <;> cases b
  case function.function => rw [toDigits_injective h]
  case tail.tail =>
    simp only [letters, List.cons.injEq, true_and] at h
    rw [toDigits_injective h]
  case case.case =>
    simp only [letters, List.cons.injEq, true_and] at h
    obtain ⟨hid, -, hindex⟩ := (List.append_cons_inj_of_notMem Nat.underscore_not_in_toDigits
      Nat.underscore_not_in_toDigits).mp h
    rw [toDigits_injective hid, toDigits_injective hindex]
  case function.tail => exact (toDigits_ne_cons rfl _ h).elim
  case function.case => exact (toDigits_ne_cons rfl _ h).elim
  case tail.function => exact (toDigits_ne_cons rfl _ h.symm).elim
  case case.function => exact (toDigits_ne_cons rfl _ h.symm).elim
  case tail.case => exact (absurd (List.cons.inj h).1 (by decide))
  case case.tail => exact (absurd (List.cons.inj h).1 (by decide))

theorem Local.name_injective : Function.Injective Local.name := by
  intro a b h
  apply Local.letters_injective
  have ht := congrArg String.toList h
  rw [Local.toList_name, Local.toList_name] at ht
  exact List.append_cancel_left ht

theorem bound?_of_mem_items {id : Nat} {purpose : Purpose} {x : Item} (h : x ∈ purpose.items id) :
    ∃ name, x.bound? = some name ∧ name.id = id := by
  cases purpose with
  | function =>
    rw [List.mem_singleton.mp h]
    exact ⟨_, rfl, rfl⟩
  | choice count =>
    rcases List.mem_cons.mp h with rfl | h
    · exact ⟨_, rfl, rfl⟩
    · obtain ⟨i, -, rfl⟩ := List.mem_map.mp h
      exact ⟨_, rfl, rfl⟩

theorem bound?_of_mem_itemsAfter {n : Nat} {purposes : List Purpose} {x : Item}
    (h : x ∈ itemsAfter n purposes) : ∃ name, x.bound? = some name ∧ n < name.id := by
  induction purposes generalizing n with
  | nil => cases h
  | cons purpose rest ih =>
    rcases List.mem_append.mp h with h | h
    · obtain ⟨name, hb, hid⟩ := bound?_of_mem_items h
      exact ⟨name, hb, by omega⟩
    · obtain ⟨name, hb, hid⟩ := ih h
      exact ⟨name, hb, by omega⟩

theorem Purpose.nodup_bound (id : Nat) (purpose : Purpose) :
    ((purpose.items id).filterMap Item.bound?).Nodup := by
  cases purpose with
  | function => exact List.nodup_singleton _
  | choice count =>
    have hcases : ((List.range count).map fun i => Item.define (.case id i)).filterMap
        Item.bound? = (List.range count).map (Local.case id) := by
      have hbound : Item.bound? ∘ (fun i => Item.define (.case id i)) = some ∘ Local.case id := rfl
      rw [List.filterMap_map, hbound, List.filterMap_eq_map]
    change (Local.tail id :: ((List.range count).map _).filterMap Item.bound?).Nodup
    rw [hcases, List.nodup_cons]
    refine ⟨fun h => ?_, List.nodup_range.map fun i j h => (Local.case.inj h).2⟩
    obtain ⟨i, -, h⟩ := List.mem_map.mp h
    cases h

/-- Names that are given for different purposes differ in their numbers. -/
theorem nodup_bound_itemsAfter (n : Nat) (purposes : List Purpose) :
    ((itemsAfter n purposes).filterMap Item.bound?).Nodup := by
  induction purposes generalizing n with
  | nil => exact List.nodup_nil
  | cons purpose rest ih =>
    rw [itemsAfter, List.filterMap_append, List.nodup_append]
    refine ⟨purpose.nodup_bound (n + 1), ih (n + 1), ?_⟩
    intro a ha b hb hab
    obtain ⟨x, hx, hxa⟩ := List.mem_filterMap.mp ha
    obtain ⟨y, hy, hyb⟩ := List.mem_filterMap.mp hb
    obtain ⟨name, hname, hid⟩ := bound?_of_mem_items hx
    obtain ⟨other, hother, hlt⟩ := bound?_of_mem_itemsAfter hy
    rw [hname] at hxa
    rw [hother] at hyb
    cases hxa
    cases hyb
    rw [hab] at hid
    omega

mutual

/-- A body asks for no names and no text of a caller. -/
theorem bound?_of_mem_body {x : Item} : (body : Body) → x ∈ body.items →
    x.bound? = none ∧ x ≠ .given
  | .symbol name, h | .literal text, h | .pattern text, h => by
    rw [Body.items] at h
    rw [List.mem_singleton.mp h]
    exact ⟨rfl, by simp⟩
  | .blank, h => by
    rw [Body.items] at h
    cases h
  | .star body, h | .plus body, h => by
    rw [Body.items] at h
    rcases List.mem_cons.mp h with rfl | h
    · exact ⟨rfl, by simp⟩
    · exact bound?_of_mem_body body h
  | .choice bodies, h | .seq bodies, h => by
    rw [Body.items] at h
    exact bound?_of_mem_bodies bodies h

theorem bound?_of_mem_bodies {x : Item} : (bodies : List Body) → x ∈ Body.itemsOf bodies →
    x.bound? = none ∧ x ≠ .given
  | [], h => by
    rw [Body.itemsOf] at h
    cases h
  | body :: rest, h => by
    rw [Body.itemsOf] at h
    rcases List.mem_append.mp h with h | h
    · exact bound?_of_mem_body body h
    · exact bound?_of_mem_bodies rest h

end

section
variable {n l : Nat}

/-- What the code of a rule has to hold. -/
def itemsOfRule (rule : Rule) : List Item :=
  if rule.isLeaf then [.leaf rule.name] else rule.body.items

theorem extends_compileChildren {body : Body} {t : Term} (h : Makes (compileChildren body) n t l) :
    Extends n (.ofExpr .finish) body.items body.choices (.term t) l := by
  obtain ⟨k, l₁, hcompile, h₁⟩ := makes_bind_inv h
  obtain ⟨flat, l₂, hflatten, hterm⟩ := makes_bind_inv h₁
  have hk := (adds body).1 (some .atEnd) n k l₁ hcompile
  exact (hk.trans (extends_flatten Wrap.readable_plain hflatten)).trans (extends_toTerm hterm)

theorem choices_of_isLeaf {body : Body} (h : body.isLeaf) : body.choices = [] := by
  cases body <;> simp [Body.isLeaf, Body.choices] at h ⊢

/-- The code of a rule uses no name that is bound outside. -/
theorem extends_compileBlock {rule : Rule} {b : Block} (h : Makes (compileBlock rule) n b l) :
    Grows n [] (itemsOfRule rule) rule.body.choices b.items l ∧ b.ScopedIn [] := by
  rw [compileBlock] at h
  rw [itemsOfRule]
  split at h
  · rename_i hl
    obtain ⟨rfl, rfl⟩ := makes_pure_inv h
    rw [if_pos hl, choices_of_isLeaf hl]
    refine ⟨⟨[], rfl, fun x => ?_, fun c => rfl⟩, List.nil_subset _⟩
    simp [Block.items, Expr.items, itemsAfter]
  · rename_i hl
    obtain ⟨children, l₁, hchildren, h₁⟩ := makes_bind_inv h
    obtain ⟨t, l₂, hjoined, h₂⟩ := makes_bind_inv h₁
    obtain ⟨hnode, rfl⟩ := makes_lift_inv hjoined
    obtain ⟨rfl, rfl⟩ := makes_pure_inv h₂
    have hext := extends_compileChildren hchildren
    have hscoped : children.ScopedIn [] :=
      (Fragment.scopedIn_term children).mp (hext.uses [] (List.nil_subset _))
    rw [if_neg hl, Term.joined_eq_ok hnode]
    refine ⟨?_, (Block.scopedIn_after _ _).mpr hscoped⟩
    have hitems : ((Block.ret (.node rule.name children.expr)).after children.defs).items =
        children.items := Block.items_after _ _
    rw [hitems]
    exact hext.grows

/-- Everything that stands in the methods of a module. -/
def Module.items (module : Module) : List Item :=
  module.methods.flatMap fun method => method.block.items

theorem extends_compileRules {rules : List Rule} {methods : List Method}
    (h : Makes (rules.mapM compileRule) n methods l) :
    Grows n [] (rules.flatMap itemsOfRule) (rules.flatMap fun rule => rule.body.choices)
        (methods.flatMap fun method => method.block.items) l ∧
      ∀ method ∈ methods, method.block.ScopedIn [] := by
  induction rules generalizing n methods with
  | nil =>
    obtain ⟨rfl, rfl⟩ := makes_pure_inv h
    exact ⟨.refl _ _, fun method hm => by cases hm⟩
  | cons rule rest ih =>
    rw [List.mapM_cons] at h
    obtain ⟨method, l₁, hmethod, h₁⟩ := makes_bind_inv h
    obtain ⟨methods', l₂, hmethods, h₂⟩ := makes_bind_inv h₁
    obtain ⟨rfl, rfl⟩ := makes_pure_inv h₂
    obtain ⟨comment, l₃, hcomment, h₃⟩ := makes_bind_inv hmethod
    obtain ⟨block, l₄, hblock, h₄⟩ := makes_bind_inv h₃
    obtain ⟨rfl, rfl⟩ := makes_pure_inv h₄
    obtain rfl : l₃ = n := by
      rw [commentOf] at hcomment
      split at hcomment
      · exact (makes_pure_inv hcomment).2
      · cases hcomment
    obtain ⟨hfirst, hscoped⟩ := extends_compileBlock hblock
    obtain ⟨hrest, hall⟩ := ih hmethods
    refine ⟨hfirst.append hrest, fun method hm => ?_⟩
    rcases List.mem_cons.mp hm with rfl | hm
    · exact hscoped
    · exact hall method hm

end

theorem extends_build {g : Grammar} {b : Build} (h : build g = .ok b) :
    Grows 0 [] (g.rules.flatMap itemsOfRule) (g.rules.flatMap fun rule => rule.body.choices)
        b.module.items b.names ∧
      ∀ method ∈ b.module.methods, method.block.ScopedIn [] := by
  unfold build at h
  split at h
  · cases h
  · split at h
    · cases h
    · rename_i module names hmake
      cases h
      obtain ⟨methods, k, hmethods, hmodule⟩ :=
        makes_bind_inv (show Makes (compileGrammar g) 0 module names from hmake)
      obtain ⟨rfl, rfl⟩ := makes_pure_inv hmodule
      exact extends_compileRules hmethods

theorem bound?_of_mem_itemsOfRule {rule : Rule} {x : Item} (h : x ∈ itemsOfRule rule) :
    x.bound? = none ∧ x ≠ .given := by
  rw [itemsOfRule] at h
  split at h
  · rw [List.mem_singleton.mp h]
    exact ⟨rfl, by simp⟩
  · exact bound?_of_mem_body rule.body h

/-- A grammar of expressions in which a choice stands inside a choice. -/
def choiceGrammar : Grammar where
  entrypoint := "expr"
  rules := [⟨.str "expr", .seq [.choice [.symbol (.str "num"),
    .seq [.choice [.literal (.str "-"), .blank], .symbol (.str "expr")]], .literal (.str ";")]⟩,
    ⟨.str "num", .pattern (.str "[0-9]+")⟩]
  extras := []
  distinct := by decide

end TreeGrammar.Code
