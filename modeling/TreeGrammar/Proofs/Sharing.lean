import Mathlib
import TreeGrammar.Proofs.CallerTexts
import TreeGrammar.Proofs.Generation
import TreeGrammar.Proofs.Marks

/-!
Code is shared. A method holds one matcher for each symbol and each token of its rule, one
application for each repetition, and one binding for each choice and each alternative, in the code
and in the text that is read back. What is compiled in front of a continuation holds what stood in
it once.
-/
namespace TreeGrammar

namespace Body

mutual

/-- The bodies that stand in a body, itself first, each as often as it stands there. -/
def occurrences : Body → List Body
  | star body => star body :: occurrences body
  | plus body => plus body :: occurrences body
  | choice bodies => choice bodies :: occurrencesOf bodies
  | seq bodies => seq bodies :: occurrencesOf bodies
  | body => [body]

def occurrencesOf : List Body → List Body
  | [] => []
  | body :: rest => occurrences body ++ occurrencesOf rest

end

def isStar : Body → Bool
  | star _ => true
  | _ => false

def isPlus : Body → Bool
  | plus _ => true
  | _ => false

/-- The alternatives of a choice. -/
def alternatives? : Body → Option (List Body)
  | choice bodies => some bodies
  | _ => none

/-- What a body asks for besides what its parts do. -/
def ownItem? : Body → Option Code.Item
  | symbol name => some (.rule name)
  | literal text | pattern text => some (.leaf text)
  | star _ => some .star
  | plus _ => some .plus
  | blank | choice _ | seq _ => none

mutual

theorem items_eq : (body : Body) → body.items = body.occurrences.filterMap ownItem?
  | symbol _ | literal _ | pattern _ | blank => by
    rw [items, occurrences] <;> simp [ownItem?]
  | star body | plus body => by
    rw [items, occurrences, items_eq body]
    rfl
  | choice bodies | seq bodies => by
    rw [items, occurrences, itemsOf_eq bodies]
    rfl

theorem itemsOf_eq : (bodies : List Body) →
    itemsOf bodies = (occurrencesOf bodies).filterMap ownItem?
  | [] => by
    rw [itemsOf, occurrencesOf]
    rfl
  | body :: rest => by
    rw [itemsOf, occurrencesOf, items_eq body, itemsOf_eq rest, List.filterMap_append]

end

mutual

theorem choices_eq : (body : Body) →
    body.choices = (body.occurrences.filterMap alternatives?).map List.length
  | symbol _ | literal _ | pattern _ | blank => by
    rw [choices, occurrences] <;> simp [alternatives?]
  | star body | plus body => by
    rw [choices, occurrences, choices_eq body]
    rfl
  | choice bodies | seq bodies => by
    rw [choices, occurrences, choicesOf_eq bodies]
    rfl

theorem choicesOf_eq : (bodies : List Body) →
    choicesOf bodies = ((occurrencesOf bodies).filterMap alternatives?).map List.length
  | [] => by
    rw [choicesOf, occurrencesOf]
    rfl
  | body :: rest => by
    rw [choicesOf, occurrencesOf, choices_eq body, choicesOf_eq rest, List.filterMap_append,
      List.map_append]

end

end Body

namespace Code

def Item.isTail : Item → Bool
  | bind (.tail _) => true
  | _ => false

def Item.isCase : Item → Bool
  | define (.case _ _) => true
  | _ => false

/-- What stands in code is what stands in a body: a matcher for each symbol and each token, an
application for each repetition, a binding for each choice and a definition for each alternative. -/
structure Written (body : Body) (items : List Item) : Prop where
  symbols : ∀ name, items.count (.rule name) = body.occurrences.count (.symbol name)
  tokens : ∀ text, items.count (.leaf text) =
    body.occurrences.count (.literal text) + body.occurrences.count (.pattern text)
  stars : items.count .star = body.occurrences.countP Body.isStar
  pluses : items.count .plus = body.occurrences.countP Body.isPlus
  tails : items.countP Item.isTail = (body.occurrences.filterMap Body.alternatives?).length
  cases : items.countP Item.isCase =
    ((body.occurrences.filterMap Body.alternatives?).map List.length).sum

theorem Grows.perm {n l : Nat} {old added new : List Item} {choices : List Nat}
    (h : Grows n old added choices new l) : ∃ purposes : List Purpose, l = n + purposes.length ∧
      new.Perm (old ++ added ++ itemsAfter n purposes) ∧
      (purposes.filterMap Purpose.alternatives?).Perm choices := by
  obtain ⟨purposes, hl, hitems, hchoices⟩ := h
  refine ⟨purposes, hl, List.perm_iff_count.mpr fun x => ?_, List.perm_iff_count.mpr hchoices⟩
  rw [hitems x, List.count_append, List.count_append]

/-- Bindings are no matchers. -/
theorem count_itemsAfter {x : Item} (hx : x.bound? = none) (n : Nat) (purposes : List Purpose) :
    (itemsAfter n purposes).count x = 0 := by
  apply List.count_eq_zero_of_not_mem
  intro hm
  obtain ⟨name, hname, -⟩ := bound?_of_mem_itemsAfter hm
  cases hx.symm.trans hname

theorem countP_isTail (n : Nat) (purposes : List Purpose) :
    (itemsAfter n purposes).countP Item.isTail =
      (purposes.filterMap Purpose.alternatives?).length := by
  induction purposes generalizing n with
  | nil => rfl
  | cons purpose rest ih =>
    rw [itemsAfter, List.countP_append, ih]
    cases purpose with
    | function =>
      rw [List.filterMap_cons]
      exact Nat.zero_add _
    | choice count =>
      have hcases : ((List.range count).map fun i => Item.define (.case (n + 1) i)).countP
          Item.isTail = 0 := by
        rw [List.countP_map, List.countP_eq_zero]
        exact fun i _ => Bool.false_ne_true
      rw [Purpose.items, List.countP_cons, hcases, List.filterMap_cons]
      exact Nat.add_comm 1 _

theorem countP_isCase (n : Nat) (purposes : List Purpose) :
    (itemsAfter n purposes).countP Item.isCase =
      (purposes.filterMap Purpose.alternatives?).sum := by
  induction purposes generalizing n with
  | nil => rfl
  | cons purpose rest ih =>
    rw [itemsAfter, List.countP_append, ih]
    cases purpose with
    | function =>
      rw [List.filterMap_cons]
      exact Nat.zero_add _
    | choice count =>
      have hcases : ((List.range count).map fun i => Item.define (.case (n + 1) i)).countP
          Item.isCase = count := by
        rw [List.countP_map]
        exact (List.countP_eq_length.mpr fun i _ => rfl).trans List.length_range
      rw [Purpose.items, List.countP_cons, hcases, List.filterMap_cons]
      rfl

theorem bound?_of_isTail_or_isCase {x : Item} (h : x.isTail ∨ x.isCase) : x.bound?.isSome := by
  cases x with
  | define name | bind name => rfl
  | _ => simp [Item.isTail, Item.isCase] at h

/-- A token is given by its text or by a pattern. -/
theorem countP_tokens (text : Label) (bodies : List Body) :
    bodies.countP (fun body => body == .literal text || body == .pattern text) =
      bodies.count (.literal text) + bodies.count (.pattern text) := by
  induction bodies with
  | nil => rfl
  | cons body rest ih =>
    rw [List.countP_cons, List.count_cons, List.count_cons, ih]
    by_cases hl : body = .literal text
    · subst hl
      simp [Nat.add_right_comm]
    · by_cases hp : body = .pattern text
      · subst hp
        simp [Nat.add_assoc]
      · simp [hl, hp]

/-- A body asks for no bindings. -/
theorem countP_bindings {p : Item → Bool} (hp : ∀ x, p x → x.isTail ∨ x.isCase) (body : Body) :
    body.items.countP p = 0 := by
  rw [List.countP_eq_zero]
  intro x hx hpx
  have hbound := bound?_of_isTail_or_isCase (hp x hpx)
  rw [(bound?_of_mem_body body hx).1] at hbound
  cases hbound

theorem Grows.written {body : Body} {n l : Nat} {items : List Item}
    (h : Grows n [] body.items body.choices items l) : Written body items := by
  obtain ⟨purposes, -, hitems, hchoices⟩ := h.perm
  rw [List.nil_append] at hitems
  rw [body.choices_eq] at hchoices
  -- What is no binding comes from the bodies that ask for it.
  have hcount {x : Item} {p : Body → Bool} (hx : x.bound? = none)
      (hp : ∀ body, (Body.ownItem? body == some x) = p body) :
      items.count x = body.occurrences.countP p :=
    calc items.count x = (body.occurrences.filterMap Body.ownItem?).count x := by
          rw [hitems.count_eq, List.count_append, count_itemsAfter hx, Nat.add_zero, body.items_eq]
      _ = body.occurrences.countP fun body => Body.ownItem? body == some x :=
          List.count_filterMap
      _ = body.occurrences.countP p := by simp only [hp]
  refine ⟨fun name => ?_, fun text => ?_, ?_, ?_, ?_, ?_⟩
  · apply hcount rfl
    intro body
    cases body <;> simp [Body.ownItem?]
  · rw [← countP_tokens]
    apply hcount rfl
    intro body
    rw [Bool.eq_iff_iff]
    cases body <;> simp [Body.ownItem?]
  · apply hcount rfl
    intro body
    cases body <;> rfl
  · apply hcount rfl
    intro body
    cases body <;> rfl
  · have hnone := countP_bindings (fun x hx => .inl hx) body (p := Item.isTail)
    rw [hitems.countP_eq, List.countP_append, hnone, countP_isTail, hchoices.length_eq,
      List.length_map, Nat.zero_add]
  · have hnone := countP_bindings (fun x hx => .inr hx) body (p := Item.isCase)
    rw [hitems.countP_eq, List.countP_append, hnone, countP_isCase, hchoices.sum_nat, Nat.zero_add]

/-- The method of a rule has the statements that the rule is compiled to, and its short form on one
line as a comment. -/
structure CompiledFrom (rule : Rule) (method : Method) : Prop where
  name : method.rule = rule.name
  comment : ∃ text, rule.short = some text ∧ method.comment = Text.onOneLine text
  block : ∃ n l, Makes (compileBlock rule) n method.block l

theorem makes_commentOf_inv {rule : Rule} {comment : String} {n l : Nat}
    (h : Makes (commentOf rule) n comment l) :
    ∃ text, rule.short = some text ∧ comment = Text.onOneLine text := by
  unfold commentOf at h
  split at h
  · rename_i text htext
    exact ⟨text, htext, (makes_pure_inv h).1⟩
  · cases h

theorem compiledFrom_of_makes {rules : List Rule} {methods : List Method} {n l : Nat}
    (h : Makes (rules.mapM compileRule) n methods l) : List.Forall₂ CompiledFrom rules methods := by
  induction rules generalizing n l methods with
  | nil =>
    obtain ⟨rfl, -⟩ := makes_pure_inv h
    exact .nil
  | cons rule rest ih =>
    rw [List.mapM_cons] at h
    obtain ⟨method, l₁, hmethod, h₁⟩ := makes_bind_inv h
    obtain ⟨methods', l₂, hmethods, h₂⟩ := makes_bind_inv h₁
    obtain ⟨rfl, -⟩ := makes_pure_inv h₂
    obtain ⟨comment, l₃, hcomment, h₃⟩ := makes_bind_inv hmethod
    obtain ⟨block, l₄, hblock, h₄⟩ := makes_bind_inv h₃
    obtain ⟨rfl, -⟩ := makes_pure_inv h₄
    exact .cons ⟨rfl, makes_commentOf_inv hcomment, l₃, l₄, hblock⟩ (ih hmethods)

theorem compiledFrom_of_build {g : Grammar} {b : Build} (h : build g = .ok b) :
    List.Forall₂ CompiledFrom g.rules b.module.methods := by
  unfold build at h
  split at h
  · cases h
  · split at h
    · cases h
    · rename_i module names hmake
      cases h
      obtain ⟨methods, k, hmethods, hmodule⟩ :=
        makes_bind_inv (show Makes (compileGrammar g) 0 module names from hmake)
      obtain ⟨rfl, -⟩ := makes_pure_inv hmodule
      exact compiledFrom_of_makes hmethods

/-- The statements of a rule can be read if what its body asks for can be written. -/
theorem readable_compileBlock {rule : Rule} {b : Block} {n l : Nat}
    (h : Makes (compileBlock rule) n b l) (hn : rule.name.IsText)
    (hi : ∀ x ∈ rule.body.items, x.Readable) : b.Readable := by
  rw [compileBlock] at h
  split at h
  · obtain ⟨rfl, -⟩ := makes_pure_inv h
    exact hn
  · obtain ⟨children, l₁, hchildren, h₁⟩ := makes_bind_inv h
    obtain ⟨t, l₂, hjoined, h₂⟩ := makes_bind_inv h₁
    obtain ⟨hnode, rfl⟩ := makes_lift_inv hjoined
    obtain ⟨rfl, -⟩ := makes_pure_inv h₂
    rw [Term.joined_eq_ok hnode]
    have hread := (extends_compileChildren hchildren).reads hi trivial
    obtain ⟨hdefs, hexpr⟩ := (Fragment.readable_term children).mp hread
    exact (Block.readable_after _ _).mpr ⟨hdefs, hn, hexpr⟩

end Code

/-- The names of rules are names in code, and tokens are texts. -/
structure Grammar.Spelled (g : Grammar) : Prop where
  names : ∀ rule ∈ g.rules, rule.name.IsName
  tokens : ∀ rule ∈ g.rules, ∀ text, .leaf text ∈ rule.body.items → text.IsText

theorem Label.IsName.isText {label : Label} (h : label.IsName) : label.IsText := by
  obtain ⟨s, rfl, -⟩ := h
  exact ⟨s, rfl⟩

open Code

/-- A label that is like the name of a rule is that name, since the name is a text. -/
theorem Grammar.Spelled.isName {g : Grammar} (hs : g.Spelled) {label : Label}
    (h : Label.isAmong g.names label) : label.IsName := by
  obtain ⟨other, ho, hlike⟩ := List.any_eq_true.mp h
  obtain ⟨named, hn, rfl⟩ := List.mem_map.mp ho
  obtain ⟨s, hname, hletters⟩ := hs.names named hn
  rw [hname] at hlike
  have hsame : (Json.str s).alike label :=
    (Json.alike_iff _ _).mpr ((Json.alike_iff _ _).mp hlike).symm
  exact ⟨s, (Json.alike_str_left_iff s label).mp hsame, hletters⟩

/-- What the bodies of a checked grammar ask for can be written. -/
theorem Grammar.Spelled.readable {g : Grammar} (hs : g.Spelled) (h : g.check = .ok ()) {rule : Rule}
    (hr : rule ∈ g.rules) : ∀ x ∈ rule.body.items, x.Readable := by
  intro x hx
  cases x with
  | rule name => exact hs.isName (isAmong_of_mem_body h hr hx)
  | leaf kind => exact hs.tokens rule hr kind hx
  | star | plus | define | bind | given => trivial

/-- The method of a composite rule holds what stands in its body, each as often as it stands there;
its text, where names can be written, is read as statements that hold the same in the same order.
Compiled code holds the text that a caller gave for the continuation just as it stood there, and
besides what stood there what the body asks for, once, and bindings of new names. -/
theorem Grammar.code_shared {g : Grammar} (h : g.check = .ok ()) :
    (g.Textual → ∃ b, build g = .ok b) ∧
    (∀ b, build g = .ok b → List.Forall₂ (fun rule method => method.rule = rule.name ∧
      (rule.isLeaf = false → Written rule.body method.block.items) ∧
      (g.Spelled → ∃ s, Script.read method.block.pieces = some s ∧
        s.marks = method.block.items.filterMap Item.mark?)) g.rules b.module.methods) ∧
    ∀ (body : Body) (next : Option Continuation) (n : Nat) (k : Continuation) (l : Nat),
      Makes (compile next body) n k l →
        k.code.texts = (Continuation.orEnd next).code.texts ∧
        ∃ purposes : List Purpose, l = n + purposes.length ∧
          (purposes.filterMap Purpose.alternatives?).Perm
            ((body.occurrences.filterMap Body.alternatives?).map List.length) ∧
          k.code.items.Perm
            ((Continuation.orEnd next).code.items ++ body.items ++ itemsAfter n purposes) := by
  refine ⟨fun ht => ?_, fun b hb => ?_,
    fun body next n k l hm => ⟨keepsTexts body next n k l hm, ?_⟩⟩
  · exact exists_build h fun rule hr => rule.short_isSome_iff.mpr (ht rule hr)
  · have hmethods := compiledFrom_of_build hb
    refine ((List.forall₂_and_left _ _).mpr ⟨fun rule hr => hr, hmethods⟩).imp ?_
    rintro rule method ⟨hr, hname, -, n, l, hblock⟩
    refine ⟨hname, fun hl => ?_, fun hs => ?_⟩
    · have hgrows := (extends_compileBlock hblock).1
      rw [itemsOfRule, if_neg (by rw [hl]; exact Bool.false_ne_true)] at hgrows
      exact hgrows.written
    · have hread := readable_compileBlock hblock (hs.names rule hr).isText (hs.readable h hr)
      exact ⟨_, (method.block.readsAs hread method.block.laidOut_pieces).read,
        method.block.marks_statements hread⟩
  · obtain ⟨purposes, hl, hitems, hchoices⟩ := ((adds body).1 next n k l hm).grows.perm
    exact ⟨purposes, hl, body.choices_eq ▸ hchoices, hitems⟩

theorem choiceGrammar_spelled : choiceGrammar.Spelled := by
  constructor
  · intro rule hr
    rcases List.mem_cons.mp hr with rfl | hr
    · exact ⟨"expr", rfl, List.all_eq_true.mp rfl⟩
    · obtain rfl := List.mem_singleton.mp hr
      exact ⟨"num", rfl, List.all_eq_true.mp rfl⟩
  · intro rule hr text ht
    rcases List.mem_cons.mp hr with rfl | hr
    · simp [Body.items, Body.itemsOf] at ht
      rcases ht with rfl | rfl
      · exact ⟨"-", rfl⟩
      · exact ⟨";", rfl⟩
    · obtain rfl := List.mem_singleton.mp hr
      simp [Body.items] at ht
      exact ⟨"[0-9]+", ht⟩

/-- Each of the two choices of the rule has one tail, and each of the four alternatives is defined
once, although the first alternatives share what follows them. -/
theorem choiceGrammar_shared : ∃ b, build choiceGrammar = .ok b ∧ ∃ method ∈ b.module.methods,
    method.rule = .str "expr" ∧ method.block.items.count (.leaf (.str ";")) = 1 ∧
    method.block.items.count (.rule (.str "num")) = 1 ∧
    method.block.items.countP Item.isTail = 2 ∧ method.block.items.countP Item.isCase = 4 ∧
    ∃ s, Script.read method.block.pieces = some s ∧
      s.marks = method.block.items.filterMap Item.mark? := by
  have hcheck : choiceGrammar.check = .ok () := rfl
  obtain ⟨hbuild, hmethods, -⟩ := Grammar.code_shared hcheck
  have hshort : ∀ rule ∈ choiceGrammar.rules, rule.short.isSome := by decide
  obtain ⟨b, hb⟩ := hbuild fun rule hr => rule.short_isSome_iff.mp (hshort rule hr)
  have hall := hmethods b hb
  refine ⟨b, hb, ?_⟩
  rcases hrest : b.module.methods with _ | ⟨method, rest⟩
  · rw [hrest] at hall
    cases hall
  · rw [hrest] at hall
    obtain ⟨⟨hname, hwritten, hread⟩, -⟩ := List.forall₂_cons.mp hall
    have hw := hwritten rfl
    refine ⟨method, List.mem_cons_self, hname, ?_, ?_, ?_, ?_, hread choiceGrammar_spelled⟩
    · exact (hw.tokens _).trans (by decide)
    · exact (hw.symbols _).trans (by decide)
    · exact hw.tails.trans (by decide)
    · exact hw.cases.trans (by decide)

end TreeGrammar
